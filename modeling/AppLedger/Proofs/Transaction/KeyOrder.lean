import AppLedger.Proofs.Msgpack.KeyOrder
import AppLedger.Proofs.Transaction.SignedRoundTrip

/-! A signed transaction comes back from its map with the keys in the order in which they are
declared, as it does from its encoding. -/

namespace AppLedger

open Msgpack Wire

namespace Msgpack.FieldCodec

variable {α : Type} {f : FieldCodec α}

theorem Keyed.kept (hf : f.Keyed) : f.kept.Keyed :=
  hf

theorem Keyed.listOrBytes (hf : f.Keyed) : f.listOrBytes.Keyed :=
  hf.list

theorem keyed_byte : byte.Keyed :=
  fun _ => Value.keyed_ofNat _

end Msgpack.FieldCodec

/-! ## Fields -/

theorem blind_addressOfWire? : Value.Blind addressOfWire? :=
  fun _ hv => congrArg (Option.map Address.mk) (Value.blind_fixedBytes? 32 hv)

theorem keyed_addressField : addressField.Keyed :=
  fun _ => Value.keyed_bytes _

theorem keyed_digestField : digestField.Keyed :=
  FieldCodec.keyed_fixed 32 _

theorem keyed_signatureField : signatureField.Keyed :=
  (FieldCodec.keyed_fixed 64 _).kept

theorem keyed_onCompleteField : onCompleteField.Keyed :=
  fun _ => Value.keyed_ofNat _

namespace StateSchema

theorem blind_ofWire? : Value.Blind ofWire? := by
  refine Value.SlotsBlind.fields? (fun slots hslots => ?_) .outer (by decide)
  rcases slots with _ | ⟨uints, _ | ⟨byteSlices, _ | ⟨_, _⟩⟩⟩
  case cons.cons.nil =>
    simp only [List.forall_mem_cons] at hslots
    obtain ⟨huints, hbyteSlices, -⟩ := hslots
    simp only [List.map_cons, List.map_nil, Value.blind_uint64?.withDefault? 0 huints,
      Value.blind_uint64?.withDefault? 0 hbyteSlices]
  all_goals rfl

theorem keyed (schema : StateSchema) : (Value.ofFields schema.wireFields).Keyed := by
  rw [wireFields_eq]
  refine Value.keyed_entriesOf (by decide) ?_
  simp only [slots, List.forall_mem_cons]
  exact ⟨FieldCodec.keyed_number.slot _, FieldCodec.keyed_number.slot _, List.forall_mem_nil _⟩

end StateSchema

theorem keyed_schemaField : schemaField.Keyed :=
  StateSchema.keyed

namespace BoxRef

theorem blind_ofWire? : Value.Blind ofWire? := by
  refine Value.SlotsBlind.fields? (fun slots hslots => ?_) .outer (by decide)
  rcases slots with _ | ⟨index, _ | ⟨_ | name, _ | ⟨_, _⟩⟩⟩
  case cons.cons.some.nil =>
    simp only [List.forall_mem_cons] at hslots
    obtain ⟨hindex, hname, -⟩ := hslots
    simp only [List.map_cons, List.map_nil, Option.map_some,
      (Value.blind_natBelow? _).withDefault? 0 hindex, Value.blind_bytes? (hname name rfl)]
  all_goals rfl

theorem keyed (place : Nat) (name : Bytes) : (wire place name).Keyed := by
  rw [wire_eq]
  refine Value.keyed_entriesOf (by decide) ?_
  simp only [slots, List.forall_mem_cons]
  refine ⟨?_, ?_, List.forall_mem_nil _⟩
  · intro v hv
    split at hv
    · simp at hv
    · obtain rfl := Option.some.inj hv
      exact Value.keyed_ofNat place
  · intro v hv
    obtain rfl := Option.some.inj hv
    exact Value.keyed_bytes name

end BoxRef

theorem keyed_boxField : boxField.Keyed :=
  fun box => BoxRef.keyed box.1 box.2

namespace Multisig

theorem blind_subsignatureOfWire? : Value.Blind subsignatureOfWire? := by
  refine Value.SlotsBlind.fields? (fun slots hslots => ?_) .all (by decide)
  rcases slots with _ | ⟨_ | pk, _ | ⟨signature, _ | ⟨_, _⟩⟩⟩
  case cons.some.cons.nil =>
    simp only [List.forall_mem_cons] at hslots
    obtain ⟨hpk, hsignature, -⟩ := hslots
    simp only [List.map_cons, List.map_nil, Option.map_some, blind_addressOfWire? (hpk pk rfl),
      (Value.blind_fixedBytes? 64).optional? hsignature]
  all_goals rfl

theorem keyed_subsignature (s : Subsignature) : (subsignatureWire s).Keyed := by
  rw [subsignatureWire_eq]
  refine Value.keyed_entriesOf (by decide) ?_
  simp only [subsignatureSlots, List.forall_mem_cons]
  exact ⟨keyed_addressField.kept.slot _, keyed_signatureField.bind _, List.forall_mem_nil _⟩

end Multisig

theorem keyed_subsignatureField : subsignatureField.Keyed :=
  Multisig.keyed_subsignature

namespace Multisig

theorem blind_ofWire? : Value.Blind ofWire? := by
  refine Value.SlotsBlind.fields? (fun slots hslots => ?_) .all (by decide)
  rcases slots with
    _ | ⟨_ | version, _ | ⟨_ | threshold, _ | ⟨_ | subsignatures, _ | ⟨_, _⟩⟩⟩⟩
  case cons.some.cons.some.cons.some.nil =>
    simp only [List.forall_mem_cons] at hslots
    obtain ⟨hversion, hthreshold, hsubsignatures, -⟩ := hslots
    simp only [List.map_cons, List.map_nil, Option.map_some,
      Value.blind_uint8? (hversion version rfl), Value.blind_uint8? (hthreshold threshold rfl),
      Value.blind_listOrBytes? blind_subsignatureOfWire? (hsubsignatures subsignatures rfl)]
  all_goals rfl

theorem keyed (m : Multisig) : m.wire.Keyed := by
  rw [wire_eq]
  refine Value.keyed_entriesOf (by decide) ?_
  simp only [slots, List.forall_mem_cons]
  exact ⟨FieldCodec.keyed_byte.slot _, FieldCodec.keyed_byte.slot _,
    keyed_subsignatureField.listOrBytes.kept.slot _, List.forall_mem_nil _⟩

end Multisig

theorem keyed_multisigField : multisigField.Keyed :=
  Multisig.keyed

namespace LogicSig

theorem blind_ofWire? : Value.Blind ofWire? := by
  refine Value.SlotsBlind.fields? (fun slots hslots => ?_) .all (by decide)
  rcases slots with
    _ | ⟨_ | logic, _ | ⟨args, _ | ⟨signature, _ | ⟨multisig, _ | ⟨_, _⟩⟩⟩⟩⟩
  case cons.some.cons.cons.cons.nil =>
    simp only [List.forall_mem_cons] at hslots
    obtain ⟨hlogic, hargs, hsignature, hmultisig, -⟩ := hslots
    simp only [List.map_cons, List.map_nil, Option.map_some, Value.blind_bytes? (hlogic logic rfl),
      (Value.blind_listOrBytes? Value.blind_bytes?).optional? hargs,
      (Value.blind_fixedBytes? 64).optional? hsignature, Multisig.blind_ofWire?.optional? hmultisig]
  all_goals rfl

theorem keyed (l : LogicSig) : l.wire.Keyed := by
  rw [wire_eq]
  refine Value.keyed_entriesOf (by decide) ?_
  simp only [slots, List.forall_mem_cons]
  exact ⟨FieldCodec.keyed_bytes.kept.slot _, FieldCodec.keyed_bytes.listOrBytes.bind _,
    keyed_signatureField.bind _, keyed_multisigField.bind _, List.forall_mem_nil _⟩

end LogicSig

theorem keyed_logicSigField : logicSigField.Keyed :=
  LogicSig.keyed

theorem Authorization.blind_ofWire? : Value.Blind ofWire? := by
  refine Value.SlotsBlind.fields? (fun slots hslots => ?_) .all (by decide)
  rcases slots with
    _ | ⟨signature, _ | ⟨multisig, _ | ⟨logicSig, _ | ⟨authAddress, _ | ⟨_, _⟩⟩⟩⟩⟩
  case cons.cons.cons.cons.nil =>
    simp only [List.forall_mem_cons] at hslots
    obtain ⟨hsignature, hmultisig, hlogicSig, hauthAddress, -⟩ := hslots
    simp only [List.map_cons, List.map_nil, (Value.blind_fixedBytes? 64).optional? hsignature,
      Multisig.blind_ofWire?.optional? hmultisig, LogicSig.blind_ofWire?.optional? hlogicSig,
      blind_addressOfWire?.optional? hauthAddress]
  all_goals rfl

/-! ## Transactions -/

namespace Header

theorem slotKeyed (h : Header) : ∀ slot ∈ h.slots, Value.SlotKeyed slot := by
  simp only [slots, List.forall_mem_cons]
  exact ⟨keyed_addressField.slot _, FieldCodec.keyed_number.bind _, FieldCodec.keyed_number.slot _,
    FieldCodec.keyed_number.slot _, keyed_digestField.bind _, FieldCodec.keyed_text.bind _,
    FieldCodec.keyed_bytes.bind _, keyed_addressField.bind _, keyed_digestField.bind _,
    keyed_digestField.bind _, List.forall_mem_nil _⟩

theorem ofWire?_sortedSlots (h : Header) :
    ofWire? (h.slots.map (Option.map Value.sorted)) = ofWire? h.slots := by
  have hkeyed := h.slotKeyed
  simp only [slots, List.forall_mem_cons] at hkeyed
  obtain ⟨hsnd, hfee, hfv, hlv, hgh, hgen, hnote, hrekey, hlx, hgrp, -⟩ := hkeyed
  simp only [slots, List.map_cons, List.map_nil, ofWire?, blind_addressOfWire?.withDefault? _ hsnd,
    Value.blind_uint64?.optional? hfee, Value.blind_uint64?.withDefault? 0 hfv,
    Value.blind_uint64?.withDefault? 0 hlv, (Value.blind_fixedBytes? 32).optional? hgh,
    Value.blind_text?.optional? hgen, Value.blind_bytes?.optional? hnote,
    blind_addressOfWire?.optional? hrekey, (Value.blind_fixedBytes? 32).optional? hlx,
    (Value.blind_fixedBytes? 32).optional? hgrp]

end Header

namespace Payment

theorem slotKeyed (p : Payment) : ∀ slot ∈ p.slots, Value.SlotKeyed slot := by
  simp only [slots, List.forall_mem_cons]
  exact ⟨keyed_addressField.slot _, FieldCodec.keyed_number.slot _, keyed_addressField.bind _,
    List.forall_mem_nil _⟩

theorem ofWire?_sortedSlots (p : Payment) (header : Header) :
    ofWire? header (p.slots.map (Option.map Value.sorted)) = ofWire? header p.slots := by
  have hkeyed := p.slotKeyed
  simp only [slots, List.forall_mem_cons] at hkeyed
  obtain ⟨hrcv, hamt, hclose, -⟩ := hkeyed
  simp only [slots, List.map_cons, List.map_nil, ofWire?, blind_addressOfWire?.withDefault? _ hrcv,
    Value.blind_uint64?.withDefault? 0 hamt, blind_addressOfWire?.optional? hclose]

end Payment

namespace AppCall

theorem slotKeyed (c : AppCall) : ∀ slot ∈ c.slots, Value.SlotKeyed slot := by
  simp only [slots, List.forall_mem_cons]
  exact ⟨FieldCodec.keyed_number.slot _, keyed_onCompleteField.slot _,
    FieldCodec.keyed_bytes.bind _, FieldCodec.keyed_bytes.bind _, keyed_schemaField.bind _,
    keyed_schemaField.bind _, FieldCodec.keyed_number.bind _, FieldCodec.keyed_bytes.list.bind _,
    keyed_addressField.list.bind _, FieldCodec.keyed_number.list.bind _,
    FieldCodec.keyed_number.list.bind _, keyed_boxField.list.slot _, List.forall_mem_nil _⟩

theorem blind_onComplete? :
    Value.Blind fun v => (v.natBelow? 256).bind OnComplete.ofCode? :=
  fun _ hv => congrArg (Option.bind · OnComplete.ofCode?) (Value.blind_natBelow? 256 hv)

theorem ofWire?_sortedSlots (c : AppCall) (header : Header) :
    ofWire? header (c.slots.map (Option.map Value.sorted)) = ofWire? header c.slots := by
  have hkeyed := c.slotKeyed
  simp only [slots, List.forall_mem_cons] at hkeyed
  obtain ⟨hapid, hapan, hapap, hapsu, hapgs, hapls, hapep, hapaa, hapat, hapfa, hapas, hapbx, -⟩ :=
    hkeyed
  simp only [slots, List.map_cons, List.map_nil, ofWire?, Value.blind_uint64?.withDefault? 0 hapid,
    blind_onComplete?.withDefault? _ hapan, Value.blind_bytes?.optional? hapap,
    Value.blind_bytes?.optional? hapsu, StateSchema.blind_ofWire?.optional? hapgs,
    StateSchema.blind_ofWire?.optional? hapls, Value.blind_uint64?.optional? hapep,
    (Value.blind_list? Value.blind_bytes?).optional? hapaa,
    (Value.blind_list? blind_addressOfWire?).optional? hapat,
    (Value.blind_list? Value.blind_uint64?).optional? hapfa,
    (Value.blind_list? Value.blind_uint64?).optional? hapas,
    (Value.blind_list? BoxRef.blind_ofWire?).optional? hapbx]

end AppCall

namespace Transaction

/-- The map of a transaction whose boxes are listed, with its keys in the order of their
declaration. -/
def declaredWire (t : Transaction) : Value :=
  .ofFields (entriesOf t.kind.names t.slots)

variable {t : Transaction}

theorem keyed_declaredWire (t : Transaction) : t.declaredWire.Keyed := by
  refine Value.keyed_entriesOf t.kind.nodup_names ?_
  rw [slots, List.forall_mem_cons]
  constructor
  · intro v hv
    obtain rfl := Option.some.inj hv
    cases t <;> exact Value.keyed_text _
  · cases t with
    | payment p =>
      rw [fieldSlots, List.forall_mem_append]
      exact ⟨p.header.slotKeyed, p.slotKeyed⟩
    | appCall c =>
      rw [fieldSlots, List.forall_mem_append]
      exact ⟨c.header.slotKeyed, c.slotKeyed⟩

theorem kindOfWire?_declaredWire (t : Transaction) : kindOfWire? t.declaredWire = some t.kind := by
  have hnodup := (keys_entriesOf_sublist t.kind.names t.slots).nodup t.kind.nodup_names
  have htype : (entriesOf t.kind.names t.slots).lookup "type" = some t.kind.wire := by
    have hlookup := map_lookup_entriesOf t.kind.nodup_names t.length_names
    cases t <;> exact (List.cons.inj hlookup).1
  rw [declaredWire, kindOfWire?_of_lookup hnodup htype]
  cases t <;> rfl

theorem splitFields?_declaredWire {header : Header} {own : List String}
    {ownSlots : List (Option Value)} (hnames : t.kind.names = "type" :: (Header.wireNames ++ own))
    (hslots : t.fieldSlots = header.slots ++ ownSlots) (hsized : header.Sized) :
    splitFields? own t.declaredWire = some (header.norm, ownSlots) := by
  have hfields := Value.namedFields?_entriesOf t.kind.nodup_names t.length_names
  have hheader : Header.ofWire? header.slots = some header.norm := by
    rw [← header.ofWire?_sortedSlots, Header.ofWire?_slots _ hsized]
  rw [slots, hslots, hnames] at hfields
  rw [splitFields?, declaredWire, slots, hslots, hnames, hfields]
  exact congrArg (Option.bind · fun header => some (header, _)) hheader

theorem ofWire_declaredWire (hsized : t.Sized) (hlisted : t.BoxesListed) :
    ofWire t.declaredWire = .ok t.norm := by
  cases t with
  | payment p =>
    have hsplit := splitFields?_declaredWire (t := payment p) rfl rfl hsized
    rw [ofWire, kindOfWire?_declaredWire, kind]
    simp only [hsplit, Option.bind_some, ← p.ofWire?_sortedSlots, p.ofWire?_slots]
    rfl
  | appCall c =>
    have hsplit := splitFields?_declaredWire (t := appCall c) rfl rfl hsized.header
    rw [ofWire, kindOfWire?_declaredWire, kind]
    simp only [hsplit, Option.bind_some, ← c.ofWire?_sortedSlots,
      AppCall.ofWire?_slots hsized hlisted, AppCall.withBoxes_places hlisted]
    rfl

theorem decode_declaredWire (hsized : t.Sized) (hlisted : t.BoxesListed) :
    decode t.declaredWire.encode = .ok t.norm := by
  have hlegible : t.declaredWire.Legible maxDepth :=
    Value.legible_of_sorted t.keyed_declaredWire
      (legible_sortedWire hsized hlisted (by decide : 2 ≤ 1022))
  have hread := decode?_encode hlegible
  obtain ⟨hne, htag⟩ := encode_map_untagged hlegible
  exact (decode_untagged hne htag hread).trans (ofWire_declaredWire hsized hlisted)

end Transaction

namespace SignedTransaction

/-- The map of a signed transaction whose boxes are listed, with its keys in the order of their
declaration. -/
def declaredWire (s : SignedTransaction) : Value :=
  .ofFields (entriesOf names s.slots)

variable {s : SignedTransaction}

theorem keyed_declaredWire (s : SignedTransaction) : s.declaredWire.Keyed := by
  refine Value.keyed_entriesOf (by decide) ?_
  simp only [slots, authorizationSlots, List.forall_mem_cons]
  refine ⟨?_, keyed_signatureField.bind _, keyed_multisigField.bind _, keyed_logicSigField.bind _,
    keyed_addressField.bind _, List.forall_mem_nil _⟩
  intro v hv
  obtain rfl := Option.some.inj hv
  exact s.transaction.keyed_declaredWire

theorem legible_declaredWire (hsized : s.Sized) (hlisted : s.transaction.BoxesListed) {depth : Nat}
    (hdepth : 4 ≤ depth) : s.declaredWire.Legible (depth + 1) :=
  Value.legible_of_sorted s.keyed_declaredWire (legible hsized hlisted hdepth)

theorem authorization_declaredWire (hsized : s.Sized) :
    Authorization.ofWire? s.declaredWire = some s.norm.toAuthorization := by
  have hlen : names.length = s.slots.length := rfl
  obtain ⟨fields, hsorted, hnodup, -, hlookup⟩ := Value.exists_sorted_entriesOf (by decide) hlen
  rw [← Authorization.blind_ofWire? s.keyed_declaredWire, declaredWire, hsorted]
  exact ofWire?_slots hsized hnodup (List.cons.inj hlookup).2

theorem decode_declaredWire (hsized : s.Sized) (hlisted : s.transaction.BoxesListed) :
    decode s.declaredWire.encode = .ok s.norm := by
  have hread := decode?_encode (legible_declaredWire hsized hlisted (by decide : 4 ≤ 1022))
  have hnodup := (keys_entriesOf_sublist names s.slots).nodup (by decide)
  have htxn : (entriesOf names s.slots).lookup "txn" = some s.transaction.declaredWire :=
    Value.lookup_entriesOf (by decide) rfl
  have hentry := entry?_of_lookup hnodup htxn
  have hauthorization := authorization_declaredWire hsized
  have hinner := Transaction.decode_declaredWire hsized.transaction hlisted
  rw [declaredWire, Value.ofFields] at hread hauthorization
  rw [declaredWire, Value.ofFields, decode, hread]
  simp only [hentry, hauthorization, hinner]
  rfl

end SignedTransaction

end AppLedger
