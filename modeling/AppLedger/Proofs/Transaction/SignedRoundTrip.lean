import AppLedger.Proofs.Transaction.NormalWire
import AppLedger.Proofs.Transaction.RoundTrip
import AppLedger.Transaction.Signed

/-! A signed transaction comes back from its bytes, up to what its map leaves out. -/

namespace AppLedger

open Msgpack Wire

namespace Msgpack.FieldCodec

variable {α : Type}

/-- The field, written whatever its value is. -/
def kept (f : FieldCodec α) : FieldCodec α :=
  { f with empty := fun _ => false }

theorem slot_kept (f : FieldCodec α) (a : α) : f.kept.slot a = some (f.value a) := rfl

/-- A field that is never empty comes back as it was. -/
theorem optional?_slot_of_kept {f : FieldCodec α} (hkept : ∀ a, f.empty a = false)
    {a : Option α} (h : ∀ b ∈ a, f.Fits b) :
    Value.optional? f.read? ((a.bind f.slot).map Value.sorted) = some a := by
  have hkeep : f.keep a = a := by
    cases a with
    | none => rfl
    | some a => rw [keep, Option.filter_some, hkept, Bool.not_false, if_pos rfl]
  rw [f.optional?_slot h, hkeep]

/-- Lists that may also be written as no bytes. -/
def listOrBytes (item : FieldCodec α) : FieldCodec (List α) :=
  { list item with
    read? := Value.listOrBytes? item.read?
    read?_value as h := by
      have hread := (list item).read?_value as h
      simp only [list, Value.sorted] at hread ⊢
      exact hread }

def byte : FieldCodec UInt8 where
  empty _ := false
  value n := .ofNat n.toNat
  read? := Value.uint8?
  Fits _ := True
  height := 0
  read?_value n _ := by
    simp [Value.ofNat, Value.sorted, Value.uint8?, Value.natBelow?, n.toNat_lt]
  value_ne_nil _ := nofun
  legible n _ _ _ := .number (Nat.lt_trans n.toNat_lt (by decide))

end Msgpack.FieldCodec

open Msgpack

def signatureField : FieldCodec Signature :=
  (FieldCodec.fixed 64 (by decide)).kept

theorem signature?_slot (signature : Option Signature) :
    Value.optional? (Value.fixedBytes? 64)
      ((signature.bind signatureField.slot).map Value.sorted) = some signature :=
  FieldCodec.optional?_slot_of_kept (f := signatureField) (fun _ => rfl) fun _ _ => trivial

/-! ## Shared accounts -/

namespace Multisig

def subsignatureSlots (s : Subsignature) : List (Option Value) :=
  [addressField.kept.slot s.address, s.signature.bind signatureField.slot]

theorem subsignatureWire_eq (s : Subsignature) :
    subsignatureWire s = .ofFields (entriesOf ["pk", "s"] (subsignatureSlots s)) := by
  obtain ⟨address, signature⟩ := s
  cases signature <;> rfl

theorem subsignatureOfWire?_sorted (s : Subsignature) :
    subsignatureOfWire? (subsignatureWire s).sorted = some s := by
  have hfields : (subsignatureWire s).sorted.fields? .all ["pk", "s"] =
      some ((subsignatureSlots s).map (Option.map Value.sorted)) := by
    rw [subsignatureWire_eq]
    exact Value.fields?_sorted .all (by decide) rfl
  have haddress : addressOfWire? (addressField.value s.address).sorted = some s.address :=
    addressField.read?_value s.address trivial
  rw [subsignatureOfWire?, hfields]
  simp only [subsignatureSlots, FieldCodec.slot_kept, List.map_cons, List.map_nil,
    Option.map_some, Option.bind_eq_bind, Option.bind_some, haddress, signature?_slot]
  rfl

theorem legible_subsignature (s : Subsignature) (depth : Nat) :
    (subsignatureWire s).sorted.Legible (depth + 1) := by
  rw [subsignatureWire_eq]
  refine Value.legible_sorted (by decide) rfl (by decide) (by decide) ?_
  simp only [subsignatureSlots, List.forall_mem_cons, List.not_mem_nil]
  exact ⟨addressField.kept.slotLegible_slot trivial (Nat.zero_le _),
    signatureField.slotLegible_bind (fun _ _ => trivial) (Nat.zero_le _), nofun⟩

end Multisig

def subsignatureField : FieldCodec Subsignature where
  empty _ := false
  value := Multisig.subsignatureWire
  read? := Multisig.subsignatureOfWire?
  Fits _ := True
  height := 1
  read?_value s _ := Multisig.subsignatureOfWire?_sorted s
  value_ne_nil _ := nofun
  legible s depth _ hdepth := by
    obtain ⟨depth, rfl⟩ : ∃ d, depth = d + 1 := ⟨depth - 1, by omega⟩
    exact Multisig.legible_subsignature s depth

namespace Multisig

/-- The number of subsignatures can be written. -/
def Sized (m : Multisig) : Prop :=
  m.subsignatures.length < UInt32.size

def slots (m : Multisig) : List (Option Value) :=
  [FieldCodec.byte.slot m.version, FieldCodec.byte.slot m.threshold,
    subsignatureField.listOrBytes.kept.slot m.subsignatures]

theorem wire_eq (m : Multisig) :
    m.wire = .ofFields (entriesOf ["v", "thr", "subsig"] m.slots) := rfl

theorem ofWire?_sorted {m : Multisig} (hsized : m.Sized) : ofWire? m.wire.sorted = some m := by
  have hfields : m.wire.sorted.fields? .all ["v", "thr", "subsig"] =
      some (m.slots.map (Option.map Value.sorted)) := by
    rw [wire_eq]
    exact Value.fields?_sorted .all (by decide) rfl
  have hversion : (FieldCodec.byte.value m.version).sorted.uint8? = some m.version :=
    FieldCodec.byte.read?_value m.version trivial
  have hthreshold : (FieldCodec.byte.value m.threshold).sorted.uint8? = some m.threshold :=
    FieldCodec.byte.read?_value m.threshold trivial
  have hsubsignatures : Value.listOrBytes? subsignatureOfWire?
      (subsignatureField.listOrBytes.value m.subsignatures).sorted = some m.subsignatures :=
    subsignatureField.listOrBytes.read?_value m.subsignatures ⟨hsized, fun _ _ => trivial⟩
  have hkept : FieldCodec.byte.slot = fun n => some (FieldCodec.byte.value n) := rfl
  rw [ofWire?, hfields]
  simp only [slots, FieldCodec.slot_kept, hkept, List.map_cons, List.map_nil, Option.map_some,
    Option.bind_eq_bind, Option.bind_some, hversion, hthreshold, hsubsignatures]
  rfl

theorem legible {m : Multisig} (hsized : m.Sized) {depth : Nat} (hdepth : 2 ≤ depth) :
    m.wire.sorted.Legible (depth + 1) := by
  rw [wire_eq]
  refine Value.legible_sorted (by decide) rfl (by decide) (by decide) ?_
  simp only [slots, List.forall_mem_cons, List.not_mem_nil]
  exact ⟨FieldCodec.byte.slotLegible_slot trivial (Nat.zero_le _),
    FieldCodec.byte.slotLegible_slot trivial (Nat.zero_le _),
    subsignatureField.listOrBytes.kept.slotLegible_slot ⟨hsized, fun _ _ => trivial⟩ hdepth, nofun⟩

end Multisig

def multisigField : FieldCodec Multisig where
  empty _ := false
  value := Multisig.wire
  read? := Multisig.ofWire?
  Fits := Multisig.Sized
  height := 3
  read?_value _ := Multisig.ofWire?_sorted
  value_ne_nil _ := nofun
  legible m depth hsized hdepth := by
    obtain ⟨depth, rfl⟩ : ∃ d, depth = d + 1 := ⟨depth - 1, by omega⟩
    exact Multisig.legible hsized (by omega)

theorem multisig?_slot {multisig : Option Multisig} (hsized : ∀ m ∈ multisig, m.Sized) :
    Value.optional? Multisig.ofWire? ((multisig.bind multisigField.slot).map Value.sorted) =
      some multisig :=
  FieldCodec.optional?_slot_of_kept (f := multisigField) (fun _ => rfl) hsized

/-! ## Programs that sign -/

namespace LogicSig

/-- An empty list of arguments is left out. -/
def norm (l : LogicSig) : LogicSig :=
  { l with args := l.args.filter (!·.isEmpty) }

/-- The sizes of the byte strings and lists can be written. -/
structure Sized (l : LogicSig) : Prop where
  logic : l.logic.length < UInt32.size
  args : ∀ args ∈ l.args, args.length < UInt32.size ∧ ∀ b ∈ args, b.length < UInt32.size
  multisig : ∀ m ∈ l.multisig, m.Sized

def slots (l : LogicSig) : List (Option Value) :=
  [FieldCodec.bytes.kept.slot l.logic, l.args.bind FieldCodec.bytes.listOrBytes.slot,
    l.signature.bind signatureField.slot, l.multisig.bind multisigField.slot]

theorem wire_eq (l : LogicSig) :
    l.wire = .ofFields (entriesOf ["l", "arg", "sig", "msig"] l.slots) := by
  obtain ⟨logic, args, signature, multisig⟩ := l
  cases signature <;> cases multisig <;> cases args with
  | none => rfl
  | some args => cases args <;> rfl

theorem wire_norm (l : LogicSig) : l.norm.wire = l.wire := by
  have hargs := optional_filter (list "arg" .bytes) (fun _ => field_of_empty) l.args
  simp only [wire, norm]
  rw [hargs]

theorem ofWire?_sorted {l : LogicSig} (hsized : l.Sized) :
    ofWire? l.wire.sorted = some l.norm := by
  have hfields : l.wire.sorted.fields? .all ["l", "arg", "sig", "msig"] =
      some (l.slots.map (Option.map Value.sorted)) := by
    rw [wire_eq]
    exact Value.fields?_sorted .all (by decide) rfl
  have hlogic : (FieldCodec.bytes.value l.logic).sorted.bytes? = some l.logic :=
    FieldCodec.bytes.read?_value l.logic hsized.logic
  have hargs : Value.optional? (Value.listOrBytes? Value.bytes?)
      ((l.args.bind FieldCodec.bytes.listOrBytes.slot).map Value.sorted) =
        some (l.args.filter (!·.isEmpty)) :=
    FieldCodec.bytes.listOrBytes.optional?_slot hsized.args
  rw [ofWire?, hfields]
  simp only [slots, FieldCodec.slot_kept, List.map_cons, List.map_nil, Option.map_some,
    Option.bind_eq_bind, Option.bind_some, hlogic, hargs, signature?_slot,
    multisig?_slot hsized.multisig]
  rfl

theorem legible {l : LogicSig} (hsized : l.Sized) {depth : Nat} (hdepth : 3 ≤ depth) :
    l.wire.sorted.Legible (depth + 1) := by
  have hone : 1 ≤ depth := by omega
  rw [wire_eq]
  refine Value.legible_sorted (by decide) rfl (by decide) (by decide) ?_
  simp only [slots, List.forall_mem_cons, List.not_mem_nil]
  exact ⟨FieldCodec.bytes.kept.slotLegible_slot hsized.logic (Nat.zero_le _),
    FieldCodec.bytes.listOrBytes.slotLegible_bind hsized.args hone,
    signatureField.slotLegible_bind (fun _ _ => trivial) (Nat.zero_le _),
    multisigField.slotLegible_bind hsized.multisig hdepth, nofun⟩

end LogicSig

def logicSigField : FieldCodec LogicSig where
  empty _ := false
  value := LogicSig.wire
  read? := LogicSig.ofWire?
  Fits l := l.Sized ∧ l.norm = l
  height := 4
  read?_value l h := (LogicSig.ofWire?_sorted h.1).trans (congrArg some h.2)
  value_ne_nil _ := nofun
  legible l depth h hdepth := by
    obtain ⟨depth, rfl⟩ : ∃ d, depth = d + 1 := ⟨depth - 1, by omega⟩
    exact LogicSig.legible h.1 (by omega)

namespace LogicSig

theorem norm_norm (l : LogicSig) : l.norm.norm = l.norm := by
  rw [norm, norm, Option.filter_filter]
  simp only [Bool.and_self]

theorem sized_norm {l : LogicSig} (h : l.Sized) : l.norm.Sized where
  logic := h.logic
  args args hargs := h.args args (Option.mem_filter_iff.mp hargs).1
  multisig := h.multisig

end LogicSig

/-! ## Signed transactions -/

namespace SignedTransaction

def norm (s : SignedTransaction) : SignedTransaction where
  signature := s.signature
  multisig := s.multisig
  logicSig := s.logicSig.map LogicSig.norm
  authAddress := s.authAddress.filter (!·.isZero)
  transaction := s.transaction.norm

theorem id_norm (s : SignedTransaction) : s.norm.id = s.id :=
  s.transaction.id_norm

theorem authorizer_norm {s : SignedTransaction} (h : ∀ a ∈ s.authAddress, a.isZero = false) :
    s.norm.authorizer = s.authorizer := by
  have hauth : s.norm.authAddress = s.authAddress := filter_of_plain h
  have hsender : s.norm.transaction.sender = s.transaction.sender := s.transaction.sender_norm
  rw [authorizer, authorizer, hauth, hsender]

/-- The sizes of the texts, byte strings and lists can be written. -/
structure Sized (s : SignedTransaction) : Prop where
  transaction : s.transaction.Sized
  multisig : ∀ m ∈ s.multisig, m.Sized
  logicSig : ∀ l ∈ s.logicSig, l.Sized

def names : List String := ["txn", "sig", "msig", "lsig", "sgnr"]

def authorizationSlots (s : SignedTransaction) : List (Option Value) :=
  [s.signature.bind signatureField.slot, s.multisig.bind multisigField.slot,
    (s.logicSig.map LogicSig.norm).bind logicSigField.slot, s.authAddress.bind addressField.slot]

def slots (s : SignedTransaction) : List (Option Value) :=
  some (.ofFields (entriesOf s.transaction.kind.names s.transaction.slots)) :: s.authorizationSlots

theorem wire_of_listed {s : SignedTransaction} (h : s.transaction.BoxesListed) :
    s.wire = .ok (entriesOf names s.slots) := by
  have hsignature : optional (fun signature => [("sig", .bytes signature.bytes)]) s.signature =
      entry "sig" (s.signature.bind signatureField.slot) := by
    cases s.signature <;> rfl
  have hmultisig : optional (fun multisig => [("msig", multisig.wire)]) s.multisig =
      entry "msig" (s.multisig.bind multisigField.slot) := by
    cases s.multisig <;> rfl
  have hlogicSig : optional (fun logicSig => [("lsig", logicSig.wire)]) s.logicSig =
      entry "lsig" ((s.logicSig.map LogicSig.norm).bind logicSigField.slot) := by
    cases s.logicSig with
    | none => rfl
    | some l => exact congrArg (fun v => [("lsig", v)]) l.wire_norm.symm
  have hauthAddress : optional (address "sgnr") s.authAddress =
      entry "sgnr" (s.authAddress.bind addressField.slot) :=
    optional_eq addressField "sgnr" s.authAddress
  rw [wire, Transaction.wire_of_listed h, hsignature, hmultisig, hlogicSig, hauthAddress]
  simp only [names, slots, authorizationSlots, entriesOf_cons, entriesOf_nil, List.append_assoc,
    List.append_nil]
  rfl

theorem listed_of_encode {s : SignedTransaction} {b : Bytes} (h : s.encode = .ok b) :
    s.transaction.BoxesListed := by
  obtain ⟨fields, hfields, -⟩ := map_eq_ok.mp h
  obtain ⟨inner, hinner, -⟩ := bind_eq_ok.mp hfields
  exact Transaction.listed_of_wire hinner

theorem exists_encode {s : SignedTransaction} (h : s.transaction.BoxesListed) :
    ∃ b, s.encode = .ok b :=
  ⟨_, map_eq_ok.mpr ⟨_, wire_of_listed h, rfl⟩⟩

theorem entry?_of_lookup {fields : WireFields} (hnodup : (keys fields).Nodup) {key : String}
    {v : Value} (hv : fields.lookup key = some v) :
    entry? key (fields.map fun (key, v) => (.text key, v)) = some v := by
  rw [ entry?, ← List.head?_filter, Value.filter_of_lookup hnodup hv fun _ _ => rfl]
  rfl

theorem ofWire?_slots {s : SignedTransaction} (hsized : s.Sized) {fields : WireFields}
    (hnodup : (keys fields).Nodup)
    (hlookup : ["sig", "msig", "lsig", "sgnr"].map (fun name => fields.lookup name) =
      s.authorizationSlots.map (Option.map Value.sorted)) :
    Authorization.ofWire? (.ofFields fields) = some s.norm.toAuthorization := by
  have hfields : (Value.ofFields fields).fields? .all ["sig", "msig", "lsig", "sgnr"] =
      some (s.authorizationSlots.map (Option.map Value.sorted)) := by
    have hindex (name : String) :
        Value.fieldIndex? .all ["sig", "msig", "lsig", "sgnr"] (.text name) =
          some (["sig", "msig", "lsig", "sgnr"].idxOf? name) := rfl
    rw [Value.ofFields, Value.fields?,
      Value.fillSlots_text (by decide) hindex hnodup fun _ _ => rfl]
    simp only [Option.or_none, hlookup]
  have hlogicSig : Value.optional? LogicSig.ofWire?
      (((s.logicSig.map LogicSig.norm).bind logicSigField.slot).map Value.sorted) =
        some (s.logicSig.map LogicSig.norm) := by
    refine FieldCodec.optional?_slot_of_kept (f := logicSigField) (fun _ => rfl) fun l hl => ?_
    obtain ⟨l, hmem, rfl⟩ := Option.map_eq_some_iff.mp hl
    exact ⟨LogicSig.sized_norm (hsized.logicSig l hmem), l.norm_norm⟩
  have hauthAddress : Value.optional? addressOfWire?
      ((s.authAddress.bind addressField.slot).map Value.sorted) =
        some (s.authAddress.filter (!·.isZero)) :=
    addressField.optional?_slot fun _ _ => trivial
  rw [Authorization.ofWire?, hfields]
  simp only [authorizationSlots, List.map_cons, List.map_nil, Option.bind_eq_bind,
    Option.bind_some, signature?_slot, multisig?_slot hsized.multisig, hlogicSig, hauthAddress]
  rfl

theorem legible {s : SignedTransaction} (hsized : s.Sized) (hlisted : s.transaction.BoxesListed)
    {depth : Nat} (hdepth : 4 ≤ depth) :
    (Value.ofFields (entriesOf names s.slots)).sorted.Legible (depth + 1) := by
  refine Value.legible_sorted (by decide) rfl (by decide) (by decide) ?_
  simp only [slots, authorizationSlots, List.forall_mem_cons, List.not_mem_nil]
  refine ⟨?_, signatureField.slotLegible_bind (fun _ _ => trivial) (Nat.zero_le _),
    multisigField.slotLegible_bind hsized.multisig (show 3 ≤ depth by omega),
    logicSigField.slotLegible_bind ?_ hdepth,
    addressField.slotLegible_bind (fun _ _ => trivial) (Nat.zero_le _), nofun⟩
  · intro v hv
    obtain rfl := Option.some.inj hv
    obtain ⟨depth, rfl⟩ : ∃ d, depth = d + 1 := ⟨depth - 1, by omega⟩
    exact Transaction.legible_sortedWire hsized.transaction hlisted (by omega)
  · intro l hl
    obtain ⟨l, hmem, rfl⟩ := Option.map_eq_some_iff.mp hl
    exact ⟨LogicSig.sized_norm (hsized.logicSig l hmem), l.norm_norm⟩

theorem decode_of_encode {s : SignedTransaction} (hsized : s.Sized) {b : Bytes}
    (h : s.encode = .ok b) : decode b = .ok s.norm := by
  have hlisted := listed_of_encode h
  rw [encode, wire_of_listed hlisted] at h
  obtain rfl := Except.ok.inj h
  have hread := decode?_encode (legible hsized hlisted (by decide : 4 ≤ 1022))
  have hlen : names.length = s.slots.length := rfl
  obtain ⟨fields, hsorted, hnodup, -, hlookup⟩ := Value.exists_sorted_entriesOf (by decide) hlen
  obtain ⟨htxn, hauthorization⟩ := List.cons.inj hlookup
  have hinner : Transaction.decode s.transaction.sortedWire.encode = .ok s.transaction.norm :=
    (Transaction.decode_of_encodeRaw hsized.transaction
      (Transaction.encodeRaw_of_listed hlisted)).1
  have hentry : entry? "txn" (fields.map fun (key, v) => (.text key, v)) =
      some s.transaction.sortedWire :=
    entry?_of_lookup hnodup htxn
  have hauthorization := ofWire?_slots hsized hnodup hauthorization
  rw [Value.ofFields] at hauthorization
  rw [canonicalBytes, decode, hread, hsorted, Value.ofFields]
  simp only [hentry, hauthorization, hinner]
  rfl

end SignedTransaction

end AppLedger
