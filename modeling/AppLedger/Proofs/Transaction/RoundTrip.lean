import AppLedger.Proofs.Transaction.CallWire
import AppLedger.Transaction.Codec

/-! A transaction comes back from its bytes, up to what its map leaves out. -/

namespace AppLedger

open Msgpack

theorem exists_marker_of_map {depth : Nat} {entries : List (Value × Value)}
    (h : (Value.map entries).Legible depth) :
    ∃ m rest, (Value.map entries).encode = m :: rest ∧ 0x80 ≤ m.toNat := by
  have hsize : entries.length < UInt32.size := by
    cases h with
    | map hsize _ _ => exact hsize
  rw [Value.encode, mapHeader]
  by_cases hsmall : entries.length < 16
  · rw [if_pos hsmall]
    refine ⟨_, _, rfl, ?_⟩
    rw [toNat_marker (by omega)]
    omega
  · rw [if_neg hsmall, sized]
    by_cases h16 : entries.length < Width.bound .w16
    · rw [if_pos h16]
      exact ⟨_, _, rfl, by decide⟩
    · have h32 : entries.length < Width.bound .w32 := hsize
      rw [if_neg h16, sized, if_pos h32]
      exact ⟨_, _, rfl, by decide⟩

namespace Transaction

def kind : Transaction → Kind
  | .payment _ => .payment
  | .appCall _ => .appCall

namespace Kind

def wire : Kind → Value
  | .payment => .text "pay"
  | .appCall => .text "appl"

def names : Kind → List String
  | .payment => "type" :: (Header.wireNames ++ Payment.wireNames)
  | .appCall => "type" :: (Header.wireNames ++ AppCall.wireNames)

theorem nodup_names (k : Kind) : k.names.Nodup := by
  cases k <;> decide

theorem length_names_lt (k : Kind) : k.names.length < UInt32.size := by
  cases k <;> decide

theorem size_names_lt (k : Kind) : ∀ name ∈ k.names, name.utf8ByteSize < UInt32.size := by
  cases k <;> decide

theorem ofWire?_sorted (k : Kind) : ofWire? k.wire.sorted = some k := by
  cases k <;> rfl

theorem legible_sorted (k : Kind) (depth : Nat) : k.wire.sorted.Legible depth := by
  cases k <;> exact .text (by decide)

end Kind

def fieldSlots : Transaction → List (Option Value)
  | .payment p => p.header.slots ++ p.slots
  | .appCall c => c.header.slots ++ c.slots

def slots (t : Transaction) : List (Option Value) :=
  some t.kind.wire :: t.fieldSlots

theorem length_names (t : Transaction) : t.kind.names.length = t.slots.length := by
  cases t <;> rfl

theorem wire_of_listed {t : Transaction} (h : t.BoxesListed) :
    t.wire = .ok (entriesOf t.kind.names t.slots) := by
  cases t with
  | payment p =>
    rw [wire, p.wire_eq]
    rfl
  | appCall c =>
    rw [wire, AppCall.wire_of_listed h]
    rfl

theorem listed_of_wire {t : Transaction} {fields : WireFields} (h : t.wire = .ok fields) :
    t.BoxesListed := by
  cases t with
  | payment p => trivial
  | appCall c =>
    obtain ⟨fields, hfields, -⟩ := bind_eq_ok.mp h
    exact AppCall.listed_of_wire hfields

/-- The map of a transaction whose boxes are listed, with its keys in order. -/
def sortedWire (t : Transaction) : Value :=
  (Value.ofFields (entriesOf t.kind.names t.slots)).sorted

theorem encodeRaw_of_listed {t : Transaction} (h : t.BoxesListed) :
    t.encodeRaw = .ok t.sortedWire.encode := by
  rw [encodeRaw, wire_of_listed h]
  rfl

theorem listed_of_encodeRaw {t : Transaction} {b : Bytes} (h : t.encodeRaw = .ok b) :
    t.BoxesListed := by
  obtain ⟨fields, hfields, -⟩ := map_eq_ok.mp h
  exact listed_of_wire hfields

theorem legible_sortedWire {t : Transaction} (hsized : t.Sized) (hlisted : t.BoxesListed)
    {depth : Nat} (hdepth : 2 ≤ depth) : t.sortedWire.Legible (depth + 1) := by
  refine Value.legible_sorted t.kind.nodup_names t.length_names t.kind.length_names_lt
    t.kind.size_names_lt ?_
  rw [slots, List.forall_mem_cons]
  constructor
  · intro v hv
    obtain rfl := Option.some.inj hv
    exact t.kind.legible_sorted _
  · cases t with
    | payment p =>
      rw [fieldSlots, List.forall_mem_append]
      exact ⟨Header.slotLegible hsized _, p.slotLegible _⟩
    | appCall c =>
      rw [fieldSlots, List.forall_mem_append]
      exact ⟨Header.slotLegible hsized.header _, AppCall.slotLegible hsized hlisted hdepth⟩

theorem kindOfWire?_of_lookup {fields : WireFields} (hnodup : (keys fields).Nodup) {v : Value}
    (hv : fields.lookup "type" = some v) : kindOfWire? (.ofFields fields) = Kind.ofWire? v := by
  rw [Value.ofFields, kindOfWire?, Value.filter_of_lookup hnodup hv]
  exact fun _ _ => rfl

theorem kindOfWire?_sortedWire (t : Transaction) : kindOfWire? t.sortedWire = some t.kind := by
  obtain ⟨fields, hsorted, hnodup, -, hlookup⟩ :=
    Value.exists_sorted_entriesOf t.kind.nodup_names t.length_names
  have htype : fields.lookup "type" = some t.kind.wire.sorted := by
    cases t <;> exact (List.cons.inj hlookup).1
  rw [sortedWire, hsorted, kindOfWire?_of_lookup hnodup htype, t.kind.ofWire?_sorted]

/-- The header is read from the fields that follow the type, and the fields of its own after it. -/
theorem splitFields?_sortedWire {t : Transaction} {header : Header} {own : List String}
    {ownSlots : List (Option Value)} (hnames : t.kind.names = "type" :: (Header.wireNames ++ own))
    (hslots : t.fieldSlots = header.slots ++ ownSlots) (hsized : header.Sized) :
    splitFields? own t.sortedWire =
      some (header.norm, ownSlots.map (Option.map Value.sorted)) := by
  have hfields := Value.namedFields?_sorted t.kind.nodup_names t.length_names
  rw [slots, hslots, hnames] at hfields
  rw [splitFields?, sortedWire, slots, hslots, hnames, hfields]
  exact congrArg (Option.bind · fun header => some (header, _)) (Header.ofWire?_slots _ hsized)

theorem ofWire_sortedWire {t : Transaction} (hsized : t.Sized) (hlisted : t.BoxesListed) :
    ofWire t.sortedWire = .ok t.norm := by
  cases t with
  | payment p =>
    rw [ofWire, kindOfWire?_sortedWire, kind]
    have hsplit := splitFields?_sortedWire (t := payment p) rfl rfl hsized
    simp only [hsplit, Option.bind_some, p.ofWire?_slots]
    rfl
  | appCall c =>
    rw [ofWire, kindOfWire?_sortedWire, kind]
    have hsplit := splitFields?_sortedWire (t := appCall c) rfl rfl hsized.header
    simp only [hsplit, Option.bind_some, AppCall.ofWire?_slots hsized hlisted,
      AppCall.withBoxes_places hlisted]
    rfl

/-- A map does not start as the tag does. -/
theorem encode_map_untagged {entries : List (Value × Value)} {depth : Nat}
    (h : (Value.map entries).Legible depth) :
    (Value.map entries).encode ≠ [] ∧ tag.isPrefixOf (Value.map entries).encode = false := by
  obtain ⟨m, rest, hencode, hm⟩ := exists_marker_of_map h
  have htag : tag = [84, 88] := rfl
  have hne : ((84 : UInt8) == m) = false := by
    refine beq_false_of_ne fun heq => ?_
    subst heq
    exact absurd hm (by decide)
  rw [hencode, htag, List.isPrefixOf_cons_cons, hne]
  exact ⟨List.cons_ne_nil _ _, Bool.false_and _⟩

theorem encode_sortedWire_untagged {t : Transaction} (hsized : t.Sized)
    (hlisted : t.BoxesListed) :
    t.sortedWire.encode ≠ [] ∧ tag.isPrefixOf t.sortedWire.encode = false := by
  have hlegible := legible_sortedWire hsized hlisted (Nat.le_refl 2)
  obtain ⟨fields, hsorted, -⟩ := Value.exists_sorted_entriesOf t.kind.nodup_names t.length_names
  rw [sortedWire, hsorted] at hlegible ⊢
  exact encode_map_untagged hlegible

theorem decode_untagged {b : Bytes} {v : Value} (hne : b ≠ []) (htag : tag.isPrefixOf b = false)
    (hv : decode? b = some v) : decode b = ofWire v := by
  rw [decode, if_neg (by rwa [List.isEmpty_iff])]
  simp only [htag, Bool.false_eq_true, if_false, hv]

theorem decode_tagged {b : Bytes} {v : Value} (hv : decode? b = some v) :
    decode (tag ++ b) = ofWire v := by
  have htagged : tag.isPrefixOf (tag ++ b) = true :=
    List.isPrefixOf_iff_prefix.mpr (List.prefix_append tag b)
  have hne : ¬ (tag ++ b).isEmpty = true := by
    rw [List.isEmpty_iff]
    exact List.append_ne_nil_of_left_ne_nil (by decide) b
  rw [decode, if_neg hne]
  simp only [htagged, if_true, List.drop_left, hv]

theorem decode?_sortedWire {t : Transaction} (hsized : t.Sized) (hlisted : t.BoxesListed) :
    decode? t.sortedWire.encode = some t.sortedWire :=
  decode?_encode (legible_sortedWire hsized hlisted (by decide : 2 ≤ 1022))

theorem decode_of_encodeRaw {t : Transaction} (hsized : t.Sized) {b : Bytes}
    (h : t.encodeRaw = .ok b) : decode b = .ok t.norm ∧ decode (tag ++ b) = .ok t.norm := by
  have hlisted := listed_of_encodeRaw h
  rw [encodeRaw_of_listed hlisted] at h
  obtain rfl := Except.ok.inj h
  have hread := decode?_sortedWire hsized hlisted
  obtain ⟨hne, htag⟩ := encode_sortedWire_untagged hsized hlisted
  rw [decode_untagged hne htag hread, decode_tagged hread, ofWire_sortedWire hsized hlisted]
  exact ⟨rfl, rfl⟩

theorem listed_of_encode {t : Transaction} {b : Bytes} (h : t.encode = .ok b) : t.BoxesListed := by
  obtain ⟨raw, hraw, -⟩ := map_eq_ok.mp h
  exact listed_of_encodeRaw hraw

theorem encode_of_listed {t : Transaction} (h : t.BoxesListed) :
    t.encode = .ok (tag ++ t.sortedWire.encode) :=
  map_eq_ok.mpr ⟨_, encodeRaw_of_listed h, rfl⟩

theorem exists_encode {t : Transaction} (h : t.BoxesListed) : ∃ b, t.encode = .ok b :=
  ⟨_, encode_of_listed h⟩

theorem id_of_encode {t : Transaction} {b : Bytes} (h : t.encode = .ok b) :
    t.id = .ok (idText (digest b)) := by
  rw [id, idRaw, h]
  rfl

theorem decode_of_encode {t : Transaction} (hsized : t.Sized) {b : Bytes} (h : t.encode = .ok b) :
    decode b = .ok t.norm := by
  obtain ⟨raw, hraw, rfl⟩ := map_eq_ok.mp h
  exact (decode_of_encodeRaw hsized hraw).2

theorem norm_eq_of_encode {t u : Transaction} (ht : t.Sized) (hu : u.Sized) {b : Bytes}
    (htb : t.encode = .ok b) (hub : u.encode = .ok b) : t.norm = u.norm := by
  have h := (decode_of_encode ht htb).symm.trans (decode_of_encode hu hub)
  exact Except.ok.inj h

end Transaction

end AppLedger
