import AppLedger.Proofs.Msgpack.Field
import AppLedger.Proofs.Outcome
import AppLedger.Proofs.Transaction.Normal
import AppLedger.Transaction.Wire

/-! The map of a transaction as slots under the names of its fields, and how those are read. -/

namespace AppLedger

open Msgpack

namespace Wire

/-- A slot under its name. -/
def entry (name : String) (slot : Option Value) : WireFields :=
  (slot.map (name, ·)).toList

theorem entriesOf_cons (name : String) (names : List String) (slot : Option Value)
    (slots : List (Option Value)) :
    entriesOf (name :: names) (slot :: slots) = entry name slot ++ entriesOf names slots := by
  cases slot <;> rfl

theorem entriesOf_nil (slots : List (Option Value)) : entriesOf [] slots = [] := rfl

theorem field_eq {α : Type} (f : FieldCodec α) (name : String) (a : α) :
    field name (f.empty a) (f.value a) = entry name (f.slot a) := by
  rw [field, entry, FieldCodec.slot]
  cases f.empty a <;> rfl

theorem optional_eq {α : Type} (f : FieldCodec α) (name : String) (a : Option α) :
    optional (fun a => field name (f.empty a) (f.value a)) a = entry name (a.bind f.slot) := by
  cases a with
  | none => rfl
  | some a => exact field_eq f name a

end Wire

open Wire

def digestField : FieldCodec Digest :=
  FieldCodec.fixed 32 (by decide)

def addressField : FieldCodec Address where
  empty a := a.isZero
  value a := .bytes a.key.bytes
  read? := addressOfWire?
  Fits _ := True
  height := 0
  read?_value a _ := congrArg (Option.map Address.mk) (FixedBytes.ofBytes?_bytes a.key)
  value_ne_nil _ := nofun
  legible a _ _ _ := .bytes (by rw [a.key.length_bytes]; decide)

theorem fixedBytes?_eq : Value.fixedBytes? 32 = digestField.read? := rfl

theorem addressOfWire?_eq : addressOfWire? = addressField.read? := rfl

theorem eq_zero_of_empty {a : Address} (h : addressField.empty a = true) : a = Address.zero :=
  congrArg Address.mk ((FixedBytes.isZero_iff _).mp h)

theorem eq_zero_of_number {n : UInt64} (h : FieldCodec.number.empty n = true) : n = 0 :=
  beq_iff_eq.mp h

namespace Header

def slots (h : Header) : List (Option Value) :=
  [addressField.slot h.sender, h.fee.bind FieldCodec.number.slot,
    FieldCodec.number.slot h.firstValid, FieldCodec.number.slot h.lastValid,
    h.genesisHash.bind digestField.slot, h.genesisId.bind FieldCodec.text.slot,
    h.note.bind FieldCodec.bytes.slot,
    h.rekeyTo.bind addressField.slot, h.lease.bind digestField.slot, h.group.bind digestField.slot]

theorem wire_eq (h : Header) : h.wire = entriesOf wireNames h.slots := by
  simp only [wireNames, slots, entriesOf_cons, entriesOf_nil, ← field_eq, ← optional_eq, wire,
    List.append_assoc, List.append_nil]
  rfl

theorem ofWire?_slots (h : Header) (hsized : h.Sized) :
    ofWire? (h.slots.map (Option.map Value.sorted)) = some h.norm := by
  simp only [slots, List.map_cons, List.map_nil, ofWire?, addressOfWire?_eq, fixedBytes?_eq,
    FieldCodec.uint64?_eq, FieldCodec.text?_eq, FieldCodec.bytes?_eq]
  rw [addressField.withDefault?_slot eq_zero_of_empty trivial,
    FieldCodec.number.optional?_slot fun _ _ => trivial,
    FieldCodec.number.withDefault?_slot eq_zero_of_number trivial,
    FieldCodec.number.withDefault?_slot eq_zero_of_number trivial,
    digestField.optional?_slot fun _ _ => trivial, FieldCodec.text.optional?_slot hsized.genesisId,
    FieldCodec.bytes.optional?_slot hsized.note, addressField.optional?_slot fun _ _ => trivial,
    digestField.optional?_slot fun _ _ => trivial, digestField.optional?_slot fun _ _ => trivial]
  rfl

theorem slotLegible {h : Header} (hsized : h.Sized) (depth : Nat) :
    ∀ slot ∈ h.slots, Value.SlotLegible depth slot := by
  simp only [slots, List.forall_mem_cons, List.not_mem_nil]
  exact ⟨addressField.slotLegible_slot trivial (Nat.zero_le _),
    FieldCodec.number.slotLegible_bind (fun _ _ => trivial) (Nat.zero_le _),
    FieldCodec.number.slotLegible_slot trivial (Nat.zero_le _),
    FieldCodec.number.slotLegible_slot trivial (Nat.zero_le _),
    digestField.slotLegible_bind (fun _ _ => trivial) (Nat.zero_le _),
    FieldCodec.text.slotLegible_bind hsized.genesisId (Nat.zero_le _),
    FieldCodec.bytes.slotLegible_bind hsized.note (Nat.zero_le _),
    addressField.slotLegible_bind (fun _ _ => trivial) (Nat.zero_le _),
    digestField.slotLegible_bind (fun _ _ => trivial) (Nat.zero_le _),
    digestField.slotLegible_bind (fun _ _ => trivial) (Nat.zero_le _), nofun⟩

end Header

namespace Payment

def slots (p : Payment) : List (Option Value) :=
  [addressField.slot p.receiver, FieldCodec.number.slot p.amount, p.closeTo.bind addressField.slot]

theorem wire_eq (p : Payment) :
    p.wire = entriesOf (Header.wireNames ++ wireNames) (p.header.slots ++ p.slots) := by
  rw [entriesOf_append rfl, ← Header.wire_eq]
  simp only [wireNames, slots, entriesOf_cons, entriesOf_nil, ← field_eq, ← optional_eq, wire,
    List.append_assoc, List.append_nil]
  rfl

theorem ofWire?_slots (p : Payment) :
    ofWire? p.header.norm (p.slots.map (Option.map Value.sorted)) = some p.norm := by
  simp only [slots, List.map_cons, List.map_nil, ofWire?, addressOfWire?_eq, FieldCodec.uint64?_eq]
  rw [addressField.withDefault?_slot eq_zero_of_empty trivial,
    FieldCodec.number.withDefault?_slot eq_zero_of_number trivial,
    addressField.optional?_slot fun _ _ => trivial]
  rfl

theorem slotLegible (p : Payment) (depth : Nat) :
    ∀ slot ∈ p.slots, Value.SlotLegible depth slot := by
  simp only [slots, List.forall_mem_cons, List.not_mem_nil]
  exact ⟨addressField.slotLegible_slot trivial (Nat.zero_le _),
    FieldCodec.number.slotLegible_slot trivial (Nat.zero_le _),
    addressField.slotLegible_bind (fun _ _ => trivial) (Nat.zero_le _), nofun⟩

end Payment

end AppLedger
