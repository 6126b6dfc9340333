import AppLedger.Proofs.Msgpack.Record

/-! Fields of records, which are left out when they are empty and read back otherwise. -/

namespace AppLedger.Msgpack

/-- How a field is written and read. Its values lie in at most `height` arrays and maps around one
another. -/
structure FieldCodec (α : Type) where
  empty : α → Bool
  value : α → Value
  read? : Value → Option α
  Fits : α → Prop
  height : Nat
  read?_value : ∀ a, Fits a → read? (value a).sorted = some a
  value_ne_nil : ∀ a, (value a).sorted ≠ .nil
  legible : ∀ a depth, Fits a → height ≤ depth → (value a).sorted.Legible depth

namespace FieldCodec

variable {α : Type}

def slot (f : FieldCodec α) (a : α) : Option Value :=
  if f.empty a then none else some (f.value a)

/-- What is left of an optional field. -/
def keep (f : FieldCodec α) (a : Option α) : Option α :=
  a.filter fun a => !f.empty a

theorem optional?_slot (f : FieldCodec α) {a : Option α} (h : ∀ b ∈ a, f.Fits b) :
    Value.optional? f.read? ((a.bind f.slot).map Value.sorted) = some (f.keep a) := by
  cases a with
  | none => rfl
  | some a =>
    have hread := f.read?_value a (h a rfl)
    have hnil := f.value_ne_nil a
    rw [Option.bind_some, slot, keep, Option.filter_some]
    by_cases hempty : f.empty a = true
    · simp only [hempty, if_true, Bool.not_true, Bool.false_eq_true, if_false]
      rfl
    · rw [Bool.not_eq_true] at hempty
      simp only [hempty, Bool.false_eq_true, if_false, Bool.not_false, if_true, Option.map_some]
      unfold Value.optional?
      split
      · next heq => simp at heq
      · next heq => exact absurd (Option.some.inj heq) hnil
      · next heq =>
        obtain rfl := Option.some.inj heq
        rw [hread]
        rfl

theorem withDefault?_slot (f : FieldCodec α) {default a : α}
    (hempty : f.empty a = true → a = default) (h : f.Fits a) :
    Value.withDefault? default f.read? ((f.slot a).map Value.sorted) = some a := by
  rw [slot]
  by_cases he : f.empty a = true
  · rw [if_pos he, hempty he]
    rfl
  · rw [if_neg he]
    exact f.read?_value a h

theorem slotLegible_slot (f : FieldCodec α) {a : α} (h : f.Fits a) {depth : Nat}
    (hdepth : f.height ≤ depth) : Value.SlotLegible depth (f.slot a) := by
  intro v hv
  rw [slot] at hv
  split at hv
  · simp at hv
  · obtain rfl := Option.some.inj hv
    exact f.legible a depth h hdepth

theorem slotLegible_bind (f : FieldCodec α) {a : Option α} (h : ∀ b ∈ a, f.Fits b) {depth : Nat}
    (hdepth : f.height ≤ depth) : Value.SlotLegible depth (a.bind f.slot) := by
  cases a with
  | none => exact nofun
  | some a => exact f.slotLegible_slot (h a rfl) hdepth

def number : FieldCodec UInt64 where
  empty n := n == 0
  value n := .ofNat n.toNat
  read? := Value.uint64?
  Fits _ := True
  height := 0
  read?_value n _ := by
    simp [Value.ofNat, Value.sorted, Value.uint64?, Value.natBelow?, n.toNat_lt]
  value_ne_nil _ := nofun
  legible n _ _ _ := .number n.toNat_lt

def text : FieldCodec String where
  empty s := s.isEmpty
  value := .text
  read? := Value.text?
  Fits s := s.utf8ByteSize < UInt32.size
  height := 0
  read?_value _ _ := rfl
  value_ne_nil _ := nofun
  legible _ _ h _ := .text h

def bytes : FieldCodec Bytes where
  empty b := b.isEmpty
  value := .bytes
  read? := Value.bytes?
  Fits b := b.length < UInt32.size
  height := 0
  read?_value _ _ := rfl
  value_ne_nil _ := nofun
  legible _ _ h _ := .bytes h

/-- Byte strings of a length below 2^32. -/
def fixed (size : Nat) (hsize : size < UInt32.size) : FieldCodec (FixedBytes size) where
  empty b := b.isZero
  value b := .bytes b.bytes
  read? := Value.fixedBytes? size
  Fits _ := True
  height := 0
  read?_value b _ := FixedBytes.ofBytes?_bytes b
  value_ne_nil _ := nofun
  legible b _ _ _ := .bytes (by rwa [b.length_bytes])

theorem uint64?_eq : Value.uint64? = number.read? := rfl

theorem text?_eq : Value.text? = text.read? := rfl

theorem bytes?_eq : Value.bytes? = bytes.read? := rfl

theorem mapM_map_eq_some {β : Type} {f : β → Option α} {g : α → β} {as : List α}
    (h : ∀ a ∈ as, f (g a) = some a) : (as.map g).mapM f = some as := by
  induction as with
  | nil => rfl
  | cons a as ih =>
    rw [List.map_cons, List.mapM_cons, h a (by simp), ih fun b hb => h b (by simp [hb])]
    rfl

/-- Lists of what another field holds, empty values included. -/
def list (item : FieldCodec α) : FieldCodec (List α) where
  empty as := as.isEmpty
  value as := .array (as.map item.value)
  read? := Value.list? item.read?
  Fits as := as.length < UInt32.size ∧ ∀ a ∈ as, item.Fits a
  height := item.height + 1
  read?_value as h := by
    rw [Value.sorted, Value.sortedItems_eq_map, List.map_map]
    exact mapM_map_eq_some fun a ha => item.read?_value a (h.2 a ha)
  value_ne_nil _ := nofun
  legible as depth h hdepth := by
    obtain ⟨depth, rfl⟩ : ∃ d, depth = d + 1 := ⟨depth - 1, by omega⟩
    rw [Value.sorted, Value.sortedItems_eq_map, List.map_map]
    refine .array (by rw [List.length_map]; exact h.1) fun v hv => ?_
    obtain ⟨a, ha, rfl⟩ := List.mem_map.mp hv
    exact item.legible a depth (h.2 a ha) (by omega)

theorem list?_eq (item : FieldCodec α) : Value.list? item.read? = (list item).read? := rfl

end FieldCodec

end AppLedger.Msgpack
