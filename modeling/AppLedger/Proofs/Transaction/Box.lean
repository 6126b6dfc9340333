import AppLedger.Proofs.Transaction.Wire

/-! Boxes on the wire: the place of the application among the references instead of its number. -/

namespace AppLedger

open Msgpack Wire

namespace BoxRef

def names : List String := ["i", "n"]

/-- A box with the place of its application, zero for the called application. -/
def slots (place : Nat) (name : Bytes) : List (Option Value) :=
  [if place == 0 then none else some (.ofNat place), some (.bytes name)]

theorem wire_eq (place : Nat) (name : Bytes) :
    wire place name = .ofFields (entriesOf names (slots place name)) := by
  rw [wire, field, slots]
  cases place == 0 <;> rfl

theorem ofWire?_sorted {place : Nat} (hplace : place < UInt64.size) (name : Bytes) :
    ofWire? (wire place name).sorted = some (place, name) := by
  have hfields : (wire place name).sorted.fields? .outer ["i", "n"] =
      some ((slots place name).map (Option.map Value.sorted)) := by
    rw [wire_eq]
    exact Value.fields?_sorted .outer (by decide) rfl
  rw [ofWire?, hfields]
  by_cases hzero : place = 0
  · subst hzero
    rfl
  · simp [slots, hzero, Value.ofNat, Value.sorted, Value.withDefault?, Value.natBelow?, hplace,
      Value.bytes?]

theorem legible {place : Nat} (hplace : place < UInt64.size) {name : Bytes}
    (hname : name.length < UInt32.size) (depth : Nat) :
    (wire place name).sorted.Legible (depth + 1) := by
  rw [wire_eq]
  refine Value.legible_sorted (by decide) rfl (by decide) (by decide) ?_
  simp only [slots, List.forall_mem_cons, List.not_mem_nil]
  refine ⟨?_, ?_, nofun⟩
  · intro v hv
    split at hv
    · simp at hv
    · obtain rfl := Option.some.inj hv
      exact .number hplace
  · intro v hv
    obtain rfl := Option.some.inj hv
    exact .bytes hname

end BoxRef

def boxField : FieldCodec (Nat × Bytes) where
  empty _ := false
  value box := BoxRef.wire box.1 box.2
  read? := BoxRef.ofWire?
  Fits box := box.1 < UInt64.size ∧ box.2.length < UInt32.size
  height := 1
  read?_value box h := BoxRef.ofWire?_sorted h.1 box.2
  value_ne_nil _ := nofun
  legible box depth h hdepth := by
    obtain ⟨depth, rfl⟩ : ∃ d, depth = d + 1 := ⟨depth - 1, by omega⟩
    exact BoxRef.legible h.1 h.2 depth

namespace BoxRef

/-- The place of the application of a box that is listed. -/
def place (app : UInt64) (references : List UInt64) (box : BoxRef) : Nat :=
  if box.app = 0 ∨ box.app = app then 0 else (references.idxOf? box.app).elim 0 (· + 1)

variable {app : UInt64} {references : List UInt64} {box : BoxRef}

theorem exists_reference (h : box.Listed app references) (hown : ¬(box.app = 0 ∨ box.app = app)) :
    ∃ i, references.idxOf? box.app = some i ∧ references[i]? = some box.app := by
  have hmem : box.app ∈ references := by
    rcases h with h | h | h
    · exact absurd (.inl h) hown
    · exact absurd (.inr h) hown
    · exact h
  obtain ⟨i, hi⟩ := Option.isSome_iff_exists.mp (List.isSome_idxOf?.mpr hmem)
  obtain ⟨hlt, hget, -⟩ := List.idxOf?_eq_some_iff.mp hi
  refine ⟨i, hi, ?_⟩
  rw [List.getElem?_eq_getElem hlt]
  exact congrArg some hget

theorem appIndex_of_listed (h : box.Listed app references) :
    box.appIndex app references = .ok (box.place app references) := by
  rw [appIndex, place]
  by_cases hown : box.app = 0 ∨ box.app = app
  · rw [if_pos hown, if_pos hown]
  · obtain ⟨i, hi, -⟩ := exists_reference h hown
    rw [if_neg hown, if_neg hown, hi]
    rfl

theorem listed_of_appIndex {i : Nat} (h : box.appIndex app references = .ok i) :
    box.Listed app references := by
  unfold appIndex at h
  split at h
  · next hown => exact hown.elim .inl fun h => .inr (.inl h)
  · split at h
    · next i hi =>
      have hsome : (references.idxOf? box.app).isSome := by rw [hi]; rfl
      exact .inr (.inr (List.isSome_idxOf?.mp hsome))
    · simp at h

theorem ofIndex_place (h : box.Listed app references) :
    ofIndex references (box.place app references) box.name = .ok (box.norm app) := by
  obtain ⟨id, name⟩ := box
  rw [place, norm]
  by_cases hown : id = 0 ∨ id = app
  · rw [if_pos hown, ofIndex]
    by_cases hid : id = app
    · rw [if_pos hid]
    · rw [if_neg hid, hown.resolve_right hid]
  · obtain ⟨i, hi, hget⟩ := exists_reference h hown
    rw [if_neg hown, if_neg fun hid => hown (.inr hid), hi]
    simp only [Option.elim_some, ofIndex, hget]

theorem place_lt (h : box.Listed app references) (hsize : references.length < UInt32.size) :
    box.place app references < UInt64.size := by
  have hbound : UInt32.size < UInt64.size := by decide
  rw [place]
  by_cases hown : box.app = 0 ∨ box.app = app
  · rw [if_pos hown]
    decide
  · obtain ⟨i, hi, hget⟩ := exists_reference h hown
    have hlt : i < references.length := (List.getElem?_eq_some_iff.mp hget).1
    rw [if_neg hown, hi, Option.elim_some]
    omega

end BoxRef

end AppLedger
