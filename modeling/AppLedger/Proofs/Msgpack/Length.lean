import AppLedger.Proofs.Msgpack.Record
import Mathlib.Tactic.SplitIfs

/-! The number of bytes that headers, numbers and maps with their keys in order take up. -/

namespace AppLedger.Msgpack

theorem length_uintBytes_le (n : Nat) : (uintBytes n).length ≤ 9 := by
  simp only [uintBytes, sized]
  split_ifs <;> simp [Width.bytes]

/-- A map of at least 16 entries needs two bytes more for their number. -/
theorem length_mapHeader {size : Nat} (h : size < UInt16.size) :
    (mapHeader size).length = if size < 16 then 1 else 3 := by
  have h16 : size < Width.bound .w16 := h
  simp only [mapHeader, sized, if_pos h16]
  split_ifs <;> simp [Width.bytes]

/-- The bytes of the entries of a map: of their names and of their values. -/
def entriesLength : List (String × Value) → Nat
  | [] => 0
  | (key, v) :: entries =>
    (Value.text key).encode.length + v.encode.length + entriesLength entries

theorem entriesLength_append (as bs : List (String × Value)) :
    entriesLength (as ++ bs) = entriesLength as + entriesLength bs := by
  induction as with
  | nil => rw [List.nil_append, entriesLength, Nat.zero_add]
  | cons a as ih =>
    obtain ⟨key, v⟩ := a
    rw [List.cons_append, entriesLength, entriesLength, ih, Nat.add_assoc _ (entriesLength as)]

theorem entriesLength_of_perm {as bs : List (String × Value)} (h : as.Perm bs) :
    entriesLength as = entriesLength bs := by
  induction h with
  | nil => rfl
  | cons a _ ih => rw [entriesLength, entriesLength, ih]
  | swap a b as =>
    simp only [entriesLength]
    omega
  | trans _ _ ih ih' => rw [ih, ih']

/-- The bytes of the fields, of which the values have their keys in order. -/
def fieldsLength (fields : List (String × Value)) : Nat :=
  entriesLength (fields.map (Prod.map id Value.sorted))

theorem fieldsLength_append (as bs : List (String × Value)) :
    fieldsLength (as ++ bs) = fieldsLength as + fieldsLength bs := by
  rw [fieldsLength, List.map_append, entriesLength_append]
  rfl

namespace Value

theorem length_encodeEntries (entries : List (String × Value)) :
    (encodeEntries (entries.map fun (key, v) => (.text key, v))).length =
      entriesLength entries := by
  induction entries with
  | nil => rfl
  | cons e entries ih =>
    obtain ⟨key, v⟩ := e
    rw [List.map_cons, encodeEntries, List.length_append, List.length_append, ih, entriesLength]

/-- The order of the entries has no part in the length. -/
theorem length_encode_sorted {fields : List (String × Value)} (h : (keys fields).Nodup) :
    (ofFields fields).sorted.encode.length =
      (mapHeader fields.length).length + fieldsLength fields := by
  obtain ⟨entries, hsorted, hperm⟩ := sorted_ofFields h
  have hcount : entries.length = fields.length := by rw [hperm.length_eq, List.length_map]
  rw [hsorted, ofFields, encode, List.length_append, length_encodeEntries, List.length_map, hcount,
    entriesLength_of_perm hperm]
  rfl

end Value

end AppLedger.Msgpack
