/-! Finite maps as lists of entries, in the order in which the keys first came. -/

namespace AppLedger

/-- No two entries have one key. -/
structure Table (κ ν : Type) where
  entries : List (κ × ν)
  nodup : (entries.map Prod.fst).Nodup

namespace Table

variable {κ ν : Type} [DecidableEq κ]

def lookup? (k : κ) : List (κ × ν) → Option ν
  | [] => none
  | (k', v) :: rest => if k' = k then some v else lookup? k rest

def putEntry (k : κ) (v : ν) : List (κ × ν) → List (κ × ν)
  | [] => [(k, v)]
  | (k', v') :: rest => if k' = k then (k, v) :: rest else (k', v') :: putEntry k v rest

theorem mem_keys_putEntry {k k' : κ} {v : ν} {entries : List (κ × ν)} :
    k' ∈ (putEntry k v entries).map Prod.fst ↔ k' = k ∨ k' ∈ entries.map Prod.fst := by
  induction entries with
  | nil => simp [putEntry]
  | cons e rest ih =>
    rw [putEntry]
    split
    · next h => simp [h]
    · simp only [List.map_cons, List.mem_cons, ih]
      exact or_left_comm

theorem nodup_putEntry {k : κ} {v : ν} {entries : List (κ × ν)}
    (h : (entries.map Prod.fst).Nodup) : ((putEntry k v entries).map Prod.fst).Nodup := by
  induction entries with
  | nil => simp [putEntry]
  | cons e rest ih =>
    simp only [List.map_cons, List.nodup_cons] at h
    rw [putEntry]
    split
    · next hk => subst hk; simpa using h
    · next hk =>
      simp only [List.map_cons, List.nodup_cons, mem_keys_putEntry, not_or]
      exact ⟨⟨hk, h.1⟩, ih h.2⟩

def empty : Table κ ν := ⟨[], .nil⟩

instance : Inhabited (Table κ ν) := ⟨empty⟩

def get? (t : Table κ ν) (k : κ) : Option ν :=
  lookup? k t.entries

def contains (t : Table κ ν) (k : κ) : Bool :=
  (t.get? k).isSome

def put (t : Table κ ν) (k : κ) (v : ν) : Table κ ν :=
  ⟨putEntry k v t.entries, nodup_putEntry t.nodup⟩

def erase (t : Table κ ν) (k : κ) : Table κ ν :=
  ⟨t.entries.filter (·.1 ≠ k), (List.filter_sublist.map Prod.fst).nodup t.nodup⟩

/-- How many entries there are of a kind. -/
def count (t : Table κ ν) (p : κ → ν → Bool) : Nat :=
  t.entries.countP fun e => p e.1 e.2

theorem lookup?_putEntry {k k' : κ} {v : ν} {entries : List (κ × ν)} :
    lookup? k' (putEntry k v entries) = if k = k' then some v else lookup? k' entries := by
  induction entries with
  | nil => simp [putEntry, lookup?]
  | cons e rest ih =>
    rw [putEntry]
    split <;> grind [lookup?]

theorem lookup?_filter {k k' : κ} {entries : List (κ × ν)} :
    lookup? k' (entries.filter (·.1 ≠ k)) = if k = k' then none else lookup? k' entries := by
  induction entries with
  | nil => simp [lookup?]
  | cons e rest ih =>
    rw [List.filter_cons]
    split <;> grind [lookup?]

@[simp] theorem get?_empty (k : κ) : (empty : Table κ ν).get? k = none := rfl

theorem get?_put (t : Table κ ν) (k k' : κ) (v : ν) :
    (t.put k v).get? k' = if k = k' then some v else t.get? k' :=
  lookup?_putEntry

theorem get?_erase (t : Table κ ν) (k k' : κ) :
    (t.erase k).get? k' = if k = k' then none else t.get? k' :=
  lookup?_filter

theorem get?_put_self (t : Table κ ν) (k : κ) (v : ν) : (t.put k v).get? k = some v :=
  (get?_put t k k v).trans (if_pos rfl)

theorem get?_erase_self (t : Table κ ν) (k : κ) : (t.erase k).get? k = none :=
  (get?_erase t k k).trans (if_pos rfl)

theorem get?_put_congr (t t' : Table κ ν) (k : κ) (v : ν) :
    (t.put k v).get? k = (t'.put k v).get? k :=
  (get?_put_self t k v).trans (get?_put_self t' k v).symm

theorem get?_erase_congr (t t' : Table κ ν) (k : κ) : (t.erase k).get? k = (t'.erase k).get? k :=
  (get?_erase_self t k).trans (get?_erase_self t' k).symm

theorem get?_put_of_ne (t : Table κ ν) {k k' : κ} (v : ν) (h : k ≠ k') :
    (t.put k v).get? k' = t.get? k' :=
  (get?_put t k k' v).trans (if_neg h)

theorem get?_erase_of_ne (t : Table κ ν) {k k' : κ} (h : k ≠ k') :
    (t.erase k).get? k' = t.get? k' :=
  (get?_erase t k k').trans (if_neg h)

end Table

end AppLedger
