import AppLedger.Proofs.Msgpack.Record
import AppLedger.Proofs.Text.Order

/-! The keys of every map, at every depth, once it is in order. -/

namespace AppLedger.Msgpack.Value

/-- The keys of each map, at every depth, are texts, each before the next one in the order of their
bytes. -/
inductive Ascending : Value → Prop
  | array {items : List Value} (h : ∀ item ∈ items, Ascending item) : Ascending (.array items)
  | map {fields : List (String × Value)}
      (hkeys : (keys fields).Pairwise fun a b => (Bytes.ofText a).before (Bytes.ofText b))
      (h : ∀ e ∈ fields, Ascending e.2) : Ascending (ofFields fields)
  | leaf {v : Value} (harray : ∀ items, v ≠ .array items) (hmap : ∀ entries, v ≠ .map entries) :
      Ascending v

/-- Entries whose keys are in order, as are the maps in them. -/
structure InOrder (fields : List (String × Value)) : Prop where
  keys : fields.Pairwise fun e f => e.1 < f.1
  values : ∀ e ∈ fields, e.2.Ascending

theorem inOrder_nil : InOrder [] :=
  ⟨.nil, nofun⟩

theorem InOrder.ascending {fields : List (String × Value)} (h : InOrder fields) :
    (ofFields fields).Ascending :=
  .map (List.pairwise_map.mpr (h.keys.imp Bytes.before_ofText)) h.values

theorem mem_insertEntry {key : String} {v : Value} {fields : List (String × Value)}
    {e : String × Value} (h : e ∈ insertEntry key v fields) : e = (key, v) ∨ e ∈ fields := by
  induction fields with
  | nil => exact .inl (List.mem_singleton.mp h)
  | cons first fields ih =>
    rw [insertEntry] at h
    split at h
    · exact List.mem_cons.mp h
    · split at h
      · exact (List.mem_cons.mp h).imp_right (List.mem_cons_of_mem _)
      · rcases List.mem_cons.mp h with rfl | h
        · exact .inr List.mem_cons_self
        · exact (ih h).imp_right (List.mem_cons_of_mem _)

theorem pairwise_insertEntry {key : String} (v : Value) {fields : List (String × Value)}
    (h : fields.Pairwise fun e f => e.1 < f.1) :
    (insertEntry key v fields).Pairwise fun e f => e.1 < f.1 := by
  induction fields with
  | nil => exact List.pairwise_singleton _ _
  | cons first fields ih =>
    obtain ⟨k, w⟩ := first
    obtain ⟨hfirst, hrest⟩ := List.pairwise_cons.mp h
    rw [insertEntry]
    by_cases hlt : key < k
    · rw [if_pos hlt]
      refine List.pairwise_cons.mpr ⟨?_, h⟩
      exact List.forall_mem_cons.mpr ⟨hlt, fun e he => String.lt_trans hlt (hfirst e he)⟩
    · rw [if_neg hlt]
      by_cases heq : key = k
      · rw [if_pos heq]
        exact List.pairwise_cons.mpr ⟨heq ▸ hfirst, hrest⟩
      · rw [if_neg heq]
        have hbefore : k < key := by
          refine Decidable.not_not.mp fun hge => heq ?_
          exact String.le_antisymm (String.not_lt.mp hge) (String.not_lt.mp hlt)
        refine List.pairwise_cons.mpr ⟨fun e he => ?_, ih hrest⟩
        rcases mem_insertEntry he with rfl | he
        · exact hbefore
        · exact hfirst e he

theorem InOrder.insertEntry {fields : List (String × Value)} (h : InOrder fields) (key : String)
    {v : Value} (hv : v.Ascending) : InOrder (insertEntry key v fields) where
  keys := pairwise_insertEntry v h.keys
  values e he := by
    rcases mem_insertEntry he with rfl | he
    · exact hv
    · exact h.values e he

mutual

theorem ascending_sorted (v : Value) : v.sorted.Ascending := by
  cases v with
  | array items =>
    rw [sorted]
    exact .array (ascending_sortedItems items)
  | map entries =>
    rw [sorted]
    exact (inOrder_sortedEntries inOrder_nil entries).ascending
  | nil | bool | uint | sint | float | text | bytes | ext =>
    exact .leaf nofun nofun

theorem ascending_sortedItems (items : List Value) :
    ∀ item ∈ sortedItems items, item.Ascending := by
  cases items with
  | nil => exact nofun
  | cons item items =>
    rw [sortedItems, List.forall_mem_cons]
    exact ⟨ascending_sorted item, ascending_sortedItems items⟩

theorem inOrder_sortedEntries {done : List (String × Value)} (h : InOrder done)
    (entries : List (Value × Value)) : InOrder (sortedEntries done entries) := by
  cases entries with
  | nil => exact h
  | cons e entries =>
    obtain ⟨key, v⟩ := e
    cases key with
    | text key =>
      exact inOrder_sortedEntries (h.insertEntry key (ascending_sorted v)) entries
    | nil | bool | uint | sint | float | bytes | array | map | ext =>
      exact inOrder_sortedEntries h entries

end

end AppLedger.Msgpack.Value
