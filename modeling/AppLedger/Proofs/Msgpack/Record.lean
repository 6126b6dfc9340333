import AppLedger.Msgpack.Record
import AppLedger.Proofs.Msgpack.RoundTrip
import Mathlib.Data.List.Nodup

/-! The fields of a record are read from its map whatever the order of the entries. -/

namespace AppLedger.Msgpack

def keys (fields : List (String × Value)) : List String :=
  fields.map Prod.fst

theorem keys_cons (e : String × Value) (fields : List (String × Value)) :
    keys (e :: fields) = e.1 :: keys fields := rfl

theorem keys_append (as bs : List (String × Value)) : keys (as ++ bs) = keys as ++ keys bs :=
  List.map_append

theorem mem_keys {key : String} {v : Value} {fields : List (String × Value)}
    (h : (key, v) ∈ fields) : key ∈ keys fields :=
  List.mem_map_of_mem h

theorem nodup_keys_of_perm {as bs : List (String × Value)} (h : as.Perm bs) :
    (keys as).Nodup ↔ (keys bs).Nodup :=
  (h.map Prod.fst).nodup_iff

theorem lookup_eq_some_iff_mem {fields : List (String × Value)} (h : (keys fields).Nodup)
    {key : String} {v : Value} : fields.lookup key = some v ↔ (key, v) ∈ fields := by
  induction fields with
  | nil => simp
  | cons e fields ih =>
    obtain ⟨key', v'⟩ := e
    rw [keys_cons, List.nodup_cons] at h
    rw [List.lookup_cons, List.mem_cons, Prod.mk.injEq]
    by_cases hkey : key = key'
    · subst hkey
      have hnot : (key, v) ∉ fields := fun hmem => h.1 (mem_keys hmem)
      simp only [beq_self_eq_true, Option.some.injEq, true_and, hnot, or_false, eq_comm]
    · simp only [beq_false_of_ne hkey, ih h.2, hkey, false_and, false_or]

theorem lookup_of_perm {as bs : List (String × Value)} (h : as.Perm bs) (has : (keys as).Nodup)
    (key : String) : as.lookup key = bs.lookup key := by
  have hbs : (keys bs).Nodup := (nodup_keys_of_perm h).mp has
  refine Option.ext fun v => ?_
  rw [lookup_eq_some_iff_mem has, lookup_eq_some_iff_mem hbs, h.mem_iff]

theorem lookup_eq_none_of_not_mem {fields : List (String × Value)} {key : String}
    (h : key ∉ keys fields) : fields.lookup key = none := by
  rw [List.lookup_eq_none_iff]
  rintro ⟨key', v⟩ he
  refine bne_iff_ne.mpr fun hkey => h ?_
  rw [hkey]
  exact mem_keys he

/-! ## Maps with their keys in order -/

namespace Value

theorem perm_insertEntry {key : String} {v : Value} {fields : List (String × Value)}
    (h : key ∉ keys fields) : (insertEntry key v fields).Perm ((key, v) :: fields) := by
  induction fields with
  | nil => exact .refl _
  | cons e fields ih =>
    obtain ⟨key', v'⟩ := e
    rw [keys_cons, List.mem_cons, not_or] at h
    rw [insertEntry]
    split
    · exact .refl _
    · rw [if_neg h.1]
      exact ((ih h.2).cons _).trans (.swap ..)

theorem perm_sortedEntries {fields done : List (String × Value)}
    (h : (keys (fields ++ done)).Nodup) :
    (sortedEntries done (fields.map fun (key, v) => (.text key, v))).Perm
      (fields.map (Prod.map id sorted) ++ done) := by
  induction fields generalizing done with
  | nil => exact .refl _
  | cons e fields ih =>
    obtain ⟨key, v⟩ := e
    rw [List.cons_append, keys_cons, List.nodup_cons, keys_append, List.mem_append, not_or] at h
    have hinsert := perm_insertEntry (v := v.sorted) h.1.2
    have hmove : (fields.map (Prod.map id sorted) ++ (key, v.sorted) :: done).Perm
        ((key, v.sorted) :: (fields.map (Prod.map id sorted) ++ done)) := List.perm_middle
    have hnodup : (keys (fields ++ insertEntry key v.sorted done)).Nodup := by
      rw [nodup_keys_of_perm (hinsert.append_left fields), nodup_keys_of_perm List.perm_middle,
        keys_cons, List.nodup_cons, keys_append, List.mem_append]
      exact ⟨not_or.mpr h.1, h.2⟩
    exact (ih hnodup).trans ((hinsert.append_left _).trans hmove)

theorem sortedItems_eq_map (items : List Value) : sortedItems items = items.map sorted := by
  induction items with
  | nil => rfl
  | cons item items ih => rw [sortedItems, ih, List.map_cons]

theorem sorted_ofFields {fields : List (String × Value)} (h : (keys fields).Nodup) :
    ∃ entries, (ofFields fields).sorted = ofFields entries ∧
      entries.Perm (fields.map (Prod.map id sorted)) := by
  have hnil : (keys (fields ++ [])).Nodup := by rwa [List.append_nil]
  have hperm := perm_sortedEntries hnil
  rw [List.append_nil] at hperm
  refine ⟨_, ?_, hperm⟩
  rw [ofFields, sorted]

end Value

/-! ## Slots -/

/-- The entries under the names of the slots that are filled. -/
def entriesOf : List String → List (Option Value) → List (String × Value)
  | name :: names, some v :: slots => (name, v) :: entriesOf names slots
  | _ :: names, none :: slots => entriesOf names slots
  | _, _ => []

theorem entriesOf_append {names names' : List String} {slots slots' : List (Option Value)}
    (h : names.length = slots.length) :
    entriesOf (names ++ names') (slots ++ slots') =
      entriesOf names slots ++ entriesOf names' slots' := by
  induction names generalizing slots with
  | nil =>
    obtain rfl := List.length_eq_zero_iff.mp h.symm
    rfl
  | cons name names ih =>
    cases slots with
    | nil => simp at h
    | cons slot slots =>
      have hlen : names.length = slots.length := by simpa using h
      have htail := ih hlen
      cases slot with
      | none => exact htail
      | some v => exact congrArg ((name, v) :: ·) htail

theorem map_entriesOf (f : Value → Value) (names : List String) (slots : List (Option Value)) :
    (entriesOf names slots).map (Prod.map id f) = entriesOf names (slots.map (Option.map f)) := by
  induction names generalizing slots with
  | nil => rfl
  | cons name names ih =>
    cases slots with
    | nil => rfl
    | cons slot slots =>
      cases slot with
      | none => exact ih slots
      | some v => exact congrArg ((name, f v) :: ·) (ih slots)

theorem keys_entriesOf_sublist (names : List String) (slots : List (Option Value)) :
    (keys (entriesOf names slots)).Sublist names := by
  induction names generalizing slots with
  | nil => exact .refl _
  | cons name names ih =>
    cases slots with
    | nil => exact List.nil_sublist _
    | cons slot slots =>
      cases slot with
      | none => exact (ih slots).cons _
      | some v => exact (ih slots).cons_cons _

theorem mem_of_mem_entriesOf {names : List String} {slots : List (Option Value)} {key : String}
    {v : Value} (h : (key, v) ∈ entriesOf names slots) : some v ∈ slots := by
  induction names generalizing slots with
  | nil => simp [entriesOf] at h
  | cons name names ih =>
    cases slots with
    | nil => simp [entriesOf] at h
    | cons slot slots =>
      cases slot with
      | none => exact List.mem_cons_of_mem _ (ih h)
      | some w =>
        rcases List.mem_cons.mp h with heq | hmem
        · obtain ⟨-, rfl⟩ := Prod.mk.inj heq
          exact List.mem_cons_self
        · exact List.mem_cons_of_mem _ (ih hmem)

theorem map_lookup_entriesOf {names : List String} {slots : List (Option Value)}
    (hnames : names.Nodup) (h : names.length = slots.length) :
    names.map (fun name => (entriesOf names slots).lookup name) = slots := by
  induction names generalizing slots with
  | nil =>
    obtain rfl := List.length_eq_zero_iff.mp h.symm
    rfl
  | cons name names ih =>
    cases slots with
    | nil => simp at h
    | cons slot slots =>
      rw [List.nodup_cons] at hnames
      have hlen : names.length = slots.length := by simpa using h
      have hslots := ih hnames.2 hlen
      have hrest : (entriesOf names slots).lookup name = none :=
        lookup_eq_none_of_not_mem fun hmem =>
          hnames.1 ((keys_entriesOf_sublist names slots).subset hmem)
      cases slot with
      | none =>
        rw [List.map_cons, entriesOf, hrest, hslots]
      | some v =>
        have hother : ∀ name' ∈ names,
            ((name, v) :: entriesOf names slots).lookup name' =
              (entriesOf names slots).lookup name' := by
          intro name' hname'
          have hne : name' ≠ name := fun heq => hnames.1 (heq ▸ hname')
          rw [List.lookup_cons, beq_false_of_ne hne]
        rw [List.map_cons, entriesOf, List.map_congr_left hother, hslots, List.lookup_cons_self]

/-! ## Reading a map -/

namespace Value

theorem fillSlot_map {names : List String} (hnames : names.Nodup) {f : String → Option Value}
    {i : Nat} {key : String} (hi : names[i]? = some key) (hfree : f key = none) (v : Value) :
    fillSlot (names.map f) i v =
      some (names.map fun name => if name = key then some v else f name) := by
  induction names generalizing i with
  | nil => simp at hi
  | cons name names ih =>
    rw [List.nodup_cons] at hnames
    cases i with
    | zero =>
      obtain rfl : name = key := by simpa using hi
      have hother : ∀ name' ∈ names, f name' = if name' = name then some v else f name' := by
        intro name' hname'
        have hne : name' ≠ name := fun heq => hnames.1 (heq ▸ hname')
        rw [if_neg hne]
      rw [List.map_cons, hfree, fillSlot, List.map_cons, if_pos rfl, List.map_congr_left hother]
    | succ i =>
      rw [List.getElem?_cons_succ] at hi
      have hne : name ≠ key := fun heq => hnames.1 (heq ▸ List.mem_of_getElem? hi)
      rw [List.map_cons, fillSlot, ih hnames.2 hi, List.map_cons, if_neg hne]
      rfl

/-- Slots are filled by name. The order of the entries has no part in it. -/
theorem fillSlots_text {names : List String} (hnames : names.Nodup)
    {index : Value → Option (Option Nat)} (hindex : ∀ s, index (.text s) = some (names.idxOf? s))
    {fields : List (String × Value)} (hfields : (keys fields).Nodup) {f : String → Option Value}
    (hfree : ∀ key ∈ keys fields, f key = none) :
    fillSlots index (names.map f) (fields.map fun (key, v) => (.text key, v)) =
      some (names.map fun name => (fields.lookup name).or (f name)) := by
  induction fields generalizing f with
  | nil => simp [fillSlots]
  | cons e fields ih =>
    obtain ⟨key, v⟩ := e
    rw [keys_cons, List.nodup_cons] at hfields
    simp only [keys_cons, List.forall_mem_cons] at hfree
    simp only [List.map_cons, fillSlots, hindex]
    cases hi : names.idxOf? key with
    | none =>
      simp only [ih hfields.2 hfree.2]
      rw [List.idxOf?_eq_none_iff] at hi
      refine congrArg some (List.map_congr_left fun name hname => ?_)
      have hne : name ≠ key := fun heq => hi (heq ▸ hname)
      rw [List.lookup_cons, beq_false_of_ne hne]
    | some i =>
      have hget : names[i]? = some key := by
        obtain ⟨hlt, hget, -⟩ := List.idxOf?_eq_some_iff.mp hi
        rw [List.getElem?_eq_getElem hlt]
        simpa using hget
      have hfree' : ∀ key' ∈ keys fields, (if key' = key then some v else f key') = none := by
        intro key' hkey'
        have hne : key' ≠ key := fun heq => hfields.1 (heq ▸ hkey')
        rw [if_neg hne, hfree.2 key' hkey']
      simp only [fillSlot_map hnames hget hfree.1, Option.bind_some, ih hfields.2 hfree']
      refine congrArg some (List.map_congr_left fun name _ => ?_)
      rw [List.lookup_cons]
      by_cases hname : name = key
      · subst hname
        simp [lookup_eq_none_of_not_mem hfields.1]
      · simp [hname, beq_false_of_ne hname]

/-- Entries that are filled into slots come back from the map in which they are in order. -/
theorem exists_sorted_entriesOf {names : List String} {slots : List (Option Value)}
    (hnames : names.Nodup) (hlen : names.length = slots.length) :
    ∃ fields, (ofFields (entriesOf names slots)).sorted = ofFields fields ∧ (keys fields).Nodup ∧
      fields.Perm (entriesOf names (slots.map (Option.map sorted))) ∧
      names.map (fun name => fields.lookup name) = slots.map (Option.map sorted) := by
  obtain ⟨fields, hsorted, hperm⟩ :=
    sorted_ofFields ((keys_entriesOf_sublist names slots).nodup hnames)
  rw [map_entriesOf] at hperm
  have hnodup : (keys fields).Nodup :=
    (nodup_keys_of_perm hperm).mpr ((keys_entriesOf_sublist names _).nodup hnames)
  refine ⟨fields, hsorted, hnodup, hperm, ?_⟩
  simp only [lookup_of_perm hperm hnodup]
  exact map_lookup_entriesOf hnames (by rwa [List.length_map])

theorem fillSlots_sorted {names : List String} {slots : List (Option Value)}
    (hnames : names.Nodup) (hlen : names.length = slots.length)
    {index : Value → Option (Option Nat)} (hindex : ∀ s, index (.text s) = some (names.idxOf? s)) :
    ∃ entries, (ofFields (entriesOf names slots)).sorted = .map entries ∧
      fillSlots index (names.map fun _ => none) entries = some (slots.map (Option.map sorted)) := by
  obtain ⟨fields, hsorted, hnodup, -, hlookup⟩ := exists_sorted_entriesOf hnames hlen
  refine ⟨_, hsorted, ?_⟩
  rw [fillSlots_text hnames hindex hnodup fun _ _ => rfl]
  simp only [Option.or_none, hlookup]

theorem namedFields?_sorted {names : List String} {slots : List (Option Value)}
    (hnames : names.Nodup) (hlen : names.length = slots.length) :
    (ofFields (entriesOf names slots)).sorted.namedFields? names =
      some (slots.map (Option.map sorted)) := by
  have hindex : ∀ s, namedIndex? names (.text s) = some (names.idxOf? s) := fun _ => rfl
  obtain ⟨entries, hsorted, hfill⟩ := fillSlots_sorted hnames hlen hindex
  rw [hsorted, namedFields?, hfill]

theorem fields?_sorted (widths : KeyWidths) {names : List String} {slots : List (Option Value)}
    (hnames : names.Nodup) (hlen : names.length = slots.length) :
    (ofFields (entriesOf names slots)).sorted.fields? widths names =
      some (slots.map (Option.map sorted)) := by
  have hindex : ∀ s, fieldIndex? widths names (.text s) = some (names.idxOf? s) := fun _ => rfl
  obtain ⟨entries, hsorted, hfill⟩ := fillSlots_sorted hnames hlen hindex
  rw [hsorted, fields?, hfill]

/-- What the slot holds is legible once it is in order. -/
def SlotLegible (depth : Nat) (slot : Option Value) : Prop :=
  ∀ v, slot = some v → v.sorted.Legible depth

theorem legible_sorted {names : List String} {slots : List (Option Value)} {depth : Nat}
    (hnames : names.Nodup) (hlen : names.length = slots.length)
    (hcount : names.length < UInt32.size)
    (hsizes : ∀ name ∈ names, name.utf8ByteSize < UInt32.size)
    (h : ∀ slot ∈ slots, SlotLegible depth slot) :
    (ofFields (entriesOf names slots)).sorted.Legible (depth + 1) := by
  obtain ⟨fields, hsorted, -, hperm, -⟩ := exists_sorted_entriesOf hnames hlen
  rw [hsorted, ofFields]
  refine .map ?_ ?_ ?_
  · have hsub := (keys_entriesOf_sublist names (slots.map (Option.map sorted))).length_le
    rw [keys, List.length_map, ← hperm.length_eq] at hsub
    rw [List.length_map]
    exact Nat.lt_of_le_of_lt hsub hcount
  · intro e he
    obtain ⟨⟨key, v⟩, hmem, rfl⟩ := List.mem_map.mp he
    have hkey := mem_keys (hperm.mem_iff.mp hmem)
    exact .text (hsizes key ((keys_entriesOf_sublist names _).subset hkey))
  · intro e he
    obtain ⟨⟨key, v⟩, hmem, rfl⟩ := List.mem_map.mp he
    obtain ⟨slot, hslot, heq⟩ := List.mem_map.mp (mem_of_mem_entriesOf (hperm.mem_iff.mp hmem))
    obtain ⟨w, rfl, rfl⟩ := Option.map_eq_some_iff.mp heq
    exact h _ hslot w rfl

theorem filter_of_lookup {fields : List (String × Value)} (hnodup : (keys fields).Nodup)
    {key : String} {v : Value} (hv : fields.lookup key = some v) {p : Value × Value → Bool}
    (hp : ∀ s w, p (.text s, w) = decide (s = key)) :
    (fields.map fun (key, v) => (Value.text key, v)).filter p = [(.text key, v)] := by
  induction fields with
  | nil => simp at hv
  | cons e fields ih =>
    obtain ⟨key', v'⟩ := e
    rw [keys_cons, List.nodup_cons] at hnodup
    rw [List.map_cons, List.filter_cons, hp]
    by_cases hkey : key' = key
    · subst hkey
      rw [List.lookup_cons_self] at hv
      obtain rfl := Option.some.inj hv
      have hrest : ∀ e ∈ fields.map (fun (key, v) => (Value.text key, v)), ¬ p e = true := by
        intro e he
        obtain ⟨⟨key, w⟩, hmem, rfl⟩ := List.mem_map.mp he
        have hne : key ≠ key' := fun heq => hnodup.1 (heq ▸ mem_keys hmem)
        simp only [hp, hne, decide_false, Bool.false_eq_true, not_false_eq_true]
      simp only [decide_true, if_true, List.filter_eq_nil_iff.mpr hrest]
    · rw [List.lookup_cons, beq_false_of_ne (Ne.symm hkey)] at hv
      simp only [hkey, decide_false, Bool.false_eq_true, if_false]
      exact ih hnodup.2 hv

end Value

end AppLedger.Msgpack
