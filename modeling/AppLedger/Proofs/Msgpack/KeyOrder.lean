import AppLedger.Proofs.Msgpack.Field

/-! Whatever the order of the keys in its maps, a value comes back from its bytes, and a record is
read from it in the same way. -/

namespace AppLedger.Msgpack

namespace Value

/-- The keys of each map, at every depth, are different texts. -/
inductive Keyed : Value → Prop
  | array {items : List Value} (h : ∀ item ∈ items, Keyed item) : Keyed (.array items)
  | map {fields : List (String × Value)} (hkeys : (keys fields).Nodup)
      (h : ∀ e ∈ fields, Keyed e.2) : Keyed (ofFields fields)
  | leaf {v : Value} (harray : ∀ items, v ≠ .array items) (hmap : ∀ entries, v ≠ .map entries) :
      Keyed v

theorem keyed_ofNat (n : Nat) : Keyed (.ofNat n) :=
  .leaf nofun nofun

theorem keyed_text (s : String) : Keyed (.text s) :=
  .leaf nofun nofun

theorem keyed_bytes (b : Bytes) : Keyed (.bytes b) :=
  .leaf nofun nofun

theorem sorted_array (items : List Value) : (array items).sorted = .array (items.map sorted) := by
  rw [sorted, sortedItems_eq_map]

theorem sorted_leaf {v : Value} (harray : ∀ items, v ≠ .array items)
    (hmap : ∀ entries, v ≠ .map entries) : v.sorted = v := by
  cases v with
  | array items => exact absurd rfl (harray items)
  | map entries => exact absurd rfl (hmap entries)
  | nil | bool | uint | sint | float | text | bytes | ext => rfl

theorem legible_of_sorted {v : Value} (hv : v.Keyed) {depth : Nat} (h : v.sorted.Legible depth) :
    v.Legible depth := by
  induction hv generalizing depth with
  | @array items _ ih =>
    rw [sorted_array] at h
    cases h with
    | array hsize hitems =>
      rw [List.length_map] at hsize
      exact .array hsize fun item hitem => ih item hitem (hitems _ (List.mem_map_of_mem hitem))
  | @map fields hkeys _ ih =>
    obtain ⟨entries, hsorted, hperm⟩ := sorted_ofFields hkeys
    have hmem (e : String × Value) (he : e ∈ fields) : (e.1, e.2.sorted) ∈ entries :=
      hperm.mem_iff.mpr (List.mem_map_of_mem he)
    have hlen : entries.length = fields.length := by rw [hperm.length_eq, List.length_map]
    rw [hsorted, ofFields] at h
    cases h with
    | map hsize hnames hvalues =>
      rw [List.length_map, hlen] at hsize
      refine .map (by rwa [List.length_map]) ?_ ?_
      · intro e he
        obtain ⟨field, hfield, rfl⟩ := List.mem_map.mp he
        exact hnames (.text field.1, field.2.sorted)
          (List.mem_map.mpr ⟨_, hmem field hfield, rfl⟩)
      · intro e he
        obtain ⟨field, hfield, rfl⟩ := List.mem_map.mp he
        exact ih field hfield (hvalues (.text field.1, field.2.sorted)
          (List.mem_map.mpr ⟨_, hmem field hfield, rfl⟩))
  | leaf harray hmap => rwa [sorted_leaf harray hmap] at h

/-! ## Readers -/

/-- What is read does not depend on the order of the keys. -/
def Blind {α : Type} (read : Value → α) : Prop :=
  ∀ ⦃v : Value⦄, v.Keyed → read v.sorted = read v

section Readers

variable {α : Type}

theorem blind_of {read : Value → α}
    (harray : ∀ items : List Value, (∀ item ∈ items, item.Keyed) →
      read (.array (items.map sorted)) = read (.array items))
    (hmap : ∀ fields entries : List (String × Value), (keys fields).Nodup →
      (∀ e ∈ fields, e.2.Keyed) → entries.Perm (fields.map (Prod.map id sorted)) →
      read (ofFields entries) = read (ofFields fields)) : Blind read := by
  intro v hv
  cases hv with
  | @array items hitems =>
    rw [sorted_array]
    exact harray items hitems
  | @map fields hkeys hvalues =>
    obtain ⟨entries, hsorted, hperm⟩ := sorted_ofFields hkeys
    rw [hsorted]
    exact hmap fields entries hkeys hvalues hperm
  | leaf harray hmap => rw [sorted_leaf harray hmap]

/-- A reader that takes all arrays for one and all maps for one. -/
theorem blind_of_flat {read : Value → α}
    (harray : ∀ items items', read (.array items) = read (.array items'))
    (hmap : ∀ entries entries', read (.map entries) = read (.map entries')) : Blind read :=
  blind_of (fun _ _ => harray _ _) fun _ _ _ _ _ => hmap _ _

theorem blind_natBelow? (bound : Nat) : Blind (natBelow? bound) :=
  blind_of_flat (fun _ _ => rfl) fun _ _ => rfl

theorem blind_uint64? : Blind uint64? :=
  blind_of_flat (fun _ _ => rfl) fun _ _ => rfl

theorem blind_uint8? : Blind uint8? :=
  blind_of_flat (fun _ _ => rfl) fun _ _ => rfl

theorem blind_text? : Blind text? :=
  blind_of_flat (fun _ _ => rfl) fun _ _ => rfl

theorem mapM_sorted {item? : Value → Option α} (hitem : Blind item?) {items : List Value}
    (h : ∀ item ∈ items, item.Keyed) : (items.map sorted).mapM item? = items.mapM item? := by
  induction items with
  | nil => rfl
  | cons item items ih =>
    rw [List.forall_mem_cons] at h
    rw [List.map_cons, List.mapM_cons, List.mapM_cons, hitem h.1, ih h.2]

theorem blind_bytes? : Blind bytes? :=
  blind_of (fun _ h => mapM_sorted blind_uint8? h) fun _ _ _ _ _ => rfl

theorem blind_fixedBytes? (size : Nat) : Blind (fixedBytes? size) :=
  fun _ hv => congrArg (Option.bind · FixedBytes.ofBytes?) (blind_bytes? hv)

theorem blind_list? {item? : Value → Option α} (hitem : Blind item?) : Blind (list? item?) :=
  blind_of (fun _ h => mapM_sorted hitem h) fun _ _ _ _ _ => rfl

theorem blind_listOrBytes? {item? : Value → Option α} (hitem : Blind item?) :
    Blind (listOrBytes? item?) :=
  blind_of (fun _ h => mapM_sorted hitem h) fun _ _ _ _ _ => rfl

/-- What the slot holds has different texts as keys. -/
def SlotKeyed (slot : Option Value) : Prop :=
  ∀ v, slot = some v → v.Keyed

theorem Blind.optional? {read? : Value → Option α} (hread : Blind read?) {slot : Option Value}
    (hslot : SlotKeyed slot) :
    Value.optional? read? (slot.map sorted) = Value.optional? read? slot := by
  cases slot with
  | none => rfl
  | some v =>
    have hsame := congrArg (Option.map some) (hread (hslot v rfl))
    cases hslot v rfl with
    | array =>
      rw [sorted_array] at hsame
      rw [Option.map_some, sorted_array]
      exact hsame
    | map hkeys =>
      obtain ⟨entries, hsorted, -⟩ := sorted_ofFields hkeys
      rw [hsorted] at hsame
      rw [Option.map_some, hsorted]
      exact hsame
    | leaf harray hmap => rw [Option.map_some, sorted_leaf harray hmap]

theorem Blind.withDefault? {read? : Value → Option α} (hread : Blind read?) (default : α)
    {slot : Option Value} (hslot : SlotKeyed slot) :
    Value.withDefault? default read? (slot.map sorted) =
      Value.withDefault? default read? slot := by
  cases slot with
  | none => rfl
  | some v => exact hread (hslot v rfl)

end Readers

/-! ## Records -/

theorem lookup_map_sorted (fields : List (String × Value)) (key : String) :
    (fields.map (Prod.map id sorted)).lookup key = (fields.lookup key).map sorted := by
  induction fields with
  | nil => rfl
  | cons e fields ih =>
    obtain ⟨key', v⟩ := e
    rw [List.map_cons, Prod.map_apply, id, List.lookup_cons, List.lookup_cons, ih]
    cases key == key' <;> rfl

theorem keys_map_sorted (fields : List (String × Value)) :
    keys (fields.map (Prod.map id sorted)) = keys fields := by
  rw [keys, keys, List.map_map]
  rfl

theorem lookup_of_perm_sorted {fields entries : List (String × Value)} (hkeys : (keys fields).Nodup)
    (hperm : entries.Perm (fields.map (Prod.map id sorted))) (key : String) :
    entries.lookup key = (fields.lookup key).map sorted := by
  have hnodup : (keys entries).Nodup := by rwa [nodup_keys_of_perm hperm, keys_map_sorted]
  rw [lookup_of_perm hperm hnodup, lookup_map_sorted]

theorem slotKeyed_lookup {fields : List (String × Value)} (hkeys : (keys fields).Nodup)
    (h : ∀ e ∈ fields, e.2.Keyed) (key : String) : SlotKeyed (fields.lookup key) :=
  fun _ hv => h _ ((lookup_eq_some_iff_mem hkeys).mp hv)

section Records

variable {α : Type} {names : List String} {read : List (Option Value) → Option α}

/-- What is read from slots does not depend on the order of the keys in them. -/
def SlotsBlind (read : List (Option Value) → Option α) : Prop :=
  ∀ slots, (∀ slot ∈ slots, SlotKeyed slot) → read (slots.map (Option.map sorted)) = read slots

/-- The slots that entries with text keys are put into. -/
theorem fillSlots_ofFields {index : Value → Option (Option Nat)} (hnames : names.Nodup)
    (hindex : ∀ s, index (.text s) = some (names.idxOf? s)) {fields : List (String × Value)}
    (hkeys : (keys fields).Nodup) :
    fillSlots index (names.map fun _ => none) (fields.map fun (key, v) => (.text key, v)) =
      some (names.map fun name => fields.lookup name) := by
  rw [fillSlots_text hnames hindex hkeys fun _ _ => rfl]
  simp only [Option.or_none]

theorem SlotsBlind.fillSlots (hread : SlotsBlind read) {index : Value → Option (Option Nat)}
    (hnames : names.Nodup) (hindex : ∀ s, index (.text s) = some (names.idxOf? s))
    {fields entries : List (String × Value)} (hkeys : (keys fields).Nodup)
    (hvalues : ∀ e ∈ fields, e.2.Keyed) (hperm : entries.Perm (fields.map (Prod.map id sorted))) :
    (fillSlots index (names.map fun _ => none)
        (entries.map fun (key, v) => (.text key, v))).bind read =
      (fillSlots index (names.map fun _ => none)
        (fields.map fun (key, v) => (.text key, v))).bind read := by
  have hnodup : (keys entries).Nodup := by rwa [nodup_keys_of_perm hperm, keys_map_sorted]
  have hslots : names.map (fun name => entries.lookup name) =
      (names.map fun name => fields.lookup name).map (Option.map sorted) := by
    rw [List.map_map]
    exact List.map_congr_left fun name _ => lookup_of_perm_sorted hkeys hperm name
  rw [fillSlots_ofFields hnames hindex hnodup, fillSlots_ofFields hnames hindex hkeys,
    Option.bind_some, Option.bind_some, hslots]
  refine hread _ fun slot hslot => ?_
  obtain ⟨name, -, rfl⟩ := List.mem_map.mp hslot
  exact slotKeyed_lookup hkeys hvalues name

theorem SlotsBlind.fields? (hread : SlotsBlind read) (widths : KeyWidths) (hnames : names.Nodup) :
    Blind fun v => (v.fields? widths names).bind read := by
  refine blind_of (fun items hitems => ?_) fun fields entries hkeys hvalues hperm => ?_
  · simp only [Value.fields?, List.length_map]
    split
    · have hslots : (items.map sorted).map some ++
          List.replicate (names.length - items.length) none =
            (items.map some ++ List.replicate (names.length - items.length) none).map
              (Option.map sorted) := by
        simp [List.map_append, List.map_map, Function.comp_def]
      rw [Option.bind_some, Option.bind_some, hslots]
      refine hread _ fun slot hslot v hv => ?_
      subst hv
      rcases List.mem_append.mp hslot with hmem | hmem
      · obtain ⟨item, hitem, heq⟩ := List.mem_map.mp hmem
        exact Option.some.inj heq ▸ hitems item hitem
      · simp at hmem
    · rfl
  · exact hread.fillSlots hnames (fun _ => rfl) hkeys hvalues hperm

end Records

/-! ## Values that are written -/

theorem keyed_entriesOf {names : List String} {slots : List (Option Value)} (hnames : names.Nodup)
    (h : ∀ slot ∈ slots, SlotKeyed slot) : (ofFields (entriesOf names slots)).Keyed :=
  .map ((keys_entriesOf_sublist names slots).nodup hnames) fun _ he =>
    h _ (mem_of_mem_entriesOf he) _ rfl

theorem lookup_entriesOf {names : List String} {slots : List (Option Value)} {name : String}
    {slot : Option Value} (hnames : (name :: names).Nodup) (hlen : names.length = slots.length) :
    (entriesOf (name :: names) (slot :: slots)).lookup name = slot :=
  (List.cons.inj (map_lookup_entriesOf hnames (congrArg (· + 1) hlen))).1

theorem namedFields?_entriesOf {names : List String} {slots : List (Option Value)}
    (hnames : names.Nodup) (hlen : names.length = slots.length) :
    (ofFields (entriesOf names slots)).namedFields? names = some slots := by
  have hkeys := (keys_entriesOf_sublist names slots).nodup hnames
  rw [ofFields, namedFields?, fillSlots_ofFields hnames (fun _ => rfl) hkeys,
    map_lookup_entriesOf hnames hlen]

end Value

namespace FieldCodec

variable {α : Type}

/-- What is written has different texts as keys. -/
def Keyed (f : FieldCodec α) : Prop :=
  ∀ a, (f.value a).Keyed

theorem Keyed.slot {f : FieldCodec α} (hf : f.Keyed) (a : α) : Value.SlotKeyed (f.slot a) := by
  intro v hv
  rw [FieldCodec.slot] at hv
  split at hv
  · simp at hv
  · obtain rfl := Option.some.inj hv
    exact hf a

theorem Keyed.bind {f : FieldCodec α} (hf : f.Keyed) (a : Option α) :
    Value.SlotKeyed (a.bind f.slot) := by
  cases a with
  | none => exact fun _ hv => absurd hv (by simp)
  | some a => exact hf.slot a

theorem Keyed.list {f : FieldCodec α} (hf : f.Keyed) : (list f).Keyed := by
  intro as
  refine .array fun v hv => ?_
  obtain ⟨a, -, rfl⟩ := List.mem_map.mp hv
  exact hf a

theorem keyed_number : number.Keyed :=
  fun _ => Value.keyed_ofNat _

theorem keyed_text : text.Keyed :=
  Value.keyed_text

theorem keyed_bytes : bytes.Keyed :=
  Value.keyed_bytes

theorem keyed_fixed (size : Nat) (hsize : size < UInt32.size) : (fixed size hsize).Keyed :=
  fun _ => Value.keyed_bytes _

end FieldCodec

end AppLedger.Msgpack
