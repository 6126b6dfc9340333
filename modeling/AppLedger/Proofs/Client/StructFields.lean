import AppLedger.Client.Argument
import AppLedger.Proofs.Abi.Signature

/-! The fields of a struct, which are put into the order of its hint by their names, and the
arguments of a method, each of which is put into order by itself. -/

namespace AppLedger

open Abi (Value)

/-- The names of the fields in their order. -/
def StructHint.fieldNames (hint : StructHint) : List String :=
  hint.fields.map Prod.fst

theorem MethodHints.mem_structs {hints : MethodHints} {name : String} {hint : StructHint}
    (h : hints.struct? name = some hint) : (name, hint) ∈ hints.structs := by
  obtain ⟨entry, hentry, rfl⟩ := Option.map_eq_some_iff.mp h
  have hname := List.find?_some hentry
  obtain rfl := of_decide_eq_true hname
  exact List.mem_of_find?_eq_some hentry

/-! ## Fields by their names -/

section Fields

variable {given : List (String × Value)} {field other : String}

theorem lookup_eq_find? : given.lookup field = (given.find? (·.1 = field)).map Prod.snd := by
  induction given with
  | nil => rfl
  | cons first given ih =>
    obtain ⟨name, v⟩ := first
    by_cases hname : name = field
    · simp [hname]
    · have hne : (field == name) = false := beq_false_of_ne (Ne.symm hname)
      rw [List.lookup_cons, hne, ih]
      simp [hname]

theorem lookup_filter_ne (h : other ≠ field) :
    (given.filter (·.1 ≠ field)).lookup other = given.lookup other := by
  rw [lookup_eq_find?, lookup_eq_find?, List.find?_filter]
  refine congrArg (Option.map Prod.snd) (congrArg (List.find? · given) (funext fun g => ?_))
  by_cases hg : g.1 = other
  · simp [hg, h]
  · simp [hg]

theorem mem_keys_of_lookup {v : Value} (h : given.lookup field = some v) :
    field ∈ given.map Prod.fst := by
  obtain ⟨front, back, rfl, -⟩ := List.lookup_eq_some_iff.mp h
  simp

theorem exists_lookup_of_mem_keys (h : field ∈ given.map Prod.fst) :
    ∃ v, given.lookup field = some v := by
  obtain ⟨g, hg, rfl⟩ := List.mem_map.mp h
  exact Option.isSome_iff_exists.mp (List.lookup_isSome_iff.mpr ⟨g, hg, beq_self_eq_true _⟩)

end Fields

/-- The values are those that are given for the fields, in the order of the fields. -/
def Supplies (given : List (String × Value)) (fields : List (String × String))
    (values : List Value) : Prop :=
  List.Forall₂ (fun field v => given.lookup field.1 = some v) fields values

section Supplies

variable {given : List (String × Value)} {fields : List (String × String)} {values : List Value}
  {name : String}

theorem supplies_cons {field : String × String} {v : Value} :
    Supplies given (field :: fields) (v :: values) ↔
      given.lookup field.1 = some v ∧ Supplies given fields values :=
  List.forall₂_cons

theorem Supplies.mem_keys (h : Supplies given fields values) :
    ∀ field ∈ fields.map Prod.fst, field ∈ given.map Prod.fst := by
  rw [List.forall_mem_map]
  intro field hfield
  obtain ⟨v, -, hv⟩ := exists_of_mem_left h field hfield
  exact mem_keys_of_lookup hv

theorem exists_supplies (h : ∀ field ∈ fields.map Prod.fst, field ∈ given.map Prod.fst) :
    ∃ values, Supplies given fields values := by
  induction fields with
  | nil => exact ⟨[], .nil⟩
  | cons field fields ih =>
    rw [List.map_cons, List.forall_mem_cons] at h
    obtain ⟨v, hv⟩ := exists_lookup_of_mem_keys h.1
    obtain ⟨values, hvalues⟩ := ih h.2
    exact ⟨v :: values, supplies_cons.mpr ⟨hv, hvalues⟩⟩

theorem supplies_congr {given' : List (String × Value)}
    (h : ∀ field ∈ fields.map Prod.fst, given.lookup field = given'.lookup field) :
    Supplies given fields values ↔ Supplies given' fields values := by
  induction fields generalizing values with
  | nil => simp [Supplies]
  | cons field fields ih =>
    rw [List.map_cons, List.forall_mem_cons] at h
    cases values with
    | nil => simp [Supplies]
    | cons v values => rw [supplies_cons, supplies_cons, h.1, ih h.2]

/-- Fields with names of their own can be given any values. -/
theorem supplies_zip (hdistinct : (fields.map Prod.fst).Nodup)
    (hlength : values.length = fields.length) :
    Supplies ((fields.map Prod.fst).zip values) fields values := by
  induction fields generalizing values with
  | nil =>
    obtain rfl := List.length_eq_zero_iff.mp hlength
    exact .nil
  | cons field fields ih =>
    obtain ⟨hname, hdistinct⟩ := List.nodup_cons.mp hdistinct
    cases values with
    | nil => cases hlength
    | cons v values =>
      rw [List.map_cons, List.zip_cons_cons]
      refine supplies_cons.mpr ⟨List.lookup_cons_self, ?_⟩
      refine (supplies_congr fun other hother => ?_).mp (ih hdistinct (Nat.succ.inj hlength))
      rw [List.lookup_cons, beq_false_of_ne (ne_of_mem_of_not_mem hother hname)]

theorem supplies_filter_ne (hname : name ∉ fields.map Prod.fst) :
    Supplies (given.filter (·.1 ≠ name)) fields values ↔ Supplies given fields values :=
  supplies_congr fun _ hfield => lookup_filter_ne (ne_of_mem_of_not_mem hfield hname)

theorem not_mem_of_supplies_filter_ne (h : Supplies (given.filter (·.1 ≠ name)) fields values) :
    name ∉ fields.map Prod.fst := by
  intro hname
  obtain ⟨g, hg, rfl⟩ := List.mem_map.mp (h.mem_keys name hname)
  exact of_decide_eq_true (List.mem_filter.mp hg).2 rfl

end Supplies

namespace MethodArg

variable {missing : String → BadArgument} {fields : List (String × String)}
  {given unused : List (String × Value)} {values : List Value}

/-- Each value is used once, so that a name that comes twice is missing the second time. -/
theorem takeFields_eq_ok_iff :
    takeFields missing fields given = .ok (values, unused) ↔
      (fields.map Prod.fst).Nodup ∧ Supplies given fields values ∧
        unused = given.filter (·.1 ∉ fields.map Prod.fst) := by
  induction fields generalizing given values with
  | nil => simp [takeFields, Supplies, eq_comm]
  | cons field fields ih =>
    obtain ⟨name, type⟩ := field
    have hlookup : given.lookup name = (given.find? (·.1 = name)).map Prod.snd := lookup_eq_find?
    have hunused : (given.filter (·.1 ≠ name)).filter (·.1 ∉ fields.map Prod.fst) =
        given.filter (·.1 ∉ name :: fields.map Prod.fst) := by
      rw [List.filter_filter]
      refine List.filter_congr fun g _ => ?_
      by_cases hg : g.1 = name <;> simp [hg]
    rw [takeFields, List.map_cons, List.nodup_cons, ← hunused]
    cases hfind : given.find? (·.1 = name) with
    | none =>
      rw [hfind] at hlookup
      cases values <;> simp [Supplies, hlookup]
    | some found =>
      -- The value of the first field is taken away, so the rest is supplied by what is left.
      obtain ⟨key, v⟩ := found
      rw [hfind] at hlookup
      constructor
      · intro h
        obtain ⟨⟨rest, unused'⟩, hrest, h⟩ := bind_eq_ok.mp h
        obtain ⟨rfl, rfl⟩ := Prod.mk.inj (Except.ok.inj h)
        obtain ⟨hnodup, hsupplies, hunused'⟩ := ih.mp hrest
        have hname := not_mem_of_supplies_filter_ne hsupplies
        have hsupplies := (supplies_filter_ne hname).mp hsupplies
        exact ⟨⟨hname, hnodup⟩, supplies_cons.mpr ⟨hlookup, hsupplies⟩, hunused'⟩
      · rintro ⟨⟨hname, hnodup⟩, hsupplies, rfl⟩
        cases hsupplies with
        | cons hv hsupplies =>
          obtain rfl := Option.some.inj (hlookup.symm.trans hv)
          have hrest := ih.mpr ⟨hnodup, (supplies_filter_ne hname).mpr hsupplies, rfl⟩
          exact bind_eq_ok.mpr ⟨_, hrest, rfl⟩

theorem exists_of_takeFields_error {why : BadArgument}
    (h : takeFields missing fields given = .error why) :
    ∃ field ∈ fields.map Prod.fst, why = missing field := by
  induction fields generalizing given with
  | nil => cases h
  | cons field fields ih =>
    rw [takeFields] at h
    cases hfind : given.find? (·.1 = field.1) with
    | none =>
      simp only [hfind] at h
      exact ⟨field.1, List.mem_cons_self, (Except.error.inj h).symm⟩
    | some found =>
      simp only [hfind] at h
      rcases bind_eq_error.mp h with h | ⟨rest, -, h⟩
      · obtain ⟨name, hname, hwhy⟩ := ih h
        exact ⟨name, List.mem_cons_of_mem _ hname, hwhy⟩
      · cases h

/-- Nothing is left over of a struct that names no other fields. -/
theorem filter_names_eq_nil_iff :
    given.filter (·.1 ∉ fields.map Prod.fst) = [] ↔
      ∀ name ∈ given.map Prod.fst, name ∈ fields.map Prod.fst := by
  rw [List.filter_eq_nil_iff, List.forall_mem_map]
  exact forall₂_congr fun g _ => by rw [decide_eq_true_iff, not_not]

/-! ## Structs in the places of tuples -/

variable {m : Abi.Method} {hints : MethodHints} {name : String} {arg : MethodArg}

theorem orderFields_struct_iff :
    orderFields m hints name (.struct given) = .ok arg ↔
      ∃ hint values, hints.struct? name = some hint ∧ hint.fieldNames.Nodup ∧
        Supplies given hint.fields values ∧
        (∀ field ∈ given.map Prod.fst, field ∈ hint.fieldNames) ∧ arg = .value (.array values) := by
  rw [orderFields]
  cases hints.struct? name with
  | none => simp
  | some hint =>
    simp only [bind_eq_ok, Prod.exists, takeFields_eq_ok_iff]
    constructor
    · rintro ⟨values, unused, ⟨hdistinct, hsupplies, rfl⟩, h⟩
      split at h
      · next hnone =>
        refine ⟨hint, values, rfl, hdistinct, hsupplies, filter_names_eq_nil_iff.mp hnone, ?_⟩
        exact (Except.ok.inj h).symm
      · cases h
    · rintro ⟨_, values, ⟨⟩, hdistinct, hsupplies, hknown, rfl⟩
      refine ⟨values, _, ⟨hdistinct, hsupplies, rfl⟩, ?_⟩
      simp only [filter_names_eq_nil_iff.mpr hknown]
      rfl

/-- No struct has a value for the second of two fields with one name. -/
theorem orderFields_of_repeated {hint : StructHint} (hhint : hints.struct? name = some hint)
    (hrepeated : ¬ hint.fieldNames.Nodup) (given : List (String × Value)) :
    ∃ field ∈ hint.fieldNames, orderFields m hints name (.struct given) =
      .error (.missingField hint.name name m.name field) := by
  cases htaken : takeFields (.missingField hint.name name m.name) hint.fields given with
  | ok taken => exact absurd (takeFields_eq_ok_iff.mp htaken).1 hrepeated
  | error why =>
    obtain ⟨field, hfield, rfl⟩ := exists_of_takeFields_error htaken
    refine ⟨field, hfield, ?_⟩
    rw [orderFields, hhint]
    simp only [htaken]
    rfl

theorem exists_orderFields_struct_iff
    (hdistinct : ∀ hint, hints.struct? name = some hint → hint.fieldNames.Nodup) :
    (∃ arg, orderFields m hints name (.struct given) = .ok arg) ↔
      ∃ hint, hints.struct? name = some hint ∧
        ∀ field, field ∈ given.map Prod.fst ↔ field ∈ hint.fieldNames := by
  constructor
  · rintro ⟨arg, h⟩
    obtain ⟨hint, values, hhint, -, hsupplies, hknown, -⟩ := orderFields_struct_iff.mp h
    exact ⟨hint, hhint, fun field => ⟨hknown field, hsupplies.mem_keys field⟩⟩
  · rintro ⟨hint, hhint, hkeys⟩
    obtain ⟨values, hsupplies⟩ := exists_supplies fun field hfield => (hkeys field).mpr hfield
    exact ⟨_, orderFields_struct_iff.mpr ⟨hint, values, hhint, hdistinct hint hhint, hsupplies,
      fun field => (hkeys field).mp, rfl⟩⟩

theorem orderFields_of_not_struct (h : ∀ given, arg ≠ .struct given) :
    orderFields m hints name arg = .ok arg := by
  cases arg with
  | struct given => exact absurd rfl (h given)
  | _ => rfl

/-! ## The arguments of a method -/

variable {arg' : MethodArg} {args ordered : List MethodArg} {i : Nat}

/-- Each argument is put into order by itself, under the name of its place. -/
theorem orderAllFields_drop (args : List MethodArg) (place : Nat) :
    orderAllFields m hints (m.args.drop place) args =
      (args.zipIdx place).mapM fun a => orderFields m hints (m.argName a.2) a.1 := by
  induction args generalizing place with
  | nil => rfl
  | cons arg args ih =>
    rw [orderAllFields, List.zipIdx_cons, List.mapM_cons, List.head?_drop, List.tail_drop, ih]
    rfl

theorem orderAllFields_eq_mapM (args : List MethodArg) :
    orderAllFields m hints m.args args =
      args.zipIdx.mapM fun a => orderFields m hints (m.argName a.2) a.1 :=
  orderAllFields_drop args 0

theorem exists_orderAllFields_iff :
    (∃ ordered, orderAllFields m hints m.args args = .ok ordered) ↔
      ∀ i arg, args[i]? = some arg → ∃ arg', orderFields m hints (m.argName i) arg = .ok arg' := by
  rw [orderAllFields_eq_mapM]
  constructor
  · rintro ⟨ordered, h⟩ i arg harg
    exact exists_of_mapM h (arg, i) (List.mem_zipIdx_iff_getElem?.mpr harg)
  · intro h
    refine exists_mapM fun a ha => ?_
    exact h a.2 a.1 (List.mem_zipIdx_iff_getElem?.mp ha)

theorem length_orderAllFields (h : orderAllFields m hints m.args args = .ok ordered) :
    ordered.length = args.length := by
  rw [orderAllFields_eq_mapM, mapM_eq_ok] at h
  rw [← h.length_eq, List.length_zipIdx]

theorem getElem?_orderAllFields
    (h : orderAllFields m hints m.args args = .ok ordered) (hi : args[i]? = some arg) :
    ∃ arg', ordered[i]? = some arg' ∧ orderFields m hints (m.argName i) arg = .ok arg' := by
  rw [orderAllFields_eq_mapM, mapM_eq_ok] at h
  have hzip : args.zipIdx[i]? = some (arg, i) := by
    rw [List.getElem?_zipIdx, hi, Nat.zero_add, Option.map_some]
  exact exists_getElem?_right h hzip

/-! ## Another argument in a place -/

theorem zipIdx_set {α : Type} (as : List α) (i place : Nat) (a : α) :
    (as.set i a).zipIdx place = (as.zipIdx place).set i (a, place + i) := by
  induction as generalizing i place with
  | nil => rfl
  | cons first as ih =>
    cases i with
    | zero => rfl
    | succ i =>
      rw [List.set_cons_succ, List.zipIdx_cons, ih, List.zipIdx_cons, List.set_cons_succ,
        Nat.add_assoc, Nat.add_comm 1]

theorem orderAllFields_set (h : orderAllFields m hints m.args args = .ok ordered)
    (harg : orderFields m hints (m.argName i) arg = .ok arg') :
    orderAllFields m hints m.args (args.set i arg) = .ok (ordered.set i arg') := by
  rw [orderAllFields_eq_mapM] at *
  rw [zipIdx_set, Nat.zero_add]
  exact mapM_set_ok h harg

theorem orderAllFields_set_error {why : BadArgument}
    (h : orderAllFields m hints m.args args = .ok ordered) (hi : i < args.length)
    (harg : orderFields m hints (m.argName i) arg = .error why) :
    orderAllFields m hints m.args (args.set i arg) = .error why := by
  rw [orderAllFields_eq_mapM] at *
  rw [zipIdx_set, Nat.zero_add]
  exact mapM_set_error h (by rwa [List.length_zipIdx]) harg

end MethodArg

end AppLedger
