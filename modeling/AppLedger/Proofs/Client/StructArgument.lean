import AppLedger.Proofs.Abi.Typing
import AppLedger.Proofs.Client.Building
import AppLedger.Proofs.Client.StructFields

/-! Arguments that are given as structs. Each becomes an array of its values in the order of the
hint, and where the hint repeats the types of a tuple, the array is a value of it. -/

namespace AppLedger

open Abi (Ty Value)

/-- The values that are given for the fields are of the types of the fields. -/
def StructHint.Typed (hint : StructHint) (given : List (String × Value)) : Prop :=
  ∀ field ∈ hint.fields, ∀ ty v, Ty.ofText field.2 = .ok ty → given.lookup field.1 = some v →
    ty.Inhabits v

namespace MethodArg

open DescriptionDraft (Declares)

variable {hint : StructHint} {given : List (String × Value)} {values : List Value} {items : List Ty}

theorem forall₂_inhabits {fields : List (String × String)}
    (htyped : ∀ field ∈ fields, ∀ ty v, Ty.ofText field.2 = .ok ty →
      given.lookup field.1 = some v → ty.Inhabits v)
    (hdeclares : Declares fields items) (hsupplies : Supplies given fields values) :
    List.Forall₂ Ty.Inhabits items values := by
  induction hdeclares generalizing values with
  | nil =>
    cases hsupplies
    exact .nil
  | cons hitem _ ih =>
    rw [List.forall_mem_cons] at htyped
    cases hsupplies with
    | cons hv hsupplies => exact .cons (htyped.1 _ _ hitem hv) (ih htyped.2 hsupplies)

/-- Those structs are accepted that name the fields of their hints, and a value of a checked hint is
one of the tuple. Where no argument is declared the empty name stands for its name, and of several
arguments with one name the first is checked. -/
theorem structs_in_hint_order (m : Abi.Method) (hints : MethodHints) (args : List MethodArg)
    (hdistinct : ∀ name hint, hints.struct? name = some hint → hint.fieldNames.Nodup) :
    ((∃ ordered, orderAllFields m hints m.args args = .ok ordered) ↔
      ∀ i given, args[i]? = some (.struct given) →
        ∃ hint, hints.struct? (m.argName i) = some hint ∧
          ∀ field, field ∈ given.map Prod.fst ↔ field ∈ hint.fieldNames) ∧
    (∀ ordered, orderAllFields m hints m.args args = .ok ordered →
      ordered.length = args.length ∧
      (∀ (i : Nat) (arg : MethodArg), args[i]? = some arg → (∀ given, arg ≠ .struct given) →
        ordered[i]? = some arg) ∧
      ∀ i given hint, args[i]? = some (.struct given) → hints.struct? (m.argName i) = some hint →
        ∃ values, ordered[i]? = some (.value (.array values)) ∧ Supplies given hint.fields values ∧
          (DescriptionDraft.checkStruct m (m.argName i) hint = .ok () → hint.Typed given →
            ∃ declared items, m.args.find? (·.name = some (m.argName i)) = some declared ∧
              declared.type = .value (.tuple items) ∧
              (Ty.tuple items).Inhabits (.array values))) ∧
    ∀ text, Abi.Method.ofText text = .ok m →
      ∀ i, m.args.find? (·.name = some (m.argName i)) = m.args[i]? := by
  refine ⟨?_, fun ordered h => ⟨length_orderAllFields h, fun i arg hi hplain => ?_,
    fun i given hint hi hhint => ?_⟩, fun text htext => Abi.Method.find?_argName htext⟩
  · rw [exists_orderAllFields_iff]
    constructor
    · intro h i given hi
      exact (exists_orderFields_struct_iff fun hint => hdistinct _ hint).mp (h i _ hi)
    · intro h i arg hi
      cases arg with
      | struct given =>
        exact (exists_orderFields_struct_iff fun hint => hdistinct _ hint).mpr (h i given hi)
      | _ => exact ⟨_, orderFields_of_not_struct nofun⟩
  · obtain ⟨arg', hi', harg'⟩ := getElem?_orderAllFields h hi
    rw [orderFields_of_not_struct hplain] at harg'
    rw [hi', Except.ok.inj harg']
  · obtain ⟨arg', hi', harg'⟩ := getElem?_orderAllFields h hi
    obtain ⟨hint', values, hhint', -, hsupplies, -, rfl⟩ := orderFields_struct_iff.mp harg'
    obtain rfl := Option.some.inj (hhint.symm.trans hhint')
    refine ⟨values, hi', hsupplies, fun hcheck htyped => ?_⟩
    obtain ⟨declared, items, hfound, htype, hdeclares⟩ :=
      DescriptionDraft.checkStruct_eq_ok hcheck
    exact ⟨declared, items, hfound, htype, .tuple (forall₂_inhabits htyped hdeclares hsupplies)⟩

/-- The fields of a payment, in the order of the tuple. -/
def payment : StructHint where
  name := "Payment"
  fields := [("amount", "uint64"), ("rush", "bool")]

def pay : Abi.Method where
  name := "pay"
  args := [{ type := .value (.tuple [.uint64, .bool]), name := some "arg0" },
    { type := .value .uint64, name := some "arg1" }]
  returns := none

theorem structs_in_hint_order_pay :
    ∃ ordered values declared items,
      orderAllFields pay { structs := [("arg0", payment)] } pay.args
        [.struct [("rush", .bool true), ("amount", .uint 7)], .value (.uint 5)] = .ok ordered ∧
      ordered.length = 2 ∧ ordered[1]? = some (.value (.uint 5)) ∧
      ordered[0]? = some (.value (.array values)) ∧
      Supplies [("rush", .bool true), ("amount", .uint 7)] payment.fields values ∧
      pay.args[0]? = some declared ∧ declared.type = .value (.tuple items) ∧
      (Ty.tuple items).Inhabits (.array values) := by
  have hdistinct : ∀ name hint, ({ structs := [("arg0", payment)] } : MethodHints).struct? name =
      some hint → hint.fieldNames.Nodup := by
    intro name hint h
    obtain ⟨-, rfl⟩ := Prod.mk.inj (List.mem_singleton.mp (MethodHints.mem_structs h))
    decide
  have htyped : payment.Typed [("rush", .bool true), ("amount", .uint 7)] := by
    refine List.forall_mem_cons.mpr ⟨?_, List.forall_mem_singleton.mpr ?_⟩
    · rintro ty v ⟨⟩ ⟨⟩
      exact .uint (by decide)
    · rintro ty v ⟨⟩ ⟨⟩
      exact .bool true
  obtain ⟨hiff, hordered, hread⟩ := structs_in_hint_order pay { structs := [("arg0", payment)] }
    [.struct [("rush", .bool true), ("amount", .uint 7)], .value (.uint 5)] hdistinct
  obtain ⟨ordered, h⟩ := hiff.mpr fun i given hi => by
    match i with
    | 0 =>
      obtain rfl := MethodArg.struct.inj (Option.some.inj hi)
      exact ⟨payment, rfl, fun field => by simp [payment, StructHint.fieldNames, or_comm]⟩
    | 1 => cases hi
    | _ + 2 => cases hi
  obtain ⟨hlength, hkept, hstruct⟩ := hordered ordered h
  obtain ⟨values, hvalues, hsupplies, htuple⟩ := hstruct 0 _ payment rfl rfl
  obtain ⟨declared, items, hdeclared, htype, hinhabits⟩ := htuple rfl htyped
  exact ⟨ordered, values, declared, items, h, hlength, hkept 1 _ rfl nofun, hvalues, hsupplies,
    hread "pay((uint64,bool),uint64)void" rfl 0 ▸ hdeclared, htype, hinhabits⟩

/-- Two arguments with one name. -/
def twins : Abi.Method where
  name := "keep"
  args := [{ type := .value (.tuple [.uint64]), name := some "a" },
    { type := .value (.tuple [.string]), name := some "a" }]
  returns := none

def number : StructHint where
  name := "Number"
  fields := [("n", "uint64")]

/-- An argument that the method does not have goes by the empty name, and of two arguments with one
name only the first is looked at. -/
theorem unnamed_struct_accepted :
    (∃ m : Abi.Method, ∃ hint : StructHint, Abi.Method.ofText "f()void" = .ok m ∧
      m.args[0]? = none ∧ hint.fieldNames.Nodup ∧
      orderAllFields m { structs := [("", hint)] } m.args [.struct []] =
        .ok [.value (.array [])]) ∧
    number.fieldNames.Nodup ∧ twins.argName 1 = "a" ∧
    DescriptionDraft.checkStruct twins "a" number = .ok () ∧ number.Typed [("n", .uint 7)] ∧
    orderAllFields twins { structs := [("a", number)] } twins.args
      [.value (.array [.uint 5]), .struct [("n", .uint 7)]] =
        .ok [.value (.array [.uint 5]), .value (.array [.uint 7])] ∧
    twins.args[1]?.map (·.type) = some (.value (.tuple [.string])) ∧
    ¬ (Ty.tuple [.string]).Inhabits (.array [.uint 7]) := by
  have htyped : number.Typed [("n", .uint 7)] := by
    refine List.forall_mem_singleton.mpr ?_
    rintro ty v ⟨⟩ ⟨⟩
    exact .uint (by decide)
  have htext : ¬ (Ty.tuple [.string]).Inhabits (.array [.uint 7]) := by
    rintro (_ | _ | ⟨hitems⟩)
    cases hitems with
    | cons hitem _ => cases hitem
  refine ⟨?_, by decide, rfl, rfl, htyped, rfl, rfl, htext⟩
  exact ⟨{ name := "f", args := [], returns := none }, ⟨"S", []⟩, rfl, rfl, List.nodup_nil, rfl⟩

end MethodArg

end AppLedger
