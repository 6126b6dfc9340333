import AppLedger.Proofs.Client.StructArgument

/-! The hints of a description that was built. Those whose fields have names of their own can be
used for all values, and the others for none. -/

namespace AppLedger.MethodArg

open Abi (Ty)

/-- A struct for an argument of a built description can be given with all values of its fields if
the fields have names of their own, and with no values if they have not. -/
theorem struct_of_build (draft : DescriptionDraft) (d : Description) (h : draft.build = .ok d)
    (spec : MethodSpec) (hspec : spec ∈ d.methods) (name : String) (hint : StructHint)
    (hhint : spec.hints.struct? name = some hint) :
    ∃ i declared items, spec.method.args[i]? = some declared ∧ declared.name = some name ∧
      declared.type = .value (.tuple items) ∧ DescriptionDraft.Declares hint.fields items ∧
      (hint.fieldNames.Nodup → ∀ values, List.Forall₂ Ty.Inhabits items values →
        ∃ given, ∀ args ordered,
          orderAllFields spec.method spec.hints spec.method.args args = .ok ordered →
          orderAllFields spec.method spec.hints spec.method.args (args.set i (.struct given)) =
            .ok (ordered.set i (.value (.array values)))) ∧
      (¬ hint.fieldNames.Nodup → ∀ given args ordered,
        orderAllFields spec.method spec.hints spec.method.args args = .ok ordered →
        i < args.length →
          ∃ field ∈ hint.fieldNames,
            orderAllFields spec.method spec.hints spec.method.args (args.set i (.struct given)) =
              .error (.missingField hint.name name spec.method.name field)) := by
  obtain ⟨given, -, hbuilt⟩ :=
    DescriptionDraft.exists_builtMethod (DescriptionDraft.built_of_build h) hspec
  have hcheck := hbuilt.structs name hint (MethodHints.mem_structs hhint)
  obtain ⟨declared, items, hfound, htype, hdeclares⟩ := DescriptionDraft.checkStruct_eq_ok hcheck
  have hname := List.find?_some hfound
  have hname := of_decide_eq_true hname
  obtain ⟨i, hi⟩ := List.mem_iff_getElem?.mp (List.mem_of_find?_eq_some hfound)
  have hplace : spec.method.argName i = name := by
    rw [Abi.Method.argName, hi, Option.bind_some, hname, Option.getD_some]
  refine ⟨i, declared, items, hi, hname, htype, hdeclares, fun hdistinct values hvalues => ?_,
    fun hrepeated given args ordered hargs hlt => ?_⟩
  · have hlength : values.length = hint.fields.length := by
      rw [← hvalues.length_eq, hdeclares.length_eq]
    refine ⟨hint.fieldNames.zip values, fun args ordered hargs => orderAllFields_set hargs ?_⟩
    refine orderFields_struct_iff.mpr ⟨hint, values, hplace ▸ hhint, hdistinct,
      supplies_zip hdistinct hlength, fun field hfield => ?_, rfl⟩
    rw [List.map_fst_zip (by simp [StructHint.fieldNames, hlength])] at hfield
    exact hfield
  · obtain ⟨field, hfield, hmissing⟩ := orderFields_of_repeated (hplace ▸ hhint) hrepeated given
    exact ⟨field, hfield, hplace ▸ orderAllFields_set_error hargs hlt hmissing⟩

def payer : DescriptionDraft where
  name := "payer"
  approval := "int 1"
  clear := "int 1"
  methods := [("pay((uint64,bool),uint64)void", { structs := [("arg0", payment)] })]

/-- Both fields have one name. -/
def pair : StructHint where
  name := "Pair"
  fields := [("a", "uint64"), ("a", "uint64")]

def keep : Abi.Method where
  name := "keep"
  args := [{ type := .value (.tuple [.uint64, .uint64]), name := some "arg0" }]
  returns := none

def pairs : DescriptionDraft where
  name := "pairs"
  approval := "int 1"
  clear := "int 1"
  methods := [("keep((uint64,uint64))void", { structs := [("arg0", pair)] })]

theorem struct_of_build_payer :
    (∃ d spec, payer.build = .ok d ∧ spec ∈ d.methods ∧
      spec.hints.struct? "arg0" = some payment ∧ payment.fieldNames.Nodup ∧
      ∃ i given, ∀ args ordered,
        orderAllFields spec.method spec.hints spec.method.args args = .ok ordered →
        orderAllFields spec.method spec.hints spec.method.args (args.set i (.struct given)) =
          .ok (ordered.set i (.value (.array [.uint 7, .bool true])))) ∧
    ∃ d spec, pairs.build = .ok d ∧ spec ∈ d.methods ∧ spec.hints.struct? "arg0" = some pair ∧
      ¬ pair.fieldNames.Nodup ∧
      ∃ i, ∀ given args ordered,
        orderAllFields spec.method spec.hints spec.method.args args = .ok ordered →
        i < args.length → ∃ field ∈ pair.fieldNames,
          orderAllFields spec.method spec.hints spec.method.args (args.set i (.struct given)) =
            .error (.missingField "Pair" "arg0" spec.method.name field) := by
  constructor
  · obtain ⟨i, declared, items, -, -, -, hdeclares, husable, -⟩ := struct_of_build payer
      (payer.described [⟨pay, { structs := [("arg0", payment)] }⟩]) rfl
      ⟨pay, { structs := [("arg0", payment)] }⟩ (List.mem_singleton.mpr rfl) "arg0" payment rfl
    have hdistinct : payment.fieldNames.Nodup := by decide
    have hvalues : List.Forall₂ Ty.Inhabits items [.uint 7, .bool true] := by
      obtain ⟨_, rest, ⟨⟩, hrest, rfl⟩ := List.forall₂_cons_left_iff.mp hdeclares
      obtain ⟨_, none, ⟨⟩, hnone, rfl⟩ := List.forall₂_cons_left_iff.mp hrest
      obtain rfl := List.forall₂_nil_left_iff.mp hnone
      exact .cons (.uint (by decide)) (.cons (.bool true) .nil)
    obtain ⟨given, hgiven⟩ := husable hdistinct _ hvalues
    exact ⟨_, _, rfl, List.mem_singleton.mpr rfl, rfl, hdistinct, i, given, hgiven⟩
  · obtain ⟨i, declared, items, -, -, -, -, -, hrefused⟩ := struct_of_build pairs
      (pairs.described [⟨keep, { structs := [("arg0", pair)] }⟩]) rfl
      ⟨keep, { structs := [("arg0", pair)] }⟩ (List.mem_singleton.mpr rfl) "arg0" pair rfl
    have hrepeated : ¬ pair.fieldNames.Nodup := by decide
    exact ⟨_, _, rfl, List.mem_singleton.mpr rfl, rfl, hrepeated, i, hrefused hrepeated⟩

theorem repeated_fields_refused :
    ∃ d spec, pairs.build = .ok d ∧ spec ∈ d.methods ∧ spec.hints.struct? "arg0" = some pair ∧
      spec.method.argName 0 = "arg0" ∧ DescriptionDraft.Declares pair.fields [.uint64, .uint64] ∧
      List.Forall₂ Ty.Inhabits [.uint64, .uint64] [.uint 7, .uint 7] ∧
      ∀ given ordered, orderAllFields spec.method spec.hints spec.method.args [.struct given] ≠
        .ok ordered := by
  refine ⟨_, ⟨keep, { structs := [("arg0", pair)] }⟩, rfl, List.mem_singleton.mpr rfl, rfl, rfl,
    .cons rfl (.cons rfl .nil), .cons (.uint (by decide)) (.cons (.uint (by decide)) .nil),
    fun given ordered h => ?_⟩
  obtain ⟨arg, -, harg⟩ := getElem?_orderAllFields (i := 0) h rfl
  obtain ⟨hint, -, hhint, hdistinct, -⟩ := orderFields_struct_iff.mp harg
  obtain rfl : pair = hint := Option.some.inj hhint
  exact absurd hdistinct (by decide)

end AppLedger.MethodArg
