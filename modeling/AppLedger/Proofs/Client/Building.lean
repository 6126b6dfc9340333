import AppLedger.Client.Description
import AppLedger.Proofs.Outcome
import Mathlib.Algebra.GroupWithZero.Nat

/-! Building a description. What was checked once holds of the description ever after: its state
fits, its hints are for arguments that exist, and the methods that stand for the stages are
found. -/

namespace AppLedger

open Abi (Method Ty)

/-! ## State -/

/-- One key for each name that is declared, and as many as are reserved. -/
def declaredKeys (ds : List StateDeclaration) (scope : Scope) (kind : ValueKind) : Nat :=
  (ds.map fun d =>
    if d.scope = scope ∧ d.kind = kind then d.reserved.elim 1 UInt64.toNat else 0).sum

/-- What is asked of the declarations of an application. -/
structure DeclarationsFit (ds : List StateDeclaration) : Prop where
  names : ∀ d ∈ ds, d.name.utf8ByteSize ≤ 64
  distinct : (ds.map fun d => (d.scope, d.name)).Nodup
  globalKeys : declaredKeys ds .global .uint + declaredKeys ds .global .bytes ≤ 64
  localKeys : declaredKeys ds .local .uint + declaredKeys ds .local .bytes ≤ 16

def Misconfigured.IsStateFault : Misconfigured → Prop
  | .keyTooLong _ | .duplicateState _ | .tooManyKeys _ _ _ => True
  | _ => False

namespace DescriptionDraft

open Description (slots keyCount)

variable {ds before : List StateDeclaration} {scope : Scope} {why : Misconfigured} {max : Nat}

theorem slots_eq (ds : List StateDeclaration) (scope : Scope) (kind : ValueKind) :
    slots ds scope kind = declaredKeys ds scope kind := by
  have hcount : ∀ count, (ds.filter fun d => d.scope = scope ∧ d.kind = kind).foldl
      (fun count d => count + d.slots) count = count + declaredKeys ds scope kind := by
    induction ds with
    | nil => simp [declaredKeys]
    | cons d ds ih =>
      intro count
      rw [declaredKeys, List.map_cons, List.sum_cons, ← declaredKeys, ← Nat.add_assoc]
      by_cases hd : d.scope = scope ∧ d.kind = kind
      · rw [List.filter_cons_of_pos (by simpa using hd), List.foldl_cons, ih, if_pos hd]
        cases hreserved : d.reserved <;> simp [StateDeclaration.slots, hreserved]
      · rw [List.filter_cons_of_neg (by simpa using hd), ih, if_neg hd, Nat.add_zero]
  rw [slots, hcount, Nat.zero_add]

theorem total_keyCount (ds : List StateDeclaration) (scope : Scope) :
    (keyCount ds scope).total = declaredKeys ds scope .uint + declaredKeys ds scope .bytes := by
  rw [keyCount, KeyCount.total, slots_eq, slots_eq]

theorem checkDeclarations_eq_ok :
    checkDeclarations before ds = .ok () ↔
      (∀ d ∈ ds, d.name.utf8ByteSize ≤ 64) ∧ (ds.map fun d => (d.scope, d.name)).Nodup ∧
        ∀ d ∈ ds, ∀ b ∈ before, ¬ (b.scope = d.scope ∧ b.name = d.name) := by
  induction ds generalizing before with
  | nil => simp [checkDeclarations]
  | cons d ds ih =>
    rw [checkDeclarations]
    split_ifs with hlong hseen
    · have hlong : 64 < d.name.utf8ByteSize := hlong
      simp only [false_iff, List.forall_mem_cons]
      exact fun h => absurd h.1.1 (Nat.not_le.mpr hlong)
    · simp only [false_iff, List.forall_mem_cons]
      obtain ⟨b, hb, hsame⟩ := List.any_eq_true.mp hseen
      exact fun h => h.2.2.1 b hb (of_decide_eq_true hsame)
    · have hshort : d.name.utf8ByteSize ≤ 64 := Nat.not_lt.mp hlong
      have hnew : ∀ b ∈ before, ¬ (b.scope = d.scope ∧ b.name = d.name) := by
        intro b hb hsame
        exact hseen (List.any_eq_true.mpr ⟨b, hb, decide_eq_true hsame⟩)
      have hrest : (d.scope, d.name) ∉ ds.map (fun d => (d.scope, d.name)) ↔
          ∀ d' ∈ ds, ¬ (d.scope = d'.scope ∧ d.name = d'.name) := by
        simp only [List.mem_map, not_exists, not_and, Prod.mk.injEq, eq_comm]
      simp only [ih, List.forall_mem_cons, List.map_cons, List.nodup_cons, hrest, forall_and]
      tauto

theorem checkKeyCount_eq_ok :
    checkKeyCount ds scope max = .ok () ↔
      declaredKeys ds scope .uint + declaredKeys ds scope .bytes ≤ max := by
  simp only [checkKeyCount, total_keyCount]
  split_ifs with h
  · simp only [false_iff]
    omega
  · simp only [true_iff]
    omega

theorem isStateFault_of_checkDeclarations (h : checkDeclarations before ds = .error why) :
    why.IsStateFault := by
  induction ds generalizing before with
  | nil => cases h
  | cons d ds ih =>
    rw [checkDeclarations] at h
    split_ifs at h
    · obtain rfl := Except.error.inj h
      trivial
    · obtain rfl := Except.error.inj h
      trivial
    · exact ih h

theorem isStateFault_of_checkKeyCount (h : checkKeyCount ds scope max = .error why) :
    why.IsStateFault := by
  simp only [checkKeyCount] at h
  split_ifs at h
  obtain rfl := Except.error.inj h
  trivial

/-- Declarations that do not fit are refused before anything else is looked at. -/
theorem build_of_not_fit {draft : DescriptionDraft} (h : ¬ DeclarationsFit draft.declarations) :
    ∃ why, why.IsStateFault ∧ draft.build = .error (.configuration why) := by
  -- The first of the three checks that fails is what the build ends with.
  cases hnames : checkDeclarations [] draft.declarations with
  | error why => exact ⟨why, isStateFault_of_checkDeclarations hnames, by rw [build, hnames]; rfl⟩
  | ok =>
    cases hglobal : checkKeyCount draft.declarations .global maxGlobalKeys with
    | error why =>
      exact ⟨why, isStateFault_of_checkKeyCount hglobal, by rw [build, hnames, hglobal]; rfl⟩
    | ok =>
      cases hlocal : checkKeyCount draft.declarations .local maxLocalKeys with
      | error why =>
        refine ⟨why, isStateFault_of_checkKeyCount hlocal, ?_⟩
        rw [build, hnames, hglobal, hlocal]
        rfl
      | ok =>
        obtain ⟨hnames, hdistinct, -⟩ := checkDeclarations_eq_ok.mp hnames
        exact absurd ⟨hnames, hdistinct, checkKeyCount_eq_ok.mp hglobal,
          checkKeyCount_eq_ok.mp hlocal⟩ h

/-! ## Methods -/

/-- The types that the fields of a hint are declared with. -/
def Declares (fields : List (String × String)) (items : List Ty) : Prop :=
  List.Forall₂ (fun field item => Ty.ofText field.2 = .ok item) fields items

section Structs

variable {fields : List (String × String)} {items : List Ty} {m : Method} {name : String}
  {hint : StructHint}

theorem checkFields_eq_ok (hlength : items.length = fields.length)
    (h : checkFields fields items = .ok ()) : Declares fields items := by
  induction fields generalizing items with
  | nil =>
    obtain rfl := List.length_eq_zero_iff.mp hlength
    exact .nil
  | cons field fields ih =>
    cases items with
    | nil => cases hlength
    | cons item items =>
      obtain ⟨declared, hdeclared, h⟩ := bind_eq_ok.mp h
      by_cases hsame : declared = item
      · simp only [hsame, ne_eq, not_true_eq_false, if_false] at h
        exact .cons (hsame ▸ mapError_eq_ok.mp hdeclared) (ih (Nat.succ.inj hlength) h)
      · simp only [ne_eq, hsame, not_false_eq_true, if_true] at h
        exact absurd h throw_bind_ne_ok

/-- A hint that is accepted repeats the types of a tuple argument. -/
theorem checkStruct_eq_ok (h : checkStruct m name hint = .ok ()) :
    ∃ declared items, m.args.find? (·.name = some name) = some declared ∧
      declared.type = .value (.tuple items) ∧ Declares hint.fields items := by
  rw [checkStruct] at h
  cases hfind : m.args.find? (·.name = some name) with
  | none =>
    rw [hfind] at h
    cases h
  | some declared =>
    simp only [hfind] at h
    split at h
    · next items htype =>
      by_cases hlength : items.length = hint.fields.length
      · simp only [hlength, ne_eq, not_true_eq_false, if_false] at h
        exact ⟨declared, items, rfl, htype, checkFields_eq_ok hlength h⟩
      · simp only [ne_eq, hlength, not_false_eq_true, if_true] at h
        cases h
    · cases h

theorem exists_declared_of_checkStruct (h : checkStruct m name hint = .ok ()) :
    ∃ declared ∈ m.args, declared.name = some name := by
  obtain ⟨declared, items, hfound, -⟩ := checkStruct_eq_ok h
  have hname := List.find?_some hfound
  exact ⟨declared, List.mem_of_find?_eq_some hfound, of_decide_eq_true hname⟩

end Structs

/-- A method is read from its signature, and its hints are for arguments that it has. -/
structure BuiltMethod (given : String × MethodHints) (spec : MethodSpec) : Prop where
  read : Method.ofText given.1 = .ok spec.method
  hints : spec.hints = given.2
  defaults : ∀ arg source, (arg, source) ∈ spec.hints.defaults →
    ∃ declared ∈ spec.method.args, declared.name = some arg
  structs : ∀ arg hint, (arg, hint) ∈ spec.hints.structs → checkStruct spec.method arg hint = .ok ()

variable {draft : DescriptionDraft} {d : Description} {text : String} {hints : MethodHints}
  {spec : MethodSpec}

theorem builtMethod_of_buildMethod (h : buildMethod text hints = .ok spec) :
    BuiltMethod (text, hints) spec := by
  obtain ⟨m, hm, h⟩ := bind_eq_ok.mp h
  cases hunknown : hints.defaults.find? fun d => !m.args.any (·.name = some d.1) with
  | some unknown =>
    simp only [hunknown] at h
    exact absurd h throw_bind_ne_ok
  | none =>
    simp only [hunknown] at h
    obtain ⟨_, hstructs, h⟩ := bind_eq_ok.mp h
    obtain rfl := Except.ok.inj h
    refine ⟨mapError_eq_ok.mp hm, rfl, fun arg source hmem => ?_, fun arg hint hmem => ?_⟩
    · have hknown := List.find?_eq_none.mp hunknown _ hmem
      rw [Bool.not_eq_true', Bool.not_eq_false, List.any_eq_true] at hknown
      obtain ⟨declared, hdeclared, hname⟩ := hknown
      exact ⟨declared, hdeclared, of_decide_eq_true hname⟩
    · exact mapError_eq_ok.mp (forM_eq_ok.mp hstructs _ hmem)

/-- What a description is built from once its methods were read. -/
def described (draft : DescriptionDraft) (methods : List MethodSpec) : Description where
  name := draft.name
  approval := draft.approval
  clear := draft.clear
  version := draft.version
  declarations := draft.declarations
  methods := methods
  handlers := draft.handlers
  createMethod := draft.createHandler

/-- What is known of a description that was built. -/
structure Built (draft : DescriptionDraft) (d : Description) : Prop where
  state : DeclarationsFit draft.declarations
  methods : draft.methods.mapM (fun given => buildMethod given.1 given.2) = .ok d.methods
  parts : d = draft.described d.methods
  handlers : ∀ stage name, (stage, name) ∈ draft.handlers →
    stage ≠ .clearState ∧ ∃ spec, d.method name = .ok spec
  createHandler : ∀ name onComplete, draft.createHandler = some (name, onComplete) →
    ∃ spec, d.method name = .ok spec

theorem checkHandler_eq_ok {stage : OnComplete} {name : String}
    (h : checkHandler d (stage, name) = .ok ()) :
    stage ≠ .clearState ∧ ∃ spec, d.method name = .ok spec := by
  rw [checkHandler] at h
  by_cases hstage : stage = .clearState
  · simp only [hstage, if_true] at h
    exact absurd h throw_bind_ne_ok
  · simp only [hstage, if_false] at h
    obtain ⟨spec, hspec⟩ := discard_eq_ok.mp h
    exact ⟨hstage, spec, mapError_eq_ok.mp hspec⟩

theorem built_of_build (h : draft.build = .ok d) : Built draft d := by
  have hfit : DeclarationsFit draft.declarations := by
    by_contra hfit
    obtain ⟨why, -, hwhy⟩ := build_of_not_fit hfit
    exact absurd (h.symm.trans hwhy) nofun
  obtain ⟨_, -, h⟩ := bind_eq_ok.mp h
  obtain ⟨_, -, h⟩ := bind_eq_ok.mp h
  obtain ⟨_, -, h⟩ := bind_eq_ok.mp h
  obtain ⟨methods, hmethods, h⟩ := bind_eq_ok.mp h
  obtain ⟨_, hhandlers, h⟩ := bind_eq_ok.mp h
  have hfound : ∀ stage name, (stage, name) ∈ draft.handlers →
      stage ≠ .clearState ∧ ∃ spec, (draft.described methods).method name = .ok spec :=
    fun stage name hmem => checkHandler_eq_ok (forM_eq_ok.mp hhandlers _ hmem)
  split at h
  · next name onComplete hcreate =>
    obtain ⟨_, hcreated, h⟩ := bind_eq_ok.mp h
    obtain rfl := Except.ok.inj h
    refine ⟨hfit, hmethods, rfl, hfound, fun name' onComplete' hsome => ?_⟩
    obtain ⟨rfl, rfl⟩ := Prod.mk.inj (Option.some.inj (hcreate.symm.trans hsome))
    obtain ⟨spec, hspec⟩ := discard_eq_ok.mp hcreated
    exact ⟨spec, mapError_eq_ok.mp hspec⟩
  · next hcreate =>
    obtain rfl := Except.ok.inj h
    refine ⟨hfit, hmethods, rfl, hfound, fun name onComplete hsome => ?_⟩
    exact absurd (hcreate.symm.trans hsome) nofun

theorem forall₂_methods (h : Built draft d) : List.Forall₂ BuiltMethod draft.methods d.methods :=
  (mapM_eq_ok.mp h.methods).imp fun _ _ => builtMethod_of_buildMethod

theorem exists_builtMethod (h : Built draft d) (hmem : spec ∈ d.methods) :
    ∃ given ∈ draft.methods, BuiltMethod given spec :=
  exists_of_mem_right (forall₂_methods h) spec hmem

/-! ## Handlers -/

variable {stage : OnComplete} {onComplete : OnComplete}

theorem handler_eq_some {stage' : OnComplete} {name : String} (h : Built draft d)
    (hfound : draft.handlers.reverse.find? (·.1 = stage) = some (stage', name)) :
    ∃ spec, d.method name = .ok spec ∧ d.handler stage = some spec := by
  have hmem := List.mem_reverse.mp (List.mem_of_find?_eq_some hfound)
  obtain ⟨-, spec, hspec⟩ := h.handlers stage' name hmem
  have hhandlers : d.handlers = draft.handlers := congrArg Description.handlers h.parts
  refine ⟨spec, hspec, ?_⟩
  rw [Description.handler, hhandlers, hfound]
  exact congrArg Except.toOption hspec

theorem isSome_handler (h : Built draft d) :
    (d.handler stage).isSome = true ↔ ∃ name, (stage, name) ∈ draft.handlers := by
  have hhandlers : d.handlers = draft.handlers := congrArg Description.handlers h.parts
  cases hfound : draft.handlers.reverse.find? (·.1 = stage) with
  | some handler =>
    obtain ⟨spec, -, hspec⟩ := handler_eq_some h hfound
    have hmem := List.mem_reverse.mp (List.mem_of_find?_eq_some hfound)
    have hstage := List.find?_some hfound
    obtain rfl := of_decide_eq_true hstage
    exact ⟨fun _ => ⟨handler.2, hmem⟩, fun _ => by rw [hspec, Option.isSome_some]⟩
  | none =>
    have hnone : d.handler stage = none := by
      rw [Description.handler, hhandlers, hfound]
      rfl
    rw [hnone]
    refine ⟨fun hsome => absurd hsome nofun, fun ⟨name, hmem⟩ => ?_⟩
    exact absurd (decide_eq_true rfl) (List.find?_eq_none.mp hfound _ (List.mem_reverse.mpr hmem))

theorem createHandler_eq (h : Built draft d) :
    (draft.createHandler = none → d.createHandler = none) ∧
    ∀ name onComplete, draft.createHandler = some (name, onComplete) →
      ∃ spec, d.method name = .ok spec ∧ d.createHandler = some (spec, onComplete) := by
  have hcreate : d.createMethod = draft.createHandler :=
    congrArg Description.createMethod h.parts
  refine ⟨fun hnone => ?_, fun name onComplete hsome => ?_⟩
  · rw [Description.createHandler, hcreate, hnone]
    rfl
  · obtain ⟨spec, hspec⟩ := h.createHandler name onComplete hsome
    refine ⟨spec, hspec, ?_⟩
    rw [Description.createHandler, hcreate, hsome]
    simp only [Option.bind_eq_bind, Option.bind_some, hspec]
    rfl

/-! ## Schemas -/

theorem toNat_schema (h : Built draft d) :
    d.globalSchema.uints.toNat = declaredKeys d.declarations .global .uint ∧
    d.globalSchema.byteSlices.toNat = declaredKeys d.declarations .global .bytes ∧
    d.localSchema.uints.toNat = declaredKeys d.declarations .local .uint ∧
    d.localSchema.byteSlices.toNat = declaredKeys d.declarations .local .bytes := by
  have hds : d.declarations = draft.declarations := congrArg Description.declarations h.parts
  have hglobal := h.state.globalKeys
  have hlocal := h.state.localKeys
  have hnat : ∀ n < 65, (UInt64.ofNat n).toNat = n := by
    intro n hn
    rw [UInt64.toNat_ofNat', Nat.mod_eq_of_lt (by omega)]
  simp only [Description.globalSchema, Description.localSchema, KeyCount.schema, keyCount, slots_eq,
    hds]
  exact ⟨hnat _ (by omega), hnat _ (by omega), hnat _ (by omega), hnat _ (by omega)⟩

end DescriptionDraft

end AppLedger
