import AppLedger.Proofs.Client.Building

/-! The calls of a builder, and what they have to do with the description that comes of them. -/

namespace AppLedger

open Abi (Method)

theorem find?_reverse_of_split {α : Type} {p : α → Bool} {before after : List α} {a : α}
    (ha : p a = true) (hafter : ∀ a ∈ after, p a = false) :
    (before ++ a :: after).reverse.find? p = some a := by
  have hnone : after.reverse.find? p = none :=
    List.find?_eq_none.mpr fun a hmem =>
      Bool.eq_false_iff.mp (hafter a (List.mem_reverse.mp hmem))
  rw [List.reverse_append, List.reverse_cons, List.append_assoc, List.find?_append, hnone,
    Option.none_or, List.singleton_append, List.find?_cons_of_pos ha]

/-- A call of the builder of a description. -/
inductive BuilderCall
  | version (version : UInt8)
  | state (declaration : StateDeclaration)
  | method (signature : String) (hints : MethodHints)
  | handler (stage : OnComplete) (name : String)
  | createHandler (name : String) (onComplete : OnComplete)

namespace BuilderCall

def declaration? : BuilderCall → Option StateDeclaration
  | .state declaration => some declaration
  | _ => none

def method? : BuilderCall → Option (String × MethodHints)
  | .method signature hints => some (signature, hints)
  | _ => none

def handler? : BuilderCall → Option (OnComplete × String)
  | .handler stage name => some (stage, name)
  | _ => none

def createHandler? : BuilderCall → Option (String × OnComplete)
  | .createHandler name onComplete => some (name, onComplete)
  | _ => none

variable {call : BuilderCall}

theorem handler?_eq_some {stage : OnComplete} {name : String} :
    call.handler? = some (stage, name) ↔ call = .handler stage name := by
  cases call <;> simp [handler?]

theorem createHandler?_eq_some {name : String} {onComplete : OnComplete} :
    call.createHandler? = some (name, onComplete) ↔ call = .createHandler name onComplete := by
  cases call <;> simp [createHandler?]

theorem mem_handlers {calls : List BuilderCall} {stage : OnComplete} {name : String} :
    (stage, name) ∈ calls.filterMap handler? ↔ .handler stage name ∈ calls := by
  simp only [List.mem_filterMap, handler?_eq_some, exists_eq_right]

theorem mem_createHandlers {calls : List BuilderCall} {name : String} {onComplete : OnComplete} :
    (name, onComplete) ∈ calls.filterMap createHandler? ↔
      .createHandler name onComplete ∈ calls := by
  simp only [List.mem_filterMap, createHandler?_eq_some, exists_eq_right]

/-- The last handler for a stage counts. -/
theorem find?_handlers_of_last {before after : List BuilderCall} {stage : OnComplete}
    {name : String} (hlast : ∀ later, .handler stage later ∉ after) :
    ((before ++ .handler stage name :: after).filterMap handler?).reverse.find? (·.1 = stage) =
      some (stage, name) := by
  rw [List.filterMap_append, List.filterMap_cons_some (handler?_eq_some.mpr rfl)]
  refine find?_reverse_of_split (decide_eq_true rfl) fun handler hmem => decide_eq_false ?_
  rintro rfl
  exact hlast handler.2 (mem_handlers.mp hmem)

theorem getLast?_createHandlers_of_last {before after : List BuilderCall} {name : String}
    {onComplete : OnComplete}
    (hlast : ∀ later onComplete', .createHandler later onComplete' ∉ after) :
    ((before ++ .createHandler name onComplete :: after).filterMap createHandler?).getLast? =
      some (name, onComplete) := by
  have hnone : after.filterMap createHandler? = [] :=
    List.eq_nil_iff_forall_not_mem.mpr fun handler hmem =>
      hlast handler.1 handler.2 (mem_createHandlers.mp hmem)
  rw [List.filterMap_append, List.filterMap_cons_some (createHandler?_eq_some.mpr rfl), hnone,
    List.getLast?_concat]

end BuilderCall

namespace DescriptionDraft

def apply (draft : DescriptionDraft) : BuilderCall → DescriptionDraft
  | .version version => { draft with version }
  | .state declaration => { draft with declarations := draft.declarations ++ [declaration] }
  | .method signature hints => { draft with methods := draft.methods ++ [(signature, hints)] }
  | .handler stage name => { draft with handlers := draft.handlers ++ [(stage, name)] }
  | .createHandler name onComplete => { draft with createHandler := some (name, onComplete) }

def ofCalls (name approval clear : String) (calls : List BuilderCall) : DescriptionDraft :=
  calls.foldl apply { name, approval, clear }

/-! ## The calls of the builder -/

variable {name approval clear : String} {calls : List BuilderCall}

/-- What the calls add to a part of the draft is there in their order. -/
theorem foldl_apply {β : Type} (part : DescriptionDraft → List β) (added : BuilderCall → Option β)
    (h : ∀ draft call, part (apply draft call) = part draft ++ (added call).toList)
    (calls : List BuilderCall) (draft : DescriptionDraft) :
    part (calls.foldl apply draft) = part draft ++ calls.filterMap added := by
  induction calls generalizing draft with
  | nil => simp
  | cons call calls ih =>
    rw [List.foldl_cons, ih, h, List.append_assoc]
    cases hadded : added call <;> simp [hadded]

theorem declarations_ofCalls :
    (ofCalls name approval clear calls).declarations =
      calls.filterMap BuilderCall.declaration? := by
  refine foldl_apply declarations BuilderCall.declaration? (fun draft call => ?_) calls _
  cases call <;> simp [apply, BuilderCall.declaration?]

theorem methods_ofCalls :
    (ofCalls name approval clear calls).methods = calls.filterMap BuilderCall.method? := by
  refine foldl_apply methods BuilderCall.method? (fun draft call => ?_) calls _
  cases call <;> simp [apply, BuilderCall.method?]

theorem handlers_ofCalls :
    (ofCalls name approval clear calls).handlers = calls.filterMap BuilderCall.handler? := by
  refine foldl_apply handlers BuilderCall.handler? (fun draft call => ?_) calls _
  cases call <;> simp [apply, BuilderCall.handler?]

/-- The last create handler counts. -/
theorem createHandler_ofCalls :
    (ofCalls name approval clear calls).createHandler =
      (calls.filterMap BuilderCall.createHandler?).getLast? := by
  have hparts : ∀ draft, (calls.foldl apply draft).createHandler =
      (calls.filterMap BuilderCall.createHandler?).getLast?.or draft.createHandler := by
    induction calls with
    | nil => simp
    | cons call calls ih =>
      intro draft
      rw [List.foldl_cons, ih]
      cases call <;>
        simp [apply, BuilderCall.createHandler?, List.filterMap_cons, List.getLast?_cons]
  rw [ofCalls, hparts, Option.or_none]

end DescriptionDraft

/-- What the calls of a builder have to do with the description that comes of them. -/
structure Consistent (calls : List BuilderCall) (d : Description) : Prop where
  handled : ∀ stage, (d.handler stage).isSome = true ↔ ∃ name, .handler stage name ∈ calls
  lastHandler : ∀ before stage name after, calls = before ++ .handler stage name :: after →
    (∀ later, .handler stage later ∉ after) →
      ∃ spec, d.method name = .ok spec ∧ d.handler stage = some spec
  created : d.createHandler.isSome = true ↔
    ∃ name onComplete, .createHandler name onComplete ∈ calls
  lastCreateHandler : ∀ before name onComplete after,
    calls = before ++ .createHandler name onComplete :: after →
    (∀ later onComplete', .createHandler later onComplete' ∉ after) →
      ∃ spec, d.method name = .ok spec ∧ d.createHandler = some (spec, onComplete)
  declarations : d.declarations = calls.filterMap BuilderCall.declaration?
  state : DeclarationsFit d.declarations
  globalSchema : d.globalSchema.uints.toNat = declaredKeys d.declarations .global .uint ∧
    d.globalSchema.byteSlices.toNat = declaredKeys d.declarations .global .bytes
  localSchema : d.localSchema.uints.toNat = declaredKeys d.declarations .local .uint ∧
    d.localSchema.byteSlices.toNat = declaredKeys d.declarations .local .bytes
  methods : List.Forall₂ (fun given spec =>
    Method.ofText given.1 = .ok spec.method ∧ spec.hints = given.2)
      (calls.filterMap BuilderCall.method?) d.methods
  defaults : ∀ spec ∈ d.methods, ∀ arg source, (arg, source) ∈ spec.hints.defaults →
    ∃ declared ∈ spec.method.args, declared.name = some arg
  structs : ∀ spec ∈ d.methods, ∀ arg hint, (arg, hint) ∈ spec.hints.structs →
    ∃ declared ∈ spec.method.args, declared.name = some arg

namespace DescriptionDraft

variable {name approval clear : String} {calls : List BuilderCall} {d : Description}
  {draft : DescriptionDraft}

theorem isSome_createHandler (h : Built (ofCalls name approval clear calls) d) :
    d.createHandler.isSome = true ↔
      ∃ name onComplete, .createHandler name onComplete ∈ calls := by
  have hcreate := createHandler_eq h
  rw [createHandler_ofCalls] at hcreate
  constructor
  · intro hsome
    cases hlast : (calls.filterMap BuilderCall.createHandler?).getLast? with
    | none =>
      rw [hcreate.1 hlast] at hsome
      exact absurd hsome nofun
    | some handler =>
      exact ⟨_, _, BuilderCall.mem_createHandlers.mp (List.mem_of_getLast? hlast)⟩
  · rintro ⟨method, onComplete, hmem⟩
    have hmem := BuilderCall.mem_createHandlers.mpr hmem
    obtain ⟨handler, hlast⟩ := Option.isSome_iff_exists.mp
      (List.getLast?_isSome.mpr (List.ne_nil_of_mem hmem))
    obtain ⟨spec, -, hspec⟩ := hcreate.2 handler.1 handler.2 hlast
    rw [hspec, Option.isSome_some]

theorem consistent_of_built (h : Built (ofCalls name approval clear calls) d) :
    Consistent calls d := by
  have hds : d.declarations = calls.filterMap BuilderCall.declaration? :=
    (congrArg Description.declarations h.parts).trans declarations_ofCalls
  have hfit := h.state
  have hmethods := forall₂_methods h
  have hcreate := createHandler_eq h
  obtain ⟨huints, hbytes, hlocalUints, hlocalBytes⟩ := toNat_schema h
  rw [declarations_ofCalls, ← hds] at hfit
  rw [methods_ofCalls] at hmethods
  rw [createHandler_ofCalls] at hcreate
  refine ⟨fun stage => ?_, ?_, isSome_createHandler h, ?_, hds, hfit, ⟨huints, hbytes⟩, ⟨hlocalUints, hlocalBytes⟩,
    hmethods.imp fun _ _ h => ⟨h.read, h.hints⟩, ?_, ?_⟩
  · rw [isSome_handler h, handlers_ofCalls]
    exact exists_congr fun name => BuilderCall.mem_handlers
  · intro before stage method after hsplit hlast
    have hfound : (ofCalls name approval clear calls).handlers.reverse.find? (·.1 = stage) =
        some (stage, method) := by
      rw [handlers_ofCalls, hsplit, BuilderCall.find?_handlers_of_last hlast]
    exact handler_eq_some h hfound
  · intro before method onComplete after hsplit hlast
    refine hcreate.2 method onComplete ?_
    rw [hsplit, BuilderCall.getLast?_createHandlers_of_last hlast]
  · intro spec hspec
    obtain ⟨_, -, hbuilt⟩ := exists_builtMethod h hspec
    exact hbuilt.defaults
  · intro spec hspec arg hint hhint
    obtain ⟨_, -, hbuilt⟩ := exists_builtMethod h hspec
    exact exists_declared_of_checkStruct (hbuilt.structs arg hint hhint)

/-- A description that was built is consistent with the calls of its builder, and none is built
from declarations that do not fit. -/
theorem consistent_of_build (name approval clear : String) (calls : List BuilderCall) :
    (∀ d, (ofCalls name approval clear calls).build = .ok d → Consistent calls d) ∧
    (¬ DeclarationsFit (calls.filterMap BuilderCall.declaration?) →
      ∃ why, why.IsStateFault ∧
        (ofCalls name approval clear calls).build = .error (.configuration why)) := by
  refine ⟨fun d h => consistent_of_built (built_of_build h), fun h => build_of_not_fit ?_⟩
  rwa [declarations_ofCalls]

/-- The handler for opting in is given twice. -/
def vault : List BuilderCall :=
  [.state { name := "total", scope := .global, kind := .uint },
    .state { name := "owners", scope := .local, kind := .bytes, reserved := some 16 },
    .method "enter()void" {},
    .method "pay((uint64,bool))void"
      { defaults := [("arg0", .method "enter")],
        structs := [("arg0",
          { name := "Payment", fields := [("amount", "uint64"), ("rush", "bool")] })] },
    .handler .optIn "enter", .createHandler "enter" .noOp, .handler .optIn "pay"]

theorem consistent_of_build_vault :
    (∃ d, (ofCalls "vault" "int 1" "int 1" vault).build = .ok d ∧ Consistent vault d) ∧
    ∃ why, why.IsStateFault ∧ (ofCalls "vault" "int 1" "int 1"
      (.state { name := "extra", scope := .local, kind := .uint } :: vault)).build =
        .error (.configuration why) := by
  have hbuilt : (ofCalls "vault" "int 1" "int 1" vault).build.toOption.isSome = true := by
    rfl
  constructor
  · cases h : (ofCalls "vault" "int 1" "int 1" vault).build with
    | error why =>
      rw [h] at hbuilt
      exact absurd hbuilt nofun
    | ok d => exact ⟨d, rfl, (consistent_of_build "vault" "int 1" "int 1" vault).1 d h⟩
  · refine (consistent_of_build "vault" "int 1" "int 1" _).2 fun h => ?_
    exact absurd h.localKeys (by decide)

end DescriptionDraft

end AppLedger
