import AppLedger.Client.Lifecycle
import AppLedger.Proofs.Client.Call
import AppLedger.Proofs.Effect

/-! The operations of a client, as what they are put together from: answers of the node, compiled
programs, and groups that are sent. On two networks an operation is put together alike. -/

namespace AppLedger.Client

open Effect

variable {σ τ : Type}

/-- What the call of a method does on completion. -/
def onComplete? (call : MethodCall) : Option OnComplete :=
  call.call.transaction.appCall?.map (·.onComplete)

theorem onComplete_of_methodCall {x : Context} {body : CallBody} {spec : MethodSpec}
    {args : List MethodArg} {o : CallOptions} {call : MethodCall}
    (h : methodCall x body spec args o = .ok call) : onComplete? call = some body.onComplete := by
  obtain ⟨ordered, resolved, -, -, hcall, -⟩ := methodCall_cases h
  obtain ⟨-, fee, htransaction⟩ := callTransaction_cases hcall
  rw [onComplete?, htransaction]
  rfl

/-- What a creation does on completion is what the method declares that creates the application. -/
theorem onComplete_of_creation {c : Client} {approval clear : Bytes} {pages : Option UInt64}
    {body : CallBody} (h : c.creation approval clear pages = .ok body) :
    body.onComplete = (c.app.createHandler.map Prod.snd).getD .noOp := by
  obtain ⟨size, -, h⟩ := bind_eq_ok.mp h
  obtain rfl := Except.ok.inj h
  rfl

theorem eq_of_groupOf {call : MethodCall} {g : AtomicGroup} (h : groupOf call = .ok g) :
    ({} : AtomicGroup).addMethodCall call = (.ok (), g) := by
  rw [groupOf] at h
  split at h
  · next hadd =>
    rw [hadd]
    exact congrArg _ (Except.ok.inj h)
  · cases h

inductive Operation
  | create (pages : Option UInt64) (o : CallOptions)
  | update (o : CallOptions)
  | delete (o : CallOptions)
  | optIn (o : CallOptions)
  | closeOut (o : CallOptions)
  | clearState (o : CallOptions)
  | call (method : String) (args : List MethodArg) (onComplete : OnComplete) (o : CallOptions)
  | addMethodCall (g : AtomicGroup) (method : String) (args : List MethodArg)
      (onComplete : OnComplete) (o : CallOptions)

namespace Operation

def Answer : Operation → Type
  | .create _ _ => Creation × Client
  | .update _ => String × Client
  | .delete _ | .optIn _ | .closeOut _ | .clearState _ => String
  | .call _ _ _ _ => Abi.Return
  | .addMethodCall _ _ _ _ _ => AtomicGroup

def perform (net : Network σ) (c : Client) : (op : Operation) → ClientEffect σ op.Answer
  | .create pages o => c.create net pages o
  | .update o => c.update net o
  | .delete o => c.delete net o
  | .optIn o => c.optIn net o
  | .closeOut o => c.closeOut net o
  | .clearState o => c.clearState net o
  | .call method args onComplete o => c.call net method args onComplete o
  | .addMethodCall g method args onComplete o => c.addMethodCall net g method args onComplete o

/-- What the call of a method that the operation makes does on completion, if it makes one. -/
def stage? (d : Description) : Operation → Option OnComplete
  | .create _ _ => d.createHandler.map Prod.snd
  | .update _ => (d.handler .updateApplication).map fun _ => .updateApplication
  | .delete _ => (d.handler .deleteApplication).map fun _ => .deleteApplication
  | .optIn _ => (d.handler .optIn).map fun _ => .optIn
  | .closeOut _ => (d.handler .closeOut).map fun _ => .closeOut
  | .clearState _ => none
  | .call _ _ onComplete _ | .addMethodCall _ _ _ onComplete _ =>
    if onComplete = .clearState then none else some onComplete

end Operation

/-! ## Effects on two networks -/

/-- A group of one addition. The method that is called, if there is one, is `Called`. -/
inductive Assembled (Called : MethodCall → Prop) : AtomicGroup → Prop
  | call {call : MethodCall} {g : AtomicGroup} (h : Called call)
      (hadd : ({} : AtomicGroup).addMethodCall call = (.ok (), g)) : Assembled Called g
  | bare {m : Member} {g : AtomicGroup} (hadd : ({} : AtomicGroup).addTransaction m = (.ok (), g)) :
      Assembled Called g

/-- Two effects of a client that are put together alike, on two networks: they ask the same of the
node, compile the programs, and send the same groups, which are of the kind `Sent`. -/
inductive Alongside (net : Network σ) (net' : Network τ) (c : Client) (Sent : AtomicGroup → Prop) :
    {α : Type} → ClientEffect σ α → ClientEffect τ α → Prop
  | ofExcept {α : Type} (r : Except ClientError α) :
      Alongside net net' c Sent (Effect.ofExcept r) (Effect.ofExcept r)
  | params :
      Alongside net net' c Sent (Session.ask net.node.params) (Session.ask net'.node.params)
  | application (app : UInt64) :
      Alongside net net' c Sent (Session.ask (net.node.application app))
        (Session.ask (net'.node.application app))
  | accountState (account : Address) (app : UInt64) (f : NodeError → ClientError) :
      Alongside net net' c Sent
        ((Session.onWorld (net.node.accountState account app)).mapError f)
        ((Session.onWorld (net'.node.accountState account app)).mapError f)
  | compile : Alongside net net' c Sent (c.compile net) (c.compile net')
  | send {g : AtomicGroup} (h : Sent g) (simulate : Bool) (maxRounds : Option Nat) :
      Alongside net net' c Sent (c.send net g simulate maxRounds) (c.send net' g simulate maxRounds)
  | bind {α β : Type} {x : ClientEffect σ α} {x' : ClientEffect τ α} {f : α → ClientEffect σ β}
      {f' : α → ClientEffect τ β} (hx : Alongside net net' c Sent x x')
      (hf : ∀ a, (∃ s t, Yields x s a t) → Alongside net net' c Sent (f a) (f' a)) :
      Alongside net net' c Sent (x >>= f) (x' >>= f')

/-- The effect sends nothing but groups of the kind. -/
abbrev SendsOnly (net : Network σ) (c : Client) (Sent : AtomicGroup → Prop) {α : Type}
    (x : ClientEffect σ α) : Prop :=
  Alongside net net c Sent x x

variable {net : Network σ} {net' : Network τ} {c : Client} {Sent : AtomicGroup → Prop}
  {x : Context} {body : CallBody} {o : CallOptions} {α β : Type}

theorem Alongside.mono {Sent' : AtomicGroup → Prop} {x : ClientEffect σ α} {x' : ClientEffect τ α}
    (h : ∀ g, Sent g → Sent' g) (hx : Alongside net net' c Sent x x') :
    Alongside net net' c Sent' x x' := by
  induction hx with
  | ofExcept r => exact .ofExcept r
  | params => exact .params
  | application app => exact .application app
  | accountState account app f => exact .accountState account app f
  | compile => exact .compile
  | send hg simulate maxRounds => exact .send (h _ hg) simulate maxRounds
  | bind _ _ ihx ihf => exact .bind ihx ihf

theorem alongside_pure (a : α) :
    Alongside net net' c Sent (pure a : ClientEffect σ α) (pure a) :=
  .ofExcept (.ok a)

theorem alongside_throw (why : ClientError) :
    Alongside net net' c Sent (throw why : ClientEffect σ α) (throw why) :=
  .ofExcept (.error why)

theorem alongside_throw_bind {why : ClientError} {f : α → ClientEffect σ β}
    {f' : α → ClientEffect τ β} :
    Alongside net net' c Sent (throw why >>= f) (throw why >>= f') := by
  refine .bind (alongside_throw why) fun a ha => ?_
  obtain ⟨s, t, hyields⟩ := ha
  exact absurd hyields not_yields_throw

theorem alongside_ofExcept_bind {r : Except ClientError α} {f : α → ClientEffect σ β}
    {f' : α → ClientEffect τ β} (hf : ∀ a, r = .ok a → Alongside net net' c Sent (f a) (f' a)) :
    Alongside net net' c Sent (Effect.ofExcept r >>= f) (Effect.ofExcept r >>= f') := by
  refine .bind (.ofExcept r) fun a ha => ?_
  obtain ⟨s, t, hyields⟩ := ha
  exact hf a (yields_ofExcept.mp hyields).1

theorem alongside_mapM {f : α → ClientEffect σ β} {f' : α → ClientEffect τ β}
    (hf : ∀ a, Alongside net net' c Sent (f a) (f' a)) (as : List α) :
    Alongside net net' c Sent (as.mapM f) (as.mapM f') := by
  induction as with
  | nil => exact alongside_pure []
  | cons a as ih =>
    rw [List.mapM_cons, List.mapM_cons]
    exact .bind (hf a) fun b _ => .bind ih fun bs _ => alongside_pure (b :: bs)

theorem alongside_context : Alongside net net' c Sent (c.context net o) (c.context net' o) := by
  refine alongside_ofExcept_bind fun signer _ => alongside_ofExcept_bind fun sender _ => ?_
  refine .bind ?_ fun params _ => alongside_pure _
  rw [paramsFor, paramsFor]
  cases o.params.or c.params with
  | some params => exact alongside_pure params
  | none => exact .params

theorem alongside_applicationState :
    Alongside net net' c Sent (c.applicationState net) (c.applicationState net') :=
  alongside_ofExcept_bind fun app _ => .bind (.application app) fun _ _ => alongside_pure _

theorem alongside_accountState (account : Address) :
    Alongside net net' c Sent (c.accountState net account) (c.accountState net' account) :=
  alongside_ofExcept_bind fun app _ =>
    .bind (alongside_pure account) fun account _ => .accountState account app _

/-! ## The groups that are sent -/

theorem onComplete_of_resolvedCall {spec : MethodSpec} {args : List MethodArg} {s t : Session σ}
    {call : MethodCall} (h : Yields (c.resolvedCall net x body spec args o) s call t) :
    onComplete? call = some body.onComplete := by
  obtain ⟨args', u, -, h⟩ := yields_bind.mp h
  exact onComplete_of_methodCall (yields_ofExcept.mp h).1

theorem onComplete_of_preparedCall {method : String} {args : List MethodArg}
    {onComplete : OnComplete} {s t : Session σ} {call : MethodCall}
    (h : Yields (c.preparedCall net method args onComplete o) s call t) :
    onComplete ≠ .clearState ∧ onComplete? call = some onComplete := by
  rw [preparedCall] at h
  by_cases hclear : onComplete = .clearState
  · simp only [if_pos hclear] at h
    exact absurd h not_yields_throw_bind
  · simp only [if_neg hclear] at h
    obtain ⟨app, -, h⟩ := yields_ofExcept_bind.mp h
    obtain ⟨spec, -, h⟩ := yields_ofExcept_bind.mp h
    obtain ⟨x, u, -, h⟩ := yields_bind.mp h
    exact ⟨hclear, onComplete_of_resolvedCall h⟩

/-- What a client adds to a group is one call of a method, which does what it is asked to do on
completion, and does not clear the state. -/
theorem added_of_addMethodCall {g g' : AtomicGroup} {method : String} {args : List MethodArg}
    {onComplete : OnComplete} {s t : Session σ}
    (h : Yields (c.addMethodCall net g method args onComplete o) s g' t) :
    onComplete ≠ .clearState ∧ ∃ call, onComplete? call = some onComplete ∧
      g.addMethodCall call = (.ok (), g') := by
  obtain ⟨call, u, hcall, h⟩ := yields_bind.mp h
  obtain ⟨hclear, hstage⟩ := onComplete_of_preparedCall hcall
  refine ⟨hclear, call, hstage, ?_⟩
  split at h
  · next hadd =>
    obtain ⟨rfl, -⟩ := yields_pure.mp h
    exact hadd
  · exact absurd h not_yields_throw

theorem added_of_lifecycleGroup {spec : MethodSpec} {g : AtomicGroup} {s t : Session σ}
    (h : Yields (c.lifecycleGroup net x body (some spec) o) s g t) :
    ∃ call, onComplete? call = some body.onComplete ∧
      ({} : AtomicGroup).addMethodCall call = (.ok (), g) := by
  obtain ⟨call, u, hcall, h⟩ := yields_bind.mp h
  exact ⟨call, onComplete_of_resolvedCall hcall, eq_of_groupOf (yields_ofExcept.mp h).1⟩

theorem assembled_of_lifecycleGroup {handler : Option MethodSpec} {g : AtomicGroup}
    {s t : Session σ} (h : Yields (c.lifecycleGroup net x body handler o) s g t) :
    Assembled (fun call => handler.isSome ∧ onComplete? call = some body.onComplete) g := by
  cases handler with
  | some spec =>
    obtain ⟨call, hstage, hadd⟩ := added_of_lifecycleGroup h
    exact .call ⟨rfl, hstage⟩ hadd
  | none =>
    obtain ⟨member, -, h⟩ := yields_ofExcept_bind.mp h
    split at h
    · next hadd =>
      obtain ⟨rfl, -⟩ := yields_pure.mp h
      exact .bare hadd
    · exact absurd h not_yields_throw

theorem Assembled.mono {Called Called' : MethodCall → Prop} {g : AtomicGroup}
    (h : ∀ call, Called call → Called' call) (hg : Assembled Called g) : Assembled Called' g := by
  cases hg with
  | call hcalled hadd => exact .call (h _ hcalled) hadd
  | bare hadd => exact .bare hadd

/-! ## Operations on two networks -/

section Called

variable {Called : MethodCall → Prop}
  (hdefault : ∀ call, onComplete? call = some .noOp → Called call)

include hdefault

theorem alongside_defaultOfMethod (name : String) :
    Alongside net net' c (Assembled Called) (c.defaultOfMethod net x name)
      (c.defaultOfMethod net' x name) := by
  refine alongside_ofExcept_bind fun spec _ => ?_
  by_cases hargs : spec.method.args.isEmpty = true
  · simp only [if_pos hargs]
    refine alongside_ofExcept_bind fun app _ => alongside_ofExcept_bind fun call hcall => ?_
    refine alongside_ofExcept_bind fun g hg => ?_
    have hcalled : Called call := hdefault call (onComplete_of_methodCall hcall)
    refine .bind (.send (.call hcalled (eq_of_groupOf hg)) _ _) fun result _ => ?_
    exact .bind (.ofExcept _) fun r _ => alongside_pure _
  · simp only [if_neg hargs]
    exact alongside_throw_bind

theorem alongside_fillDefault (spec : MethodSpec) (declared : Abi.Arg) (arg : MethodArg) :
    Alongside net net' c (Assembled Called) (c.fillDefault net x spec declared arg)
      (c.fillDefault net' x spec declared arg) := by
  cases arg with
  | byDefault =>
    rw [fillDefault, fillDefault]
    cases spec.hints.default? (declared.name.getD "") with
    | none => exact alongside_throw _
    | some source =>
      cases source with
      | constant v => exact alongside_pure _
      | globalState key => exact .bind alongside_applicationState fun _ _ => .ofExcept _
      | localState key => exact .bind (alongside_accountState _) fun _ _ => .ofExcept _
      | method name => exact alongside_defaultOfMethod hdefault name
  | _ => exact alongside_pure _

theorem alongside_resolvedCall (spec : MethodSpec) (args : List MethodArg) :
    Alongside net net' c (Assembled Called) (c.resolvedCall net x body spec args o)
      (c.resolvedCall net' x body spec args o) := by
  refine .bind ?_ fun args _ => .ofExcept _
  rw [fillDefaults, fillDefaults]
  by_cases hlength : args.length ≠ spec.method.args.length
  · rw [if_pos hlength, if_pos hlength]
    exact alongside_pure args
  · rw [if_neg hlength, if_neg hlength]
    exact alongside_mapM (fun _ => alongside_fillDefault hdefault spec _ _) _

theorem alongside_preparedCall (method : String) (args : List MethodArg) (onComplete : OnComplete) :
    Alongside net net' c (Assembled Called) (c.preparedCall net method args onComplete o)
      (c.preparedCall net' method args onComplete o) := by
  rw [preparedCall, preparedCall]
  by_cases hclear : onComplete = .clearState
  · simp only [if_pos hclear]
    exact alongside_throw_bind
  · simp only [if_neg hclear]
    refine alongside_ofExcept_bind fun app _ => alongside_ofExcept_bind fun spec _ => ?_
    exact .bind alongside_context fun x _ => alongside_resolvedCall hdefault spec args

theorem alongside_addMethodCall (g : AtomicGroup) (method : String) (args : List MethodArg)
    (onComplete : OnComplete) :
    Alongside net net' c (Assembled Called) (c.addMethodCall net g method args onComplete o)
      (c.addMethodCall net' g method args onComplete o) := by
  refine .bind (alongside_preparedCall hdefault method args onComplete) fun call _ => ?_
  split
  · exact alongside_pure _
  · exact alongside_throw _

theorem alongside_call (method : String) (args : List MethodArg) (onComplete : OnComplete)
    (hcalled : ∀ call, onComplete ≠ .clearState → onComplete? call = some onComplete →
      Called call) :
    Alongside net net' c (Assembled Called) (c.call net method args onComplete o)
      (c.call net' method args onComplete o) := by
  refine alongside_ofExcept_bind fun spec _ => ?_
  refine .bind (alongside_addMethodCall hdefault {} method args onComplete) fun g hg => ?_
  obtain ⟨s, t, hyields⟩ := hg
  obtain ⟨hclear, call, hstage, hadd⟩ := added_of_addMethodCall hyields
  exact .bind (.send (.call (hcalled call hclear hstage) hadd) _ _) fun _ _ => .ofExcept _

theorem alongside_sendLifecycle (handler : Option MethodSpec)
    (hcalled : ∀ call, handler.isSome → onComplete? call = some body.onComplete → Called call) :
    Alongside net net' c (Assembled Called) (c.sendLifecycle net body handler o)
      (c.sendLifecycle net' body handler o) := by
  refine .bind alongside_context fun x _ => .bind ?_ fun g hg => ?_
  · cases handler with
    | some spec =>
      exact .bind (alongside_resolvedCall hdefault spec _) fun call _ => .ofExcept _
    | none =>
      refine alongside_ofExcept_bind fun member _ => ?_
      split
      · exact alongside_pure _
      · exact alongside_throw _
  · obtain ⟨s, t, hyields⟩ := hg
    have hassembled := assembled_of_lifecycleGroup hyields
    exact .send (hassembled.mono fun call h => hcalled call h.1 h.2) _ _

theorem alongside_passStage (stage : OnComplete)
    (hcalled : ∀ call, (c.app.handler stage).isSome → onComplete? call = some stage → Called call) :
    Alongside net net' c (Assembled Called) (c.passStage net stage o)
      (c.passStage net' stage o) := by
  refine alongside_ofExcept_bind fun app _ => ?_
  exact .bind (alongside_sendLifecycle hdefault _ hcalled) fun _ _ => .ofExcept _

theorem alongside_clearState :
    Alongside net net' c (Assembled Called) (c.clearState net o) (c.clearState net' o) := by
  refine alongside_ofExcept_bind fun app _ => ?_
  refine .bind (alongside_sendLifecycle hdefault none fun call hnone => ?_) fun _ _ => .ofExcept _
  exact absurd hnone Bool.false_ne_true

theorem alongside_update
    (hcalled : ∀ call, (c.app.handler .updateApplication).isSome →
      onComplete? call = some .updateApplication → Called call) :
    Alongside net net' c (Assembled Called) (c.update net o) (c.update net' o) := by
  refine alongside_ofExcept_bind fun app _ => .bind .compile ?_
  rintro ⟨approval, clear⟩ -
  have hsent : Alongside net net' c (Assembled Called)
      (c.sendLifecycle net (replacement app approval clear) (c.app.handler .updateApplication) o)
      (c.sendLifecycle net' (replacement app approval clear) (c.app.handler .updateApplication) o) :=
    alongside_sendLifecycle hdefault _ hcalled
  exact .bind hsent fun result _ => .bind (.ofExcept _) fun id _ => alongside_pure _

theorem alongside_create (pages : Option UInt64)
    (hcalled : ∀ call stage, c.app.createHandler.map Prod.snd = some stage →
      onComplete? call = some stage → Called call) :
    Alongside net net' c (Assembled Called) (c.create net pages o) (c.create net' pages o) := by
  rw [create, create]
  by_cases happ : c.appId ≠ 0
  · simp only [if_pos happ]
    exact alongside_throw_bind
  · simp only [if_neg happ]
    refine .bind .compile fun (approval, clear) _ => ?_
    refine alongside_ofExcept_bind fun body hbody => ?_
    have hstage := onComplete_of_creation (mapError_eq_ok.mp hbody)
    refine .bind (alongside_sendLifecycle hdefault _ fun call hhandler hcall => ?_) fun _ _ => ?_
    · rw [Option.isSome_map] at hhandler
      obtain ⟨handler, hhandler⟩ := Option.isSome_iff_exists.mp hhandler
      have hsnd : c.app.createHandler.map Prod.snd = some handler.2 := by rw [hhandler]; rfl
      rw [hsnd] at hstage
      exact hcalled call handler.2 hsnd (hcall.trans (congrArg some hstage))
    · split
      · exact alongside_throw _
      · exact .bind (.ofExcept _) fun id _ => alongside_pure _

end Called

/-- The calls of methods that an operation may make: those that stand in for arguments, and its
own. -/
def Operation.Calls (d : Description) (op : Operation) (call : MethodCall) : Prop :=
  ∃ stage, onComplete? call = some stage ∧ (stage = .noOp ∨ op.stage? d = some stage)

/-- An operation goes on alike on all networks, and sends nothing but groups of one addition each:
one of its calls of a method, or a transaction that calls no method. -/
theorem alongside_perform (op : Operation) :
    Alongside net net' c (Assembled (op.Calls c.app)) (op.perform net c) (op.perform net' c) := by
  have hdefault : ∀ call, onComplete? call = some .noOp → op.Calls c.app call :=
    fun call hcall => ⟨.noOp, hcall, .inl rfl⟩
  have hown : ∀ call stage, op.stage? c.app = some stage → onComplete? call = some stage →
      op.Calls c.app call :=
    fun call stage hstage hcall => ⟨stage, hcall, .inr hstage⟩
  have hhandled {stage : OnComplete}
      (hstage : op.stage? c.app = (c.app.handler stage).map fun _ => stage) (call : MethodCall)
      (hhandler : (c.app.handler stage).isSome) (hcall : onComplete? call = some stage) :
      op.Calls c.app call := by
    obtain ⟨spec, hspec⟩ := Option.isSome_iff_exists.mp hhandler
    rw [hspec] at hstage
    exact hown call stage hstage hcall
  cases op with
  | create pages o => exact alongside_create hdefault pages hown
  | update o => exact alongside_update hdefault (hhandled rfl)
  | delete o => exact alongside_passStage hdefault .deleteApplication (hhandled rfl)
  | optIn o => exact alongside_passStage hdefault .optIn (hhandled rfl)
  | closeOut o => exact alongside_passStage hdefault .closeOut (hhandled rfl)
  | clearState o => exact alongside_clearState hdefault
  | call method args onComplete o =>
    refine alongside_call hdefault method args onComplete fun call hclear hcall => ?_
    exact hown call onComplete (if_neg hclear) hcall
  | addMethodCall g method args onComplete o =>
    exact alongside_addMethodCall hdefault g method args onComplete

/-! ## Where operations lead -/

/-- The effect on a group that is sent or simulated. -/
abbrev sending (net : Network σ) (simulate : Bool) (maxRounds : Option Nat) :
    AtomicGroup.GroupEffect σ GroupResult :=
  if simulate then AtomicGroup.simulate net else AtomicGroup.execute net maxRounds

section Leads

variable {rel : Session σ → Session σ → Prop}

/-- What an operation is put together from leads as `rel` says, and so do several effects in
turn. -/
structure PartsLead (rel : Session σ → Session σ → Prop) (net : Network σ) (c : Client) : Prop where
  refl : ∀ s, rel s s
  trans : ∀ {s t u}, rel s t → rel t u → rel s u
  params : Leads rel (Session.onWorld net.node.params)
  application : ∀ app, Leads rel (Session.onWorld (net.node.application app))
  accountState : ∀ account app, Leads rel (Session.onWorld (net.node.accountState account app))
  sending : ∀ g simulate maxRounds, Leads rel (withGroup g (sending net simulate maxRounds))
  approvalProgram : Leads rel (approvalProgram net c)
  compile : Leads rel (c.compile net)

/-- To explain an error takes the approval program, and nothing else of the world. -/
theorem leads_explain (hrefl : ∀ s, rel s s) (htrans : ∀ {s t u}, rel s t → rel t u → rel s u)
    (h : Leads rel (approvalProgram net c)) (why : ClientError) :
    Leads rel (c.explain net why) := by
  cases why with
  | submission reason =>
    rw [explain]
    cases LogicError.Report.ofText? reason with
    | none => exact hrefl
    | some report =>
      by_cases hforeign : c.isForeign report = true
      · simp only [if_pos hforeign]
        exact hrefl
      · simp only [if_neg hforeign, approvalLine]
        have hobserve : Leads rel (observe (approvalProgram net c) : ClientEffect σ _) := h
        refine Leads.bind @htrans (hobserve.bind @htrans fun r => ?_) fun _ => hrefl
        rcases r with _ | ⟨program, _⟩ <;> exact hrefl
  | _ => exact hrefl

namespace PartsLead

variable (h : PartsLead rel net c)

include h

theorem send (g : AtomicGroup) (simulate : Bool) (maxRounds : Option Nat) :
    Leads rel (c.send net g simulate maxRounds) := by
  have htrans {s t u : Session σ} : rel s t → rel t u → rel s u := h.trans
  have hobserve : Leads rel (observe (withGroup g (Client.sending net simulate maxRounds)) :
      ClientEffect σ _) := h.sending g simulate maxRounds
  refine hobserve.bind @htrans fun r => ?_
  rcases r with why | result
  · exact (leads_explain h.refl @htrans h.approvalProgram why).bind @htrans fun _ => h.refl
  · exact h.refl

theorem alongside {x : ClientEffect σ α} {x' : ClientEffect τ α}
    (hx : Alongside net net' c Sent x x') : Leads rel x := by
  induction hx with
  | ofExcept r => exact h.refl
  | params => exact h.params
  | application app => exact h.application app
  | accountState account app f => exact h.accountState account app
  | compile => exact h.compile
  | send _ simulate maxRounds => exact h.send _ simulate maxRounds
  | bind _ _ ihx ihf =>
    refine Leads.bind_yields ?_ ihx ihf
    exact h.trans

end PartsLead

end Leads

end AppLedger.Client
