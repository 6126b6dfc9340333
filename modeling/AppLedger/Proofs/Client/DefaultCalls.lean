import AppLedger.Proofs.AtomicGroup.Signing
import AppLedger.Proofs.Client.Call
import AppLedger.Proofs.Client.Sending
import AppLedger.Proofs.Ledger.Run

/-! What a call hands to a ledger before one of its arguments turns out to be bad: calls of the
methods that stand in for arguments that were left out, and nothing else. -/

namespace AppLedger

open Effect

/-! ## Calls without arguments -/

/-- A group that is a call of the method, and nothing else. -/
def IsBareCall (app : UInt64) (m : Abi.Method) (group : List SignedTransaction) : Prop :=
  ∃ stxn header selector, group = [stxn] ∧ m.selector = .ok selector ∧
    stxn.transaction = .appCall { header, app, onComplete := .noOp, args := some [selector] }

theorem MethodArg.resolve_nil {m : Abi.Method} {sender : Address} {app : UInt64}
    {resolved : ResolvedCall} (h : resolve m [] sender app {} = .ok resolved) :
    ∃ selector, m.selector = .ok selector ∧
      resolved = { args := [selector], references := {}, transactions := [] } := by
  obtain ⟨hlength, _, p, selector, encoded, hpack, -, hselector, hencoded, rfl⟩ := resolve_cases h
  have hnil : m.args = [] := List.length_eq_zero_iff.mp hlength.symm
  rw [hnil] at hpack
  obtain rfl := Except.ok.inj hpack
  obtain rfl := Except.ok.inj hencoded
  exact ⟨selector, hselector, rfl⟩

namespace Client

variable {compiler : Compiler Ledger} {c : Client} {s s' : Session Ledger} {x : Context}
  {why : BadArgument}

theorem methodCall_nil {app : UInt64} {spec : MethodSpec} {call : MethodCall}
    (h : methodCall x { app, onComplete := .noOp } spec [] {} = .ok call) :
    call.before = [] ∧ ∃ header selector, spec.method.selector = .ok selector ∧
      call.call.transaction =
        .appCall { header, app, onComplete := .noOp, args := some [selector] } := by
  obtain ⟨ordered, resolved, hordered, hresolved, hmember, hbefore⟩ := methodCall_cases h
  obtain rfl := Except.ok.inj hordered
  obtain ⟨selector, hselector, rfl⟩ := MethodArg.resolve_nil hresolved
  obtain ⟨-, fee, htransaction⟩ := callTransaction_cases hmember
  exact ⟨hbefore, _, selector, hselector, htransaction⟩

/-! ## Arguments that are left out -/

/-- The groups are bare calls of the methods, one after the other. -/
def BareCalls (c : Client) (ms : List MethodSpec) (groups : List (List SignedTransaction)) : Prop :=
  List.Forall₂ (fun m group => IsBareCall c.appId m.method group) ms groups

/-- The effect calls the methods, one after the other. It may come across a bad argument when it
has called some of them. -/
structure Calls {α : Type} (c : Client) (ms : List MethodSpec) (y : ClientEffect Ledger α) :
    Prop where
  yields : ∀ s a s', Yields y s a s' →
    ∃ groups, c.BareCalls ms groups ∧ s'.world = s.world.submitAll groups
  fails : ∀ s why s', Fails y s (.argument why) s' →
    ∃ called groups, called <+: ms ∧ c.BareCalls called groups ∧
      s'.world = s.world.submitAll groups

namespace Calls

variable {α β : Type} {ms ms' : List MethodSpec} {y : ClientEffect Ledger α}

theorem of_keeps (h : Keeps Session.world y) : Calls c [] y where
  yields _ _ _ hy := ⟨[], .nil, h.of_yields hy⟩
  fails _ _ _ hy := ⟨[], [], List.nil_prefix, .nil, h.of_fails hy⟩

theorem bind {f : α → ClientEffect Ledger β} (hy : Calls c ms y) (hf : ∀ a, Calls c ms' (f a)) :
    Calls c (ms ++ ms') (y >>= f) where
  yields s b s' h := by
    obtain ⟨a, t, hyields, hrest⟩ := yields_bind.mp h
    obtain ⟨groups, hcalls, hsent⟩ := hy.yields s a t hyields
    obtain ⟨groups', hcalls', hsent'⟩ := (hf a).yields t b s' hrest
    exact ⟨groups ++ groups', List.rel_append hcalls hcalls',
      Ledger.eq_submitAll_append hsent hsent'⟩
  fails s why s' h := by
    rcases fails_bind.mp h with hfails | ⟨a, t, hyields, hrest⟩
    · obtain ⟨called, groups, hprefix, hcalls, hsent⟩ := hy.fails s why s' hfails
      exact ⟨called, groups, hprefix.trans (List.prefix_append ms ms'), hcalls, hsent⟩
    · obtain ⟨groups, hcalls, hsent⟩ := hy.yields s a t hyields
      obtain ⟨called, groups', hprefix, hcalls', hsent'⟩ := (hf a).fails t why s' hrest
      exact ⟨ms ++ called, groups ++ groups', (List.prefix_append_right_inj ms).mpr hprefix,
        List.rel_append hcalls hcalls', Ledger.eq_submitAll_append hsent hsent'⟩

theorem mapM {f : α → ClientEffect Ledger β} {called? : α → Option MethodSpec} {as : List α}
    (h : ∀ a, Calls c (called? a).toList (f a)) : Calls c (as.filterMap called?) (as.mapM f) := by
  induction as with
  | nil => exact .of_keeps keeps_pure
  | cons a as ih =>
    have hlist :
        (a :: as).filterMap called? = (called? a).toList ++ (as.filterMap called? ++ []) := by
      rw [List.append_nil]
      cases ha : called? a with
      | none => rw [List.filterMap_cons_none ha]; rfl
      | some m => rw [List.filterMap_cons_some ha]; rfl
    rw [hlist, List.mapM_cons]
    exact (h a).bind fun _ => ih.bind fun _ => .of_keeps keeps_pure

end Calls

/-- The method that is called for good for what it returns. -/
def sentMethod? (c : Client) (name : String) : Option MethodSpec :=
  (c.app.method name).toOption.filter (!·.hints.readOnly)

/-- The method that is called for good for the sake of an argument. -/
def defaultMethod? (c : Client) (spec : MethodSpec) (declared : Abi.Arg) :
    MethodArg → Option MethodSpec
  | .byDefault =>
    match spec.hints.default? (declared.name.getD "") with
    | some (.method name) => c.sentMethod? name
    | _ => none
  | _ => none

/-- The methods that are called for good for the sake of the arguments, in their order. -/
def defaultMethods (c : Client) (method : String) (args : List MethodArg) : List MethodSpec :=
  match c.app.method method with
  | .ok spec => (spec.method.args.zip args).filterMap fun a => c.defaultMethod? spec a.1 a.2
  | .error _ => []

theorem defaultOfMethod_yields {name : String} {a : MethodArg}
    (h : Yields (c.defaultOfMethod (Ledger.network compiler) x name) s a s') :
    ∃ groups, c.BareCalls (c.sentMethod? name).toList groups ∧
      s'.world = s.world.submitAll groups := by
  rw [defaultOfMethod, yields_ofExcept_bind] at h
  obtain ⟨spec, hspec, h⟩ := h
  by_cases hargs : spec.method.args.isEmpty = true
  · simp only [if_pos hargs, yields_ofExcept_bind] at h
    obtain ⟨app, happ, call, hcall, group, hgroup, h⟩ := h
    rw [yields_bind] at h
    obtain ⟨result, t, hsend, h⟩ := h
    rw [yields_ofExcept_bind] at h
    obtain ⟨r, -, hpure⟩ := h
    obtain ⟨-, rfl⟩ := yields_pure.mp hpure
    have hsent := send_yields hsend
    rw [sentMethod?, mapError_eq_ok.mp hspec]
    by_cases hreadOnly : spec.hints.readOnly = true
    · rw [if_pos hreadOnly] at hsent
      refine ⟨[], ?_, hsent⟩
      rw [Except.toOption, Option.filter_some_neg (by rw [hreadOnly]; rfl)]
      exact .nil
    · rw [if_neg hreadOnly] at hsent
      obtain ⟨signed, hgather, hsubmitted⟩ := hsent
      obtain ⟨hbefore, header, selector, hselector, htransaction⟩ := methodCall_nil hcall
      rw [groupOf_single hbefore hgroup] at hgather
      obtain ⟨stxn, rfl, hstxn⟩ := AtomicGroup.gatherSignatures_single (Prod.ext hgather rfl)
      refine ⟨[[stxn]], ?_, hsubmitted⟩
      rw [Except.toOption, Option.filter_some_pos (by simpa using hreadOnly)]
      rw [htransaction, ← (deployedId_eq_ok.mp happ).2] at hstxn
      exact .cons ⟨stxn, header, selector, rfl, hselector, hstxn⟩ .nil
  · simp only [if_neg hargs] at h
    exact absurd h not_yields_throw_bind

theorem defaultOfMethod_fails {name : String}
    (h : Fails (c.defaultOfMethod (Ledger.network compiler) x name) s (.argument why) s') :
    s'.world = s.world := by
  rw [defaultOfMethod, fails_ofExcept_bind] at h
  rcases h with ⟨-, rfl⟩ | ⟨spec, -, h⟩
  · rfl
  by_cases hargs : spec.method.args.isEmpty = true
  · simp only [if_pos hargs, fails_ofExcept_bind] at h
    rcases h with ⟨-, rfl⟩ | ⟨app, -, ⟨-, rfl⟩ | ⟨call, -, ⟨-, rfl⟩ | ⟨group, -, h⟩⟩⟩
    · rfl
    · rfl
    · rfl
    rcases fails_bind.mp h with hsend | ⟨result, t, -, h⟩
    · exact send_fails hsend
    · rcases fails_ofExcept_bind.mp h with ⟨hreturn, -⟩ | ⟨r, -, h⟩
      · exact absurd trivial (lastReturn_ne_argument hreturn)
      · exact absurd h not_fails_pure
  · simp only [if_neg hargs] at h
    obtain ⟨-, rfl⟩ := fails_throw_bind.mp h
    rfl

theorem calls_defaultOfMethod (compiler : Compiler Ledger) (c : Client) (x : Context)
    (name : String) :
    Calls c (c.sentMethod? name).toList (c.defaultOfMethod (Ledger.network compiler) x name) where
  yields _ _ _ h := defaultOfMethod_yields h
  fails _ _ _ h := ⟨[], [], List.nil_prefix, .nil, defaultOfMethod_fails h⟩

theorem keeps_applicationState :
    Keeps Session.world (c.applicationState (Ledger.network compiler)) := by
  rw [applicationState]
  refine keeps_ofExcept.bind fun app => ?_
  have happlication : Keeps id (Ledger.node.application app) := keeps_read
  exact (keeps_ask happlication).bind fun _ => keeps_pure

theorem keeps_accountState (account : Address) :
    Keeps Session.world (c.accountState (Ledger.network compiler) (some account)) := by
  rw [accountState]
  refine keeps_ofExcept.bind fun app => keeps_pure.bind fun account => ?_
  have haccount : Keeps id (Ledger.node.accountState account app) := keeps_read
  exact (keeps_onWorld haccount).mapError

theorem calls_fillDefault (compiler : Compiler Ledger) (c : Client) (x : Context)
    (spec : MethodSpec) (declared : Abi.Arg) (arg : MethodArg) :
    Calls c (c.defaultMethod? spec declared arg).toList
      (c.fillDefault (Ledger.network compiler) x spec declared arg) := by
  cases arg with
  | byDefault =>
    rw [fillDefault, defaultMethod?]
    cases hdefault : spec.hints.default? (declared.name.getD "") with
    | none => exact .of_keeps keeps_throw
    | some source =>
      cases source with
      | constant v => exact .of_keeps keeps_pure
      | globalState key =>
        exact .of_keeps (keeps_applicationState.bind fun _ => keeps_ofExcept)
      | localState key =>
        exact .of_keeps ((keeps_accountState x.sender).bind fun _ => keeps_ofExcept)
      | method name => exact calls_defaultOfMethod compiler c x name
  | _ => exact .of_keeps keeps_pure

/-! ## Calls -/

/-- Whether the effect yields something or comes across a bad argument, it has called the first
ones of the methods. -/
def CallsSome {α : Type} (c : Client) (ms : List MethodSpec) (y : ClientEffect Ledger α) : Prop :=
  ∀ s s', (∃ a, Yields y s a s') ∨ (∃ why, Fails y s (.argument why) s') →
    ∃ called groups, called <+: ms ∧ c.BareCalls called groups ∧
      s'.world = s.world.submitAll groups

namespace CallsSome

variable {α β : Type} {ms : List MethodSpec} {y : ClientEffect Ledger α}

theorem of_calls (h : Calls c ms y) : CallsSome c ms y := by
  rintro s s' (⟨a, hyields⟩ | ⟨why, hfails⟩)
  · obtain ⟨groups, hcalls, hsent⟩ := h.yields s a s' hyields
    exact ⟨ms, groups, List.prefix_refl ms, hcalls, hsent⟩
  · exact h.fails s why s' hfails

theorem of_keeps (h : Keeps Session.world y) : CallsSome c ms y := by
  intro s s' hends
  have hworld : s'.world = s.world := by
    rcases hends with ⟨a, hyields⟩ | ⟨why, hfails⟩
    · exact h.of_yields hyields
    · exact h.of_fails hfails
  exact ⟨[], [], List.nil_prefix, .nil, hworld⟩

theorem bind_keeps {f : α → ClientEffect Ledger β} (hy : CallsSome c ms y)
    (hf : ∀ a, Keeps Session.world (f a)) : CallsSome c ms (y >>= f) := by
  rintro s s' (⟨b, hyields⟩ | ⟨why, hfails⟩)
  · obtain ⟨a, t, hyields, hrest⟩ := yields_bind.mp hyields
    rw [(hf a).of_yields hrest]
    exact hy s t (.inl ⟨a, hyields⟩)
  · rcases fails_bind.mp hfails with hfails | ⟨a, t, hyields, hrest⟩
    · exact hy s s' (.inr ⟨why, hfails⟩)
    · rw [(hf a).of_fails hrest]
      exact hy s t (.inl ⟨a, hyields⟩)

theorem keeps_bind {f : α → ClientEffect Ledger β} (hy : Keeps Session.world y)
    (hf : ∀ a, CallsSome c ms (f a)) : CallsSome c ms (y >>= f) := by
  rintro s s' (⟨b, hyields⟩ | ⟨why, hfails⟩)
  · obtain ⟨a, t, hyields, hrest⟩ := yields_bind.mp hyields
    rw [← hy.of_yields hyields]
    exact hf a t s' (.inl ⟨b, hrest⟩)
  · rcases fails_bind.mp hfails with hfails | ⟨a, t, hyields, hrest⟩
    · exact CallsSome.of_keeps hy s s' (.inr ⟨why, hfails⟩)
    · rw [← hy.of_yields hyields]
      exact hf a t s' (.inr ⟨why, hrest⟩)

theorem ofExcept_bind {r : Except ClientError α} {f : α → ClientEffect Ledger β}
    (hf : ∀ a, r = .ok a → CallsSome c ms (f a)) : CallsSome c ms (Effect.ofExcept r >>= f) := by
  rintro s s' (⟨b, hyields⟩ | ⟨why, hfails⟩)
  · obtain ⟨a, hr, hrest⟩ := yields_ofExcept_bind.mp hyields
    exact hf a hr s s' (.inl ⟨b, hrest⟩)
  · rcases fails_ofExcept_bind.mp hfails with ⟨-, rfl⟩ | ⟨a, hr, hrest⟩
    · exact ⟨[], [], List.nil_prefix, .nil, rfl⟩
    · exact hf a hr s s' (.inr ⟨why, hrest⟩)

end CallsSome

theorem keeps_context {σ τ : Type} {net : Network σ} {part : σ → τ}
    (hparams : Keeps part net.node.params) (o : CallOptions) :
    Keeps (fun s => part s.world) (c.context net o) := by
  rw [context]
  refine keeps_ofExcept.bind fun signer => keeps_ofExcept.bind fun sender => ?_
  refine Keeps.bind ?_ fun _ => keeps_pure
  rw [paramsFor]
  split
  · exact keeps_pure
  · exact keeps_ask hparams

theorem callsSome_fillDefaults (x : Context) (spec : MethodSpec) (args : List MethodArg) :
    CallsSome c ((spec.method.args.zip args).filterMap fun a => c.defaultMethod? spec a.1 a.2)
      (c.fillDefaults (Ledger.network compiler) x spec args) := by
  rw [fillDefaults]
  split
  · exact .of_keeps keeps_pure
  · exact .of_calls (.mapM fun a => calls_fillDefault compiler c x spec a.1 a.2)

theorem callsSome_preparedCall (method : String) (args : List MethodArg) (onComplete : OnComplete)
    (o : CallOptions) : CallsSome c (c.defaultMethods method args)
      (c.preparedCall (Ledger.network compiler) method args onComplete o) := by
  rw [preparedCall]
  by_cases hclear : onComplete = .clearState
  · simp only [if_pos hclear]
    exact .of_keeps keeps_throw_bind
  · simp only [if_neg hclear]
    refine .ofExcept_bind fun app _ => .ofExcept_bind fun spec hspec => ?_
    have hmethods : c.defaultMethods method args =
        (spec.method.args.zip args).filterMap fun a => c.defaultMethod? spec a.1 a.2 := by
      rw [defaultMethods, mapError_eq_ok.mp hspec]
    rw [hmethods]
    have hparams : Keeps id (Ledger.network compiler).node.params := keeps_read
    have hcontext : Keeps Session.world (c.context (Ledger.network compiler) o) :=
      keeps_context hparams o
    refine .keeps_bind hcontext fun x => ?_
    exact (callsSome_fillDefaults x spec args).bind_keeps fun _ => keeps_ofExcept

theorem callsSome_addMethodCall (g : AtomicGroup) (method : String) (args : List MethodArg)
    (onComplete : OnComplete) (o : CallOptions) : CallsSome c (c.defaultMethods method args)
      (c.addMethodCall (Ledger.network compiler) g method args onComplete o) := by
  rw [addMethodCall]
  refine (callsSome_preparedCall method args onComplete o).bind_keeps fun call => ?_
  split
  · exact keeps_pure
  · exact keeps_throw

theorem call_fails {method : String} {args : List MethodArg} {onComplete : OnComplete}
    {o : CallOptions} (h : Fails (c.call (Ledger.network compiler) method args onComplete o) s
      (.argument why) s') :
    ∃ called groups, called <+: c.defaultMethods method args ∧ c.BareCalls called groups ∧
      s'.world = s.world.submitAll groups := by
  rw [call, fails_ofExcept_bind] at h
  rcases h with ⟨-, rfl⟩ | ⟨spec, -, h⟩
  · exact ⟨[], [], List.nil_prefix, .nil, rfl⟩
  rcases fails_bind.mp h with hadd | ⟨g, t, hadd, h⟩
  · exact callsSome_addMethodCall _ _ _ _ _ s s' (.inr ⟨why, hadd⟩)
  rcases fails_bind.mp h with hsend | ⟨result, u, -, hreturn⟩
  · rw [send_fails hsend]
    exact callsSome_addMethodCall _ _ _ _ _ s t (.inl ⟨g, hadd⟩)
  · exact absurd trivial (lastReturn_ne_argument (fails_ofExcept.mp hreturn).1)

/-- Before an argument turns out to be bad, the ledger has been sent calls of the first ones of the
methods that stand in for arguments, and nothing else. -/
theorem submitAll_of_argument_error (compiler : Compiler Ledger) (c : Client)
    (method : String) (args : List MethodArg) (onComplete : OnComplete) (o : CallOptions)
    (why : BadArgument) (s s' : Session Ledger)
    (h : Fails (c.call (Ledger.network compiler) method args onComplete o) s (.argument why) s' ∨
      ∃ g, Fails (c.addMethodCall (Ledger.network compiler) g method args onComplete o) s
        (.argument why) s') :
    ∃ called groups, called <+: c.defaultMethods method args ∧ c.BareCalls called groups ∧
      s'.world = s.world.submitAll groups ∧
      s'.world.submitted = s.world.submitted ++ groups := by
  have hcalls : ∃ called groups, called <+: c.defaultMethods method args ∧
      c.BareCalls called groups ∧ s'.world = s.world.submitAll groups := by
    rcases h with hcall | ⟨g, hadd⟩
    · exact call_fails hcall
    · exact callsSome_addMethodCall g method args onComplete o s s' (.inr ⟨why, hadd⟩)
  obtain ⟨called, groups, hprefix, hbare, hworld⟩ := hcalls
  exact ⟨called, groups, hprefix, hbare, hworld, hworld ▸ Ledger.submitted_submitAll _ _⟩

/-! ## A default that is too large -/

/-- The method `set` takes a byte, which is left to what the method `next` returns. -/
def counterClient : Client where
  app :=
    { name := "counter", approval := "int 1", clear := "int 1", version := 8
      declarations := [], handlers := [], createMethod := none
      methods :=
        [{ method := { name := "next", returns := some .uint64 } },
          { method := { name := "set", args := [{ type := .value .uint8, name := some "arg0" }] }
            hints := { defaults := [("arg0", .method "next")] } }] }
  family := 0
  appId := 1001
  signer := some ⟨0, .logicSig { logic := [8, 1] }⟩

/-- The method `next` returns 300 on it. -/
def counterLedger : Ledger where
  state := { apps := Table.empty.put 1001 ⟨.zero, [1], [2], {}, {}, 0, .empty⟩ }
  programs :=
    { approvals := Table.empty.put [1] fun _ =>
        .ok { logs := [Abi.returnPrefix ++ [0, 0, 0, 0, 0, 0, 1, 44]] } }

/-- How many groups have been sent when a call ends with a bad argument. -/
def sentBeforeArgument {α : Type} : Except ClientError α × Session Ledger → Nat
  | (.error (.argument _), s) => s.world.submitted.length
  | _ => 0

theorem counterClient_call_fails :
    ∃ why s', Fails
      (counterClient.call (Ledger.network Ledger.compiler) "set" [.byDefault] .noOp {})
      { world := counterLedger } (.argument why) s' ∧ s'.world.submitted.length = 1 := by
  generalize hend : outcome (counterClient.call (Ledger.network Ledger.compiler) "set" [.byDefault]
    .noOp {}) { world := counterLedger } = ending
  have hcheck : sentBeforeArgument ending = 1 := by
    rw [← hend]
    decide +kernel
  rcases ending with ⟨(e | r), s'⟩
  · cases e with
    | argument why => exact ⟨why, s', hend, hcheck⟩
    | _ => simp [sentBeforeArgument] at hcheck
  · simp [sentBeforeArgument] at hcheck

theorem submitAll_of_argument_error_counter :
    ∃ why s', Fails
        (counterClient.call (Ledger.network Ledger.compiler) "set" [.byDefault] .noOp {})
        { world := counterLedger } (.argument why) s' ∧
      ∃ called groups, called <+: counterClient.defaultMethods "set" [.byDefault] ∧
        counterClient.BareCalls called groups ∧ s'.world = counterLedger.submitAll groups ∧
        s'.world.submitted = counterLedger.submitted ++ groups ∧ groups.length = 1 := by
  obtain ⟨why, s', hfails, hlength⟩ := counterClient_call_fails
  obtain ⟨called, groups, hprefix, hbare, hworld, hsubmitted⟩ :=
    submitAll_of_argument_error _ _ _ _ _ _ _ _ _ (.inl hfails)
  rw [hsubmitted] at hlength
  exact ⟨why, s', hfails, called, groups, hprefix, hbare, hworld, hsubmitted, hlength⟩

/-- The call of `next` is confirmed before what it returns is found to be too large. -/
theorem submitted_before_argument_error :
    ∃ why s', Fails
        (counterClient.call (Ledger.network Ledger.compiler) "set" [.byDefault] .noOp {})
        { world := counterLedger } (.argument why) s' ∧
      s'.world.submitted ≠ counterLedger.submitted ∧ s'.world ≠ counterLedger := by
  obtain ⟨why, s', hfails, hlength⟩ := counterClient_call_fails
  have hsubmitted : s'.world.submitted ≠ counterLedger.submitted := by
    intro hsame
    rw [hsame] at hlength
    exact absurd hlength (by decide)
  exact ⟨why, s', hfails, hsubmitted, fun hworld => hsubmitted (congrArg _ hworld)⟩

end Client

end AppLedger
