import AppLedger.Proofs.Client.Argument
import AppLedger.Proofs.Client.LedgerRun
import AppLedger.Proofs.Client.Undeployed
import AppLedger.Proofs.Ledger.Creation

/-! The creation of an application by a client, from the compiler to the record that the ledger
keeps. Before its application exists a client has no state to take defaults from and no method to
call, so that the call of the creation is alone in its group. -/

namespace AppLedger

open Effect

/-! ## Arguments without transactions -/

namespace MethodArg

variable {m : Abi.Method} {hints : MethodHints} {args ordered : List MethodArg} {arg arg' : MethodArg}

theorem member?_orderFields {name : String} (h : orderFields m hints name arg = .ok arg') :
    arg'.member? = arg.member? := by
  unfold orderFields at h
  split at h
  · split at h
    · cases h
    · obtain ⟨⟨values, unused⟩, -, h⟩ := bind_eq_ok.mp h
      cases unused with
      | nil =>
        obtain rfl := Except.ok.inj h
        rfl
      | cons field _ => exact absurd h throw_ne_ok
  · obtain rfl := Except.ok.inj h
    rfl

theorem members_orderAllFields {declared : List Abi.Arg}
    (h : orderAllFields m hints declared args = .ok ordered) :
    ordered.filterMap member? = args.filterMap member? := by
  induction args generalizing declared ordered with
  | nil =>
    obtain rfl := Except.ok.inj h
    rfl
  | cons arg args ih =>
    obtain ⟨arg', harg, h⟩ := bind_eq_ok.mp h
    obtain ⟨args', hargs, h⟩ := bind_eq_ok.mp h
    obtain rfl := Except.ok.inj h
    rw [List.filterMap_cons, List.filterMap_cons, member?_orderFields harg, ih hargs]

theorem transactions_resolve {sender : Address} {app : UInt64} {references : References}
    {call : ResolvedCall} (h : resolve m args sender app references = .ok call) :
    call.transactions = args.filterMap member? := by
  obtain ⟨hlength, _, p, _, _, hpack, -, -, -, rfl⟩ := resolve_cases h
  obtain ⟨_, _, hpacks⟩ := packsAll_of_packFrom hlength hpack
  exact hpacks.members

end MethodArg

namespace Client

variable {σ : Type} {net : Network σ} {c : Client} {x : Context} {s s' : Session σ}
  {body : CallBody} {o : CallOptions}

/-! ## The call of the creation -/

/-- Whether through a method or bare, the call is alone in its group. -/
theorem lifecycleGroup_undeployed (happ : c.appId = 0) {handler : Option MethodSpec}
    {g : AtomicGroup} (h : Yields (c.lifecycleGroup net x body handler o) s g s') :
    s' = s ∧ ∃ member methods args refs fee, g = { members := [member], methods } ∧
      member.transaction = (Transaction.appCall (callFields x body args refs o)).withFee fee := by
  cases handler with
  | some spec =>
    obtain ⟨call, t, hcall, h⟩ := yields_bind.mp h
    obtain ⟨hgroup, rfl⟩ := yields_ofExcept.mp h
    obtain ⟨args, u, hargs, hresolved⟩ := yields_bind.mp hcall
    obtain ⟨hmethod, rfl⟩ := yields_ofExcept.mp hresolved
    obtain ⟨rfl, hmembers⟩ := (detached_fillDefaults happ).of_yields hargs
    obtain ⟨ordered, resolved, hordered, hresolved, hmember, hbefore⟩ := methodCall_cases hmethod
    obtain ⟨-, fee, htransaction⟩ := callTransaction_cases hmember
    have halone : call.before = [] := by
      rw [hbefore, MethodArg.transactions_resolve hresolved,
        MethodArg.members_orderAllFields hordered, hmembers]
    exact ⟨rfl, _, _, _, _, fee, groupOf_single halone hgroup, htransaction⟩
  | none =>
    obtain ⟨member, hmember, h⟩ := yields_ofExcept_bind.mp h
    obtain ⟨-, fee, htransaction⟩ := callTransaction_cases hmember
    have hgroup : ({} : AtomicGroup).addTransaction member = (.ok (), { members := [member] }) := by
      have hungrouped : ¬ member.transaction.header.group.isSome = true := by
        rw [htransaction]
        exact Bool.false_ne_true
      have hroom : ({} : AtomicGroup).checkRoom 1 = .ok () := rfl
      rw [AtomicGroup.addTransaction, hroom]
      simp only [AtomicGroup.pushAll, if_neg hungrouped, List.nil_append]
    simp only [hgroup] at h
    obtain ⟨rfl, rfl⟩ := yields_pure.mp h
    exact ⟨rfl, member, [], _, _, fee, rfl, htransaction⟩

/-! ## Programs and pages -/

theorem extraPages_least {size : Nat} {n : UInt64} (h : extraPages size none = .ok n) :
    IsLeast {pages | size ≤ pageSize * (1 + pages)} n.toNat := by
  rw [extraPages] at h
  split at h
  · cases h
  · next hmax =>
    obtain rfl := Except.ok.inj h
    have hsmall : requiredExtraPages size < UInt64.size :=
      Nat.lt_of_le_of_lt (Nat.not_lt.mp hmax) (by decide)
    rw [UInt64.toNat_ofNat_of_lt' hsmall]
    exact isLeast_requiredExtraPages size

theorem extraPages_requested {size : Nat} {n n' : UInt64} (h : extraPages size (some n) = .ok n') :
    n' = n := by
  rw [extraPages] at h
  split at h
  · cases h
  · exact (Except.ok.inj h).symm

/-! ## Creation -/

theorem context_yields (h : Yields (c.context net o) s x s') :
    c.senderFor o.sender o.signer = .ok x.sender := by
  obtain ⟨signer, -, h⟩ := yields_ofExcept_bind.mp h
  obtain ⟨sender, hsender, h⟩ := yields_ofExcept_bind.mp h
  obtain ⟨params, _, -, h⟩ := yields_bind.mp h
  obtain ⟨rfl, -⟩ := yields_pure.mp h
  exact hsender

/-- The record is that of a new application of the client's description: of the sender that the
options and the client come to, with the compiled programs, and in the pages that were asked for,
or else in as few as hold the programs. -/
structure Deploys (c : Client) (o : CallOptions) (approval clear : Bytes) (pages : Option UInt64)
    (record : AppRecord) : Prop where
  creator : c.senderFor o.sender o.signer = .ok record.creator
  approval : record.approval = approval
  clear : record.clear = clear
  globalSchema : record.globalSchema = c.app.globalSchema
  localSchema : record.localSchema = c.app.localSchema
  requested : ∀ n, pages = some n → record.extraPages = n
  least : pages = none →
    IsLeast {n | record.approval.length + record.clear.length ≤ pageSize * (1 + n)}
      record.extraPages.toNat

section Creation

variable {s s' t t' : Session Ledger} {approval clear : Bytes} {pages : Option UInt64}
  {body : CallBody} {result : GroupResult}

/-- The call of the creation is sent, and the ledger confirms it at once. -/
theorem sendLifecycle_creation (happ : c.appId = 0) {handler : Option MethodSpec}
    (hbody : body.app = 0)
    (h : Yields (c.sendLifecycle (Ledger.network Ledger.compiler) body handler o) t result t') :
    ∃ x args refs id confirmation, c.senderFor o.sender o.signer = .ok x.sender ∧
      result.ids = [id] ∧ result.confirmations = [confirmation] ∧
      t'.world.pending id = .ok confirmation ∧
      confirmation.createdApp = some t.world.state.nextApp ∧
      ∃ record, t'.world.state.apps.get? t.world.state.nextApp = some record ∧
        record.CreatedBy (callFields x body args refs o) := by
  obtain ⟨x, t₁, hcontext, h⟩ := yields_bind.mp h
  obtain ⟨g, t₂, hgroup, hsend⟩ := yields_bind.mp h
  have hparams : Keeps id (Ledger.network Ledger.compiler).node.params := keeps_read
  have hworld : t₁.world = t.world := (keeps_context hparams o).of_yields hcontext
  obtain ⟨rfl, member, methods, args, refs, fee, rfl, htransaction⟩ :=
    lifecycleGroup_undeployed happ hgroup
  obtain ⟨g', hrun⟩ := run_of_send hsend
  obtain ⟨stxn, id, confirmation, taken, hsame, hid, hids, hconfirmations, hsent, hpending,
    hround⟩ := AtomicGroup.execute_single hrun
  rw [hworld] at hsent
  obtain ⟨hanswer, hleft⟩ := Prod.mk.inj hsent
  rw [← hleft] at hpending ⊢
  have hcall : stxn.transaction =
      .appCall { callFields x body args refs o with header := { header x o with fee } } :=
    hsame.trans htransaction
  obtain ⟨hcreated, record, hrecord, hby⟩ :=
    Ledger.exists_record_of_submit hid hcall hbody hanswer hpending hround
  exact ⟨x, args, refs, id, confirmation, context_yields hcontext, hids, hconfirmations, hpending,
    hcreated, record, hrecord, hby.creator, hby.approval, hby.clear, hby.globalSchema,
    hby.localSchema, hby.extraPages⟩

theorem creation_cases (h : c.creation approval clear pages = .ok body) :
    ∃ n, extraPages (approval.length + clear.length) pages = .ok n ∧
      body = {
        app := 0, onComplete := (c.app.createHandler.map Prod.snd).getD .noOp,
        approval := some approval, clear := some clear, globalSchema := some c.app.globalSchema,
        localSchema := some c.app.localSchema, extraPages := some n } := by
  obtain ⟨n, hn, h⟩ := bind_eq_ok.mp h
  exact ⟨n, hn, (Except.ok.inj h).symm⟩

theorem app_of_creation (h : c.creation approval clear pages = .ok body) : body.app = 0 := by
  obtain ⟨n, -, rfl⟩ := creation_cases h
  rfl

theorem deploys_of_createdBy {args : List Bytes} {refs : References} {record : AppRecord}
    (hbody : c.creation approval clear pages = .ok body)
    (hsender : c.senderFor o.sender o.signer = .ok x.sender)
    (hby : record.CreatedBy (callFields x body args refs o)) :
    c.Deploys o approval clear pages record := by
  obtain ⟨n, hn, rfl⟩ := creation_cases hbody
  have happroval : record.approval = approval := (Option.some.inj hby.approval).symm
  have hclear : record.clear = clear := (Option.some.inj hby.clear).symm
  have hpages : record.extraPages = n := hby.extraPages
  refine ⟨?_, happroval, hclear, hby.globalSchema, hby.localSchema, ?_, ?_⟩
  · rw [hby.creator]
    exact hsender
  · rintro m rfl
    exact hpages.trans (extraPages_requested hn)
  · rintro rfl
    rw [happroval, hclear, hpages]
    exact extraPages_least hn

/-- A client that yields a new application has had it deployed on the ledger, and goes on as the
client of that application. -/
theorem create_yields {c' : Client} {r : Creation}
    (h : Yields (c.create (Ledger.network Ledger.compiler) pages o) s (r, c') s') :
    c.appId = 0 ∧ r.app = s.world.state.nextApp ∧ r.address = .ofApp r.app ∧
      c' = { c with appId := r.app, address := some (.ofApp r.app) } ∧
      (∃ approval clear t record,
        Yields (c.compile (Ledger.network Ledger.compiler)) s (approval, clear) t ∧
        s'.world.state.apps.get? r.app = some record ∧
        c.Deploys o approval clear pages record) ∧
      ∃ confirmation, s'.world.pending r.transaction = .ok confirmation ∧
        confirmation.createdApp = some r.app := by
  rw [create] at h
  by_cases hdeployed : c.appId ≠ 0
  · simp only [if_pos hdeployed] at h
    exact absurd h not_yields_throw_bind
  simp only [if_neg hdeployed] at h
  have happ : c.appId = 0 := not_not.mp hdeployed
  obtain ⟨⟨approval, clear⟩, t, hcompile, h⟩ := yields_bind.mp h
  obtain ⟨body, hbody, h⟩ := yields_ofExcept_bind.mp h
  obtain ⟨result, t', hsend, h⟩ := yields_bind.mp h
  have hcreation := mapError_eq_ok.mp hbody
  have hstate : t.world.state = s.world.state :=
    Ledger.state_of_reaches_compile (performs_compile.of_yields hcompile)
  have hzero := app_of_creation hcreation
  obtain ⟨x, args, refs, id, confirmation, hsender, hids, hconfirmations, hpending, hcreated,
    record, hrecord, hby⟩ := sendLifecycle_creation happ hzero hsend
  rw [hstate] at hcreated hrecord
  have hlast : result.confirmations.getLast?.bind (·.createdApp) = some s.world.state.nextApp := by
    rw [hconfirmations]
    exact hcreated
  have hid : lastId result = .ok id := by
    rw [lastId, hids]
    rfl
  simp only [hlast, hid] at h
  obtain ⟨transaction, htransaction, h⟩ := yields_ofExcept_bind.mp h
  obtain rfl := Except.ok.inj htransaction
  obtain ⟨hyielded, rfl⟩ := yields_pure.mp h
  obtain ⟨rfl, rfl⟩ := Prod.mk.inj hyielded
  exact ⟨happ, rfl, rfl, rfl, ⟨approval, clear, t, record, hcompile, hrecord,
    deploys_of_createdBy hcreation hsender hby⟩, confirmation, hpending, hcreated⟩

end Creation

end Client

end AppLedger
