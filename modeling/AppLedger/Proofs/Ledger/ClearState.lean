import AppLedger.Proofs.Ledger.Bookkeeping
import AppLedger.Proofs.Ledger.Rekeying

/-! Leaving an application. No program is asked, so none can keep an account from it. -/

namespace AppLedger

/-- A payment, or a call that clears the sender's local state. -/
def Transaction.AsksNoProgram : Transaction → Prop
  | .payment _ => True
  | .appCall call => call.onComplete = .clearState

namespace LedgerState

variable {s : LedgerState} {group : List Transaction} {index : Nat} {call : AppCall}

/-! ## Two tables of programs -/

theorem create_clearState (programs programs' : ProgramTable)
    (hstage : call.onComplete = .clearState) :
    create programs s group index call = create programs' s group index call := by
  rw [create, create]
  cases call.approval with
  | none => rfl
  | some approval =>
    cases call.clear with
    | none => rfl
    | some clear =>
      have hrefused : ¬ (call.onComplete = .noOp ∨ call.onComplete = .optIn) := by
        rw [hstage]
        decide
      simp only [if_neg hrefused]
      rfl

theorem callExisting_clearState (programs programs' : ProgramTable)
    (hstage : call.onComplete = .clearState) :
    callExisting programs s group index call = callExisting programs' s group index call := by
  rw [callExisting, callExisting, hstage]

theorem apply_programs (programs programs' : ProgramTable) {t : Transaction}
    (h : t.AsksNoProgram) : s.apply programs group index t = s.apply programs' group index t := by
  cases t with
  | payment p => rfl
  | appCall call =>
    rw [apply_eq, apply_eq, transact, transact, applyCall, applyCall,
      create_clearState programs programs' h, callExisting_clearState programs programs' h]

/-! ## One account -/

/-- The state after an account has left an application. The account has paid its fee and may have
been rekeyed. Nothing else has changed. -/
structure Cleared (s s' : LedgerState) (call : AppCall) : Prop where
  gone : s'.localState? call.header.sender call.app = none
  paid : s'.balance call.header.sender =
    s.balance call.header.sender - (call.header.fee.getD 0).toNat
  rekeyed : s'.authorizer call.header.sender =
    call.header.rekeyTo.getD (s.authorizer call.header.sender)
  others : ∀ place, place ≠ .localState call.header.sender call.app →
    place ≠ .balance call.header.sender → place ≠ .authorizer call.header.sender →
    s.SameAt s' place
  chain : s.SameChain s'

theorem balance_debit (s : LedgerState) (account : Address) (amount : Nat) :
    (s.debit account amount).balance account = s.balance account - amount := by
  rw [debit, balance, balance]
  cases hbalance : s.balances.get? account with
  | none =>
    simp only [hbalance]
    exact (Nat.zero_sub amount).symm
  | some _ =>
    simp only [Table.get?_put_self]
    rfl

theorem callExisting_of_optedIn (programs : ProgramTable) (group : List Transaction) (index : Nat)
    (hstage : call.onComplete = .clearState) (hexists : s.apps.contains call.app = true)
    (hopted : (s.localState? call.header.sender call.app).isSome = true) :
    callExisting programs s group index call =
      .ok ([], s.eraseLocal call.header.sender call.app) := by
  simp only [callExisting, hstage, if_pos hexists, if_pos hopted]
  rfl

/-- Whatever its programs say, an account can leave an application. -/
theorem apply_clearState (programs : ProgramTable) (group : List Transaction) (index : Nat)
    (hstage : call.onComplete = .clearState) (happ : call.app ≠ 0)
    (hexists : s.apps.contains call.app = true)
    (hopted : (s.localState? call.header.sender call.app).isSome = true) :
    ∃ s', s.apply programs group index (.appCall call) = .ok ({}, s') ∧ s.Cleared s' call := by
  let paid := s.debit call.header.sender (call.header.fee.getD 0).toNat
  let left := paid.eraseLocal call.header.sender call.app
  have hpaid {place : Place} (h : place ≠ .balance call.header.sender) : s.SameAt paid place :=
    sameAt_debit h
  have hcall : callExisting programs paid group index call = .ok ([], left) := by
    have happs : s.SameAt paid (.app call.app) := hpaid (by simp)
    have hlocals : s.SameAt paid (.localState call.header.sender call.app) := hpaid (by simp)
    refine callExisting_of_optedIn programs group index hstage ?_ (hlocals ▸ hopted)
    rw [Table.contains, happs]
    exact hexists
  have hleft (place : Place) (h : place ≠ .localState call.header.sender call.app)
      (hbalance : place ≠ .balance call.header.sender) : s.SameAt left place :=
    (hpaid hbalance).trans (sameAt_eraseLocal h)
  have hrekeyed (place : Place) (h : place ≠ .authorizer call.header.sender) :
      left.SameAt (call.header.rekeyTo.elim left (left.rekey call.header.sender)) place := by
    cases call.header.rekeyTo with
    | none => exact .refl left place
    | some authorizer => exact sameAt_rekey h
  have happly : s.apply programs group index (.appCall call) =
      .ok ({}, call.header.rekeyTo.elim left (left.rekey call.header.sender)) := by
    rw [apply_eq, transact, applyCall, if_neg happ]
    exact bind_eq_ok.mpr ⟨_, bind_eq_ok.mpr ⟨_, hcall, rfl⟩, rfl⟩
  refine ⟨_, happly, ?_, ?_, ?_, fun place hlocal hbalance hauthorizer => ?_,
    sameChain_apply happly⟩
  · have hkept := hrekeyed (.localState call.header.sender call.app) (by simp)
    exact Eq.trans hkept (Table.get?_erase_self _ _)
  · have hkept := hrekeyed (.balance call.header.sender) (by simp)
    have hbalance := congrArg (Option.getD · 0) hkept
    exact hbalance.trans (balance_debit s _ _)
  · have hkept : left.authorizer call.header.sender = s.authorizer call.header.sender :=
      congrArg (Option.getD · call.header.sender)
        (hleft (.authorizer call.header.sender) (by simp) (by simp))
    cases call.header.rekeyTo with
    | none => exact hkept
    | some authorizer =>
      rw [Option.elim_some, authorizer_rekey, if_pos rfl, Option.getD_some]
  · exact (hleft place hlocal hbalance).trans (hrekeyed place hauthorizer)

end LedgerState

namespace Evaluation

variable {base s : LedgerState} {group : List Transaction} {allowUnsigned : Bool} {index : Nat}
  {id : String} {stxn : SignedTransaction} {signed : List SignedTransaction}

theorem applyMember_programs (programs programs' : ProgramTable)
    (h : stxn.transaction.AsksNoProgram) :
    applyMember ⟨programs, base, group, allowUnsigned⟩ s index id stxn =
      applyMember ⟨programs', base, group, allowUnsigned⟩ s index id stxn := by
  simp only [applyMember, LedgerState.apply_programs programs programs' h]
  rfl

theorem applyFrom_programs (programs programs' : ProgramTable)
    (h : ∀ stxn ∈ signed, stxn.transaction.AsksNoProgram) :
    applyFrom ⟨programs, base, group, allowUnsigned⟩ s index signed =
      applyFrom ⟨programs', base, group, allowUnsigned⟩ s index signed := by
  induction signed generalizing s index with
  | nil => rfl
  | cons stxn rest ih =>
    obtain ⟨hfirst, hrest⟩ := List.forall_mem_cons.mp h
    simp only [applyFrom, applyMember_programs programs programs' hfirst, ih hrest]

theorem ofGroup_programs (programs programs' : ProgramTable)
    (h : ∀ stxn ∈ signed, stxn.transaction.AsksNoProgram) :
    ofGroup programs base signed allowUnsigned = ofGroup programs' base signed allowUnsigned := by
  simp only [ofGroup, applyFrom_programs programs programs' h]
  rfl

/-- What a transaction by itself has to pass before it takes effect. -/
structure PassesAlone (base : LedgerState) (stxn : SignedTransaction) (allowUnsigned : Bool) :
    Prop where
  group : verifyGroup [stxn.transaction] = .ok ()
  fees : verifyFees [stxn.transaction] = .ok ()
  header : verifyHeader stxn.transaction.header (base.lastRound + 1) = .ok ()
  fresh : ∃ id, stxn.id = .ok id ∧ base.confirmations.contains id = false
  authorized : stxn.isUnsigned = true ∧ allowUnsigned = true ∨
    stxn.verify (base.authorizer stxn.transaction.sender) = .ok ()

theorem ofGroup_of_passesAlone {programs : ProgramTable} {s' : LedgerState}
    {confirmation : Confirmation} (h : PassesAlone base stxn allowUnsigned)
    (happly : base.apply programs [stxn.transaction] 0 stxn.transaction =
      .ok (confirmation, s')) :
    ∃ id, stxn.id = .ok id ∧ ofGroup programs base [stxn] allowUnsigned =
      .ok { state := s', round := base.lastRound + 1, results := [(id, confirmation)] } := by
  obtain ⟨id, hid, hfresh⟩ := h.fresh
  have hmember : applyMember ⟨programs, base, [stxn.transaction], allowUnsigned⟩ base 0 id stxn =
      .ok (confirmation, s') :=
    applyMember_of_checks hfresh h.header h.authorized happly
  have hsize : 1 ≤ maxGroupSize := by decide
  refine ⟨id, hid, ofGroup_of_accepted ⟨List.cons_ne_nil _ _, hsize, h.group, h.fees, rfl, ?_⟩⟩
  exact bind_eq_ok.mpr ⟨id, mapError_eq_ok.mpr hid,
    bind_eq_ok.mpr ⟨_, mapError_eq_ok.mpr hmember, rfl⟩⟩

/-- No approval program can keep an account from leaving an application. Zero stands for a new
application in a call, and no ledger has one of that number. -/
theorem ofGroup_clearState :
    (∀ (programs programs' : ProgramTable) (base : LedgerState) (signed : List SignedTransaction)
      (allowUnsigned : Bool), (∀ stxn ∈ signed, stxn.transaction.AsksNoProgram) →
      ofGroup programs base signed allowUnsigned = ofGroup programs' base signed allowUnsigned) ∧
    (∀ (programs : ProgramTable) (base : LedgerState) (stxn : SignedTransaction) (call : AppCall)
      (allowUnsigned : Bool), stxn.transaction = .appCall call → call.onComplete = .clearState →
      call.app ≠ 0 → base.apps.contains call.app = true →
      (base.localState? call.header.sender call.app).isSome = true →
      PassesAlone base stxn allowUnsigned →
      ∃ id e, stxn.id = .ok id ∧ ofGroup programs base [stxn] allowUnsigned = .ok e ∧
        e.results = [(id, {})] ∧ base.Cleared e.state call) ∧
    ∀ ops : List LedgerOp, (({} : Ledger).run ops).state.apps.contains 0 = false := by
  refine ⟨fun programs programs' base signed allowUnsigned h => ofGroup_programs programs programs' h,
    fun programs base stxn call allowUnsigned ht hstage happ hexists hopted hpasses => ?_,
    fun ops => ?_⟩
  · obtain ⟨s', happly, hcleared⟩ :=
      LedgerState.apply_clearState programs [stxn.transaction] 0 hstage happ hexists hopted
    rw [← ht] at happly
    obtain ⟨id, hid, hgroup⟩ := ofGroup_of_passesAlone hpasses happly
    exact ⟨id, _, hid, hgroup, rfl, hcleared⟩
  · have hnonzero := Ledger.invariant_nonzeroApps.run Ledger.nonzeroApps_initial ops
    rw [Table.contains, hnonzero.noRecord]
    rfl

/-- An application whose program refuses every call. An account that has opted in leaves. -/
theorem ofGroup_clearState_refused :
    let programs : ProgramTable := { approvals := Table.empty.put [1] fun _ => .error "closed" }
    let logicSig : LogicSig := { logic := [8, 1] }
    let record : AppRecord :=
      { creator := .zero, approval := [1], clear := [1], globalSchema := {}, localSchema := {}
        extraPages := 0, globalState := .empty }
    let base : LedgerState :=
      { apps := Table.empty.put 7 record
        locals := Table.empty.put (logicSig.address, 7) .empty }
    let header : Header :=
      { sender := logicSig.address, fee := some 1000, firstValid := 1, lastValid := 9 }
    let call (onComplete : OnComplete) : AppCall := { header, app := 7, onComplete }
    let stxn (onComplete : OnComplete) : SignedTransaction :=
      { logicSig := some logicSig, transaction := .appCall (call onComplete) }
    (ofGroup programs base [stxn .closeOut] false).toOption.isSome = false ∧
      (∀ programs', ofGroup programs base [stxn .clearState] false =
        ofGroup programs' base [stxn .clearState] false) ∧
      ∃ id e, (stxn .clearState).id = .ok id ∧
        ofGroup programs base [stxn .clearState] false = .ok e ∧
        e.results = [(id, {})] ∧ base.Cleared e.state (call .clearState) := by
  intro programs logicSig record base header call stxn
  have hrefused : (ofGroup programs base [stxn .closeOut] false).toOption.isSome = false := by
    decide +kernel
  have hid : (stxn .clearState).id.toOption.isSome = true := by decide +kernel
  have hpasses : PassesAlone base (stxn .clearState) false := by
    refine ⟨by decide +kernel, by decide +kernel, by decide +kernel, ?_, .inr (by decide +kernel)⟩
    cases h : (stxn .clearState).id with
    | error why =>
      rw [h] at hid
      exact absurd hid nofun
    | ok id => exact ⟨id, rfl, rfl⟩
  refine ⟨hrefused, fun programs' => ofGroup_clearState.1 programs programs' base _ false ?_,
    ofGroup_clearState.2.1 programs base _ (call .clearState) false rfl rfl (by decide)
      (by decide +kernel) (by decide +kernel) hpasses⟩
  exact List.forall_mem_singleton.mpr rfl

end Evaluation

end AppLedger
