import AppLedger.Ledger.State
import AppLedger.Proofs.Outcome

/-! What a transaction does to a ledger that takes it. It changes neither the round nor what the
ledger knows of other transactions. -/

namespace AppLedger.LedgerState

variable {programs : ProgramTable} {s s' : LedgerState} {group : List Transaction} {index : Nat}
  {call : AppCall} {app : UInt64} {record : AppRecord} {account : Address}
  {updates : List (Bytes × StateValue)} {logs : List Bytes} {confirmation : Confirmation}

/-! ## Accepted calls -/

theorem updateGlobal_cases (h : s.updateGlobal app record updates = .ok s') :
    s' = s ∨ (record.globalState.putAll updates).checkSchema record.globalSchema "global" = .ok () ∧
      s' = s.putApp app { record with globalState := record.globalState.putAll updates } := by
  rw [updateGlobal] at h
  split at h
  · exact .inl (Except.ok.inj h).symm
  · obtain ⟨⟨⟩, hschema, h⟩ := bind_eq_ok.mp h
    exact .inr ⟨hschema, (Except.ok.inj h).symm⟩

theorem updateLocal_cases (h : s.updateLocal app record account updates = .ok s') :
    s' = s ∨ ∃ state, s.localState? account app = some state ∧
      (state.putAll updates).checkSchema record.localSchema "local" = .ok () ∧
      s' = s.putLocal account app (state.putAll updates) := by
  rw [updateLocal] at h
  split at h
  · exact .inl (Except.ok.inj h).symm
  · cases hlocal : s.localState? account app with
    | none =>
      simp only [hlocal] at h
      exact absurd h throw_ne_ok
    | some state =>
      simp only [hlocal] at h
      obtain ⟨⟨⟩, hschema, h⟩ := bind_eq_ok.mp h
      exact .inr ⟨state, rfl, hschema, (Except.ok.inj h).symm⟩

theorem run_cases (h : run programs s group index call app = .ok (logs, s')) :
    ∃ record, s.apps.get? app = some record ∧
      (programs.approvals.get? record.approval = none ∧ logs = [] ∧ s' = s ∨
        ∃ program effects mid, programs.approvals.get? record.approval = some program ∧
          program (s.request group index call app record) = .ok effects ∧ logs = effects.logs ∧
          s.updateGlobal app record effects.globalUpdates = .ok mid ∧
          mid.updateLocal app record call.header.sender effects.localUpdates = .ok s') := by
  rw [run] at h
  cases happ : s.apps.get? app with
  | none => simp [happ] at h
  | some record =>
    refine ⟨record, rfl, ?_⟩
    simp only [happ] at h
    cases hprogram : programs.approvals.get? record.approval with
    | none =>
      simp only [hprogram] at h
      obtain ⟨rfl, rfl⟩ := Prod.mk.inj (Except.ok.inj h)
      exact .inl ⟨rfl, rfl, rfl⟩
    | some program =>
      simp only [hprogram] at h
      cases heffects : program (s.request group index call app record) with
      | error message => simp [heffects] at h
      | ok effects =>
        simp only [heffects] at h
        obtain ⟨mid, hglobal, h⟩ := bind_eq_ok.mp h
        obtain ⟨last, hlocal, h⟩ := bind_eq_ok.mp h
        obtain ⟨rfl, rfl⟩ := Prod.mk.inj (Except.ok.inj h)
        exact .inr ⟨program, effects, mid, rfl, heffects, rfl, hglobal, hlocal⟩

/-- The state in which the program of a new application runs. -/
def created (s : LedgerState) (call : AppCall) (approval clear : Bytes) : LedgerState :=
  let new := { s with nextApp := s.nextApp + 1 }.putApp s.nextApp
    { creator := call.header.sender, approval, clear, globalSchema := call.globalSchema.getD {},
      localSchema := call.localSchema.getD {}, extraPages := call.extraPages.getD 0,
      globalState := .empty }
  if call.onComplete = .optIn then new.putLocal call.header.sender s.nextApp .empty else new

theorem create_cases (h : create programs s group index call = .ok (confirmation, s')) :
    ∃ approval clear logs, call.approval = some approval ∧ call.clear = some clear ∧
      (call.onComplete = .noOp ∨ call.onComplete = .optIn) ∧
      s.nextApp.toNat + 1 ≠ UInt64.size ∧
      confirmation = { createdApp := some s.nextApp, logs } ∧
      run programs (s.created call approval clear) group index call s.nextApp = .ok (logs, s') := by
  rw [create] at h
  split at h
  · next approval clear happroval hclear =>
    by_cases hstage : call.onComplete = .noOp ∨ call.onComplete = .optIn
    · by_cases hids : s.nextApp.toNat + 1 = UInt64.size
      · simp only [if_pos hstage, if_pos hids] at h
        exact absurd h throw_bind_ne_ok
      · simp only [if_pos hstage, if_neg hids] at h
        obtain ⟨⟨logs, last⟩, hrun, h⟩ := bind_eq_ok.mp h
        obtain ⟨rfl, rfl⟩ := Prod.mk.inj (Except.ok.inj h)
        exact ⟨approval, clear, logs, happroval, hclear, hstage, hids, rfl, hrun⟩
    · simp only [if_neg hstage] at h
      exact absurd h throw_bind_ne_ok
  · simp at h

theorem exists_app_of_run (h : run programs s group index call app = .ok (logs, s')) :
    ∃ record, s'.apps.get? app = some record := by
  obtain ⟨record, happ, ⟨-, -, rfl⟩ | ⟨program, effects, mid, -, -, -, hglobal, hlocal⟩⟩ :=
    run_cases h
  · exact ⟨record, happ⟩
  · have hmid : ∃ record, mid.apps.get? app = some record := by
      rcases updateGlobal_cases hglobal with rfl | ⟨-, rfl⟩
      · exact ⟨record, happ⟩
      · exact ⟨_, by rw [putApp, Table.get?_put_self]⟩
    rcases updateLocal_cases hlocal with rfl | ⟨_, -, -, rfl⟩ <;> exact hmid

/-- What an accepted call of an existing application does, by its stage. -/
inductive Called (programs : ProgramTable) (s : LedgerState) (group : List Transaction)
    (index : Nat) (call : AppCall) : List Bytes → LedgerState → Prop
  | noOp {logs : List Bytes} {s' : LedgerState} (hstage : call.onComplete = .noOp)
      (hrun : run programs s group index call call.app = .ok (logs, s')) :
      Called programs s group index call logs s'
  | optIn {logs : List Bytes} {s' : LedgerState} (hstage : call.onComplete = .optIn)
      (hlocal : s.localState? call.header.sender call.app = none)
      (hrun : run programs (s.putLocal call.header.sender call.app .empty) group index call
        call.app = .ok (logs, s')) : Called programs s group index call logs s'
  | closeOut {logs : List Bytes} {s' : LedgerState} (hstage : call.onComplete = .closeOut)
      (hlocal : (s.localState? call.header.sender call.app).isSome)
      (hrun : run programs s group index call call.app = .ok (logs, s')) :
      Called programs s group index call logs (s'.eraseLocal call.header.sender call.app)
  | clearState (hstage : call.onComplete = .clearState)
      (hlocal : (s.localState? call.header.sender call.app).isSome) :
      Called programs s group index call [] (s.eraseLocal call.header.sender call.app)
  | update {logs : List Bytes} {s' : LedgerState} {approval clear : Bytes} {record : AppRecord}
      (hstage : call.onComplete = .updateApplication) (happroval : call.approval = some approval)
      (hclear : call.clear = some clear)
      (hrun : run programs s group index call call.app = .ok (logs, s'))
      (happ : s'.apps.get? call.app = some record) :
      Called programs s group index call logs (s'.putApp call.app { record with approval, clear })
  | delete {logs : List Bytes} {s' : LedgerState} (hstage : call.onComplete = .deleteApplication)
      (hrun : run programs s group index call call.app = .ok (logs, s')) :
      Called programs s group index call logs { s' with apps := s'.apps.erase call.app }

theorem called_of_callExisting
    (h : callExisting programs s group index call = .ok (logs, s')) :
    s.apps.contains call.app = true ∧ Called programs s group index call logs s' := by
  rw [callExisting] at h
  by_cases hexists : s.apps.contains call.app = true
  · refine ⟨hexists, ?_⟩
    simp only [if_pos hexists] at h
    cases hstage : call.onComplete with
    | noOp =>
      simp only [hstage] at h
      exact .noOp hstage h
    | optIn =>
      simp only [hstage] at h
      cases hlocal : s.localState? call.header.sender call.app with
      | none =>
        simp only [hlocal, Option.isSome_none, Bool.false_eq_true, if_false] at h
        exact .optIn hstage hlocal h
      | some state =>
        simp only [hlocal, Option.isSome_some, if_true] at h
        exact absurd h throw_bind_ne_ok
    | closeOut =>
      simp only [hstage] at h
      by_cases hlocal : (s.localState? call.header.sender call.app).isSome = true
      · simp only [if_pos hlocal] at h
        obtain ⟨⟨_, _⟩, hrun, h⟩ := bind_eq_ok.mp h
        obtain ⟨rfl, rfl⟩ := Prod.mk.inj (Except.ok.inj h)
        exact .closeOut hstage hlocal hrun
      · simp only [if_neg hlocal] at h
        exact absurd h throw_bind_ne_ok
    | clearState =>
      simp only [hstage] at h
      by_cases hlocal : (s.localState? call.header.sender call.app).isSome = true
      · simp only [if_pos hlocal] at h
        obtain ⟨rfl, rfl⟩ := Prod.mk.inj (Except.ok.inj h)
        exact .clearState hstage hlocal
      · simp only [if_neg hlocal] at h
        exact absurd h throw_bind_ne_ok
    | updateApplication =>
      simp only [hstage] at h
      split at h
      · next approval clear happroval hclear =>
        obtain ⟨⟨_, mid⟩, hrun, h⟩ := bind_eq_ok.mp h
        obtain ⟨record, happ⟩ := exists_app_of_run hrun
        simp only [happ] at h
        obtain ⟨rfl, rfl⟩ := Prod.mk.inj (Except.ok.inj h)
        exact .update hstage happroval hclear hrun happ
      · exact absurd h throw_ne_ok
    | deleteApplication =>
      simp only [hstage] at h
      obtain ⟨⟨_, _⟩, hrun, h⟩ := bind_eq_ok.mp h
      obtain ⟨rfl, rfl⟩ := Prod.mk.inj (Except.ok.inj h)
      exact .delete hstage hrun
  · simp only [if_neg hexists] at h
    exact absurd h throw_bind_ne_ok

/-- An accepted call creates an application, or calls one that exists. -/
theorem applyCall_cases (h : applyCall programs s group index call = .ok (confirmation, s')) :
    call.app = 0 ∧ create programs s group index call = .ok (confirmation, s') ∨
      call.app ≠ 0 ∧ ∃ logs, confirmation = { logs } ∧
        callExisting programs s group index call = .ok (logs, s') := by
  rw [applyCall] at h
  split at h
  · next hzero => exact .inl ⟨hzero, h⟩
  · next hne =>
    obtain ⟨⟨logs, _⟩, hcall, h⟩ := bind_eq_ok.mp h
    obtain ⟨rfl, rfl⟩ := Prod.mk.inj (Except.ok.inj h)
    exact .inr ⟨hne, logs, rfl, hcall⟩

/-- What a transaction does between its fee and its rekeying. -/
def transact (programs : ProgramTable) (s : LedgerState) (group : List Transaction) (index : Nat) :
    Transaction → Except CallFailure (Confirmation × LedgerState)
  | .payment p => .ok ({}, s.pay p)
  | .appCall call => applyCall programs s group index call

theorem apply_eq (programs : ProgramTable) (s : LedgerState) (group : List Transaction)
    (index : Nat) (t : Transaction) :
    s.apply programs group index t =
      transact programs (s.debit t.sender (t.header.fee.getD 0).toNat) group index t >>= fun done =>
        .ok (done.1, t.header.rekeyTo.elim done.2 (done.2.rekey t.sender)) := by
  cases hrekey : t.header.rekeyTo <;> cases t <;> simp only [apply, hrekey] <;> rfl

theorem apply_cases {t : Transaction}
    (h : s.apply programs group index t = .ok (confirmation, s')) :
    ∃ mid, transact programs (s.debit t.sender (t.header.fee.getD 0).toNat) group index t =
        .ok (confirmation, mid) ∧
      s' = t.header.rekeyTo.elim mid (mid.rekey t.sender) := by
  rw [apply_eq] at h
  obtain ⟨⟨_, mid⟩, htransact, h⟩ := bind_eq_ok.mp h
  obtain ⟨rfl, rfl⟩ := Prod.mk.inj (Except.ok.inj h)
  exact ⟨mid, htransact, rfl⟩

/-! ## What stays -/

/-- The states are of one round, and know the same transactions. -/
structure SameChain (s s' : LedgerState) : Prop where
  lastRound : s'.lastRound = s.lastRound
  confirmations : s'.confirmations = s.confirmations

namespace SameChain

theorem refl (s : LedgerState) : SameChain s s := ⟨rfl, rfl⟩

theorem trans {s s' s'' : LedgerState} (h : SameChain s s') (h' : SameChain s' s'') :
    SameChain s s'' :=
  ⟨h'.lastRound.trans h.lastRound, h'.confirmations.trans h.confirmations⟩

end SameChain

theorem sameChain_debit (s : LedgerState) (account : Address) (amount : Nat) :
    SameChain s (s.debit account amount) := by
  rw [debit]
  split <;> exact ⟨rfl, rfl⟩

theorem sameChain_pay (s : LedgerState) (p : Payment) : SameChain s (s.pay p) := by
  have hdebit := sameChain_debit s p.header.sender p.amount.toNat
  rw [pay]
  split <;> exact ⟨hdebit.lastRound, hdebit.confirmations⟩

theorem sameChain_rekey (s : LedgerState) (account authorizer : Address) :
    SameChain s (s.rekey account authorizer) := by
  rw [rekey]
  split <;> exact ⟨rfl, rfl⟩

theorem sameChain_run (h : run programs s group index call app = .ok (logs, s')) :
    SameChain s s' := by
  obtain ⟨record, -, ⟨-, -, rfl⟩ | ⟨_, _, mid, -, -, -, hglobal, hlocal⟩⟩ := run_cases h
  · exact .refl s'
  · have hmid : SameChain s mid := by
      rcases updateGlobal_cases hglobal with rfl | ⟨-, rfl⟩ <;> exact ⟨rfl, rfl⟩
    rcases updateLocal_cases hlocal with rfl | ⟨_, -, -, rfl⟩
    · exact hmid
    · exact ⟨hmid.lastRound, hmid.confirmations⟩

theorem sameChain_create (h : create programs s group index call = .ok (confirmation, s')) :
    SameChain s s' := by
  obtain ⟨approval, clear, logs, -, -, -, -, -, hrun⟩ := create_cases h
  have hcreated : SameChain s (s.created call approval clear) := by
    rw [created]
    split <;> exact ⟨rfl, rfl⟩
  exact hcreated.trans (sameChain_run hrun)

theorem sameChain_callExisting
    (h : callExisting programs s group index call = .ok (logs, s')) : SameChain s s' := by
  obtain ⟨-, hcalled⟩ := called_of_callExisting h
  cases hcalled with
  | noOp _ hrun => exact sameChain_run hrun
  | optIn _ _ hrun => exact ⟨(sameChain_run hrun).lastRound, (sameChain_run hrun).confirmations⟩
  | closeOut _ _ hrun => exact ⟨(sameChain_run hrun).lastRound, (sameChain_run hrun).confirmations⟩
  | clearState => exact ⟨rfl, rfl⟩
  | update _ _ _ hrun _ =>
    exact ⟨(sameChain_run hrun).lastRound, (sameChain_run hrun).confirmations⟩
  | delete _ hrun => exact ⟨(sameChain_run hrun).lastRound, (sameChain_run hrun).confirmations⟩

theorem sameChain_transact {t : Transaction}
    (h : transact programs s group index t = .ok (confirmation, s')) : SameChain s s' := by
  cases t with
  | payment p =>
    obtain ⟨-, rfl⟩ := Prod.mk.inj (Except.ok.inj h)
    exact sameChain_pay s p
  | appCall call =>
    rcases applyCall_cases h with ⟨-, hcreate⟩ | ⟨-, _, -, hcall⟩
    · exact sameChain_create hcreate
    · exact sameChain_callExisting hcall

theorem sameChain_apply {t : Transaction}
    (h : s.apply programs group index t = .ok (confirmation, s')) : SameChain s s' := by
  obtain ⟨mid, htransact, rfl⟩ := apply_cases h
  have hmid := (sameChain_debit s _ _).trans (sameChain_transact htransact)
  cases t.header.rekeyTo with
  | none => exact hmid
  | some authorizer => exact hmid.trans (sameChain_rekey mid _ authorizer)

end AppLedger.LedgerState
