import AppLedger.Proofs.Ledger.Bookkeeping

/-! What a ledger keeps of an application that it has confirmed the creation of. -/

namespace AppLedger

/-- The record is that of an application that the call has created, whatever its program has
stored since. -/
structure AppRecord.CreatedBy (record : AppRecord) (call : AppCall) : Prop where
  creator : record.creator = call.header.sender
  approval : call.approval = some record.approval
  clear : call.clear = some record.clear
  globalSchema : record.globalSchema = call.globalSchema.getD {}
  localSchema : record.localSchema = call.localSchema.getD {}
  extraPages : record.extraPages = call.extraPages.getD 0

namespace LedgerState

variable {programs : ProgramTable} {s s' : LedgerState} {group : List Transaction} {index : Nat}
  {call : AppCall} {app : UInt64} {record : AppRecord} {logs : List Bytes}
  {confirmation : Confirmation}

/-- A run stores values in the application, and keeps the rest of its record. -/
theorem record_of_run (h : run programs s group index call app = .ok (logs, s'))
    (happ : s.apps.get? app = some record) :
    ∃ globalState, s'.apps.get? app = some { record with globalState } := by
  obtain ⟨found, hfound, hran⟩ := run_cases h
  obtain rfl := Option.some.inj (happ.symm.trans hfound)
  rcases hran with ⟨-, -, rfl⟩ | ⟨_, _, mid, -, -, -, hglobals, hlocals⟩
  · exact ⟨record.globalState, happ⟩
  · have hmid : ∃ globalState, mid.apps.get? app = some { record with globalState } := by
      rcases updateGlobal_cases hglobals with rfl | ⟨-, rfl⟩
      · exact ⟨record.globalState, happ⟩
      · exact ⟨_, Table.get?_put_self _ _ _⟩
    rcases updateLocal_cases hlocals with rfl | ⟨_, -, -, rfl⟩ <;> exact hmid

theorem exists_record_of_create
    (h : create programs s group index call = .ok (confirmation, s')) :
    confirmation.createdApp = some s.nextApp ∧
      ∃ record, s'.apps.get? s.nextApp = some record ∧ record.CreatedBy call := by
  obtain ⟨approval, clear, logs, happroval, hclear, -, -, rfl, hrun⟩ := create_cases h
  refine ⟨rfl, ?_⟩
  have hcreated : (s.created call approval clear).apps.get? s.nextApp = some
      { creator := call.header.sender, approval, clear, globalSchema := call.globalSchema.getD {},
        localSchema := call.localSchema.getD {}, extraPages := call.extraPages.getD 0,
        globalState := .empty } := by
    rw [created]
    split <;> exact Table.get?_put_self _ _ _
  obtain ⟨globalState, hrecord⟩ := record_of_run hrun hcreated
  exact ⟨_, hrecord, rfl, happroval, hclear, rfl, rfl, rfl⟩

theorem exists_record_of_apply (happ : call.app = 0)
    (h : s.apply programs group index (.appCall call) = .ok (confirmation, s')) :
    confirmation.createdApp = some s.nextApp ∧
      ∃ record, s'.apps.get? s.nextApp = some record ∧ record.CreatedBy call := by
  obtain ⟨mid, hcall, rfl⟩ := apply_cases h
  obtain ⟨-, hcreate⟩ := (applyCall_cases hcall).resolve_right fun h => h.1 happ
  obtain ⟨hcreated, record, hrecord, hby⟩ := exists_record_of_create hcreate
  have hfee : s.SameAt (s.debit (Transaction.appCall call).sender
      ((Transaction.appCall call).header.fee.getD 0).toNat) .nextApp := sameAt_debit nofun
  rw [hfee] at hcreated hrecord
  refine ⟨hcreated, record, ?_, hby⟩
  cases (Transaction.appCall call).header.rekeyTo with
  | none => exact hrecord
  | some authorizer =>
    have hrekeyed : mid.SameAt (mid.rekey (Transaction.appCall call).sender authorizer)
        (.app s.nextApp) := sameAt_rekey nofun
    exact Eq.trans hrekeyed hrecord

end LedgerState

namespace Ledger

variable {l : Ledger} {stxn : SignedTransaction} {call : AppCall} {id taken : String}
  {confirmation : Confirmation}

theorem get?_of_pending (h : l.pending id = .ok confirmation) :
    l.state.confirmations.get? id = some confirmation := by
  rw [pending] at h
  cases hget : l.state.confirmations.get? id with
  | none =>
    rw [hget] at h
    cases h
  | some c =>
    rw [hget] at h
    exact congrArg some (Except.ok.inj h)

/-- A single transaction that creates an application and is confirmed as soon as it is sent. -/
theorem exists_record_of_submit (hid : stxn.id = .ok id)
    (htransaction : stxn.transaction = .appCall call) (happ : call.app = 0)
    (hsent : (l.submit [stxn]).1 = .ok taken)
    (hpending : (l.submit [stxn]).2.pending id = .ok confirmation)
    (hconfirmed : confirmation.round.isSome = true) :
    confirmation.createdApp = some l.state.nextApp ∧
      ∃ record, (l.submit [stxn]).2.state.apps.get? l.state.nextApp = some record ∧
        record.CreatedBy call := by
  obtain ⟨why, hsubmit, -⟩ | ⟨e, he, hcases⟩ := submit_cases l [stxn]
  · rw [hsubmit] at hsent
    cases hsent
  obtain ⟨id', found, hid', hresults, hfresh, happly⟩ :=
    Evaluation.single_of_accepted (Evaluation.accepted_of_ofGroup he)
  obtain rfl := Except.ok.inj (hid.symm.trans hid')
  obtain ⟨-, hsubmit⟩ | ⟨-, hsubmit⟩ := hcases
  all_goals rw [hsubmit] at hpending ⊢
  · -- A group that is dropped or stalled has no round, and it was not known before.
    rcases get?_withPending_cases (get?_of_pending hpending) with rfl | hearlier
    · cases hconfirmed
    · rw [Table.contains, hearlier] at hfresh
      cases hfresh
  · have hmem : id ∈ e.results.map Prod.fst := by
      rw [hresults]
      exact List.mem_cons_self
    obtain ⟨c, hc, hget⟩ := exists_get?_withConfirmed hmem
    obtain rfl := Option.some.inj ((get?_of_pending hpending).symm.trans hget)
    rw [hresults, List.mem_singleton] at hc
    obtain ⟨-, rfl⟩ := Prod.mk.inj hc
    rw [htransaction] at happly
    obtain ⟨hcreated, hrecord⟩ := LedgerState.exists_record_of_apply happ happly
    exact ⟨hcreated, hrecord⟩

end Ledger

end AppLedger
