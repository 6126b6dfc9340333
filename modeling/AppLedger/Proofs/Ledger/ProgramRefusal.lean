import AppLedger.Proofs.Ledger.Run
import AppLedger.Proofs.LogicError.Report
import AppLedger.Proofs.Outcome

/-! Where a ledger refuses a group with the words of a program: the program of the application was
run on one of the calls of the group, and refused it. -/

namespace AppLedger

open LogicError.Report (refusal)

variable {programs : ProgramTable} {s s' : LedgerState} {group : List Transaction} {index : Nat}
  {call : AppCall} {app app' : UInt64} {message : String} {pc : Nat}

/-- The program with the code has been run for the application on the call, and refuses it. -/
def Refuses (programs : ProgramTable) (group : List Transaction) (index : Nat) (call : AppCall)
    (app : UInt64) (message : String) (pc : Nat) (code : Bytes) : Prop :=
  ∃ (s : LedgerState) (record : AppRecord) (program : ApprovalProgram),
    s.apps.get? app = some record ∧ record.approval = code ∧
      programs.approvals.get? code = some program ∧
      program (s.request group index call app record) = .error message ∧
      pc = programs.failingPc code

namespace LedgerState

theorem checkSchema_ne_program {state : AppState} {schema : StateSchema} {scope : String} :
    state.checkSchema schema scope ≠ .error (.program message app pc) := by
  rw [AppState.checkSchema]
  split
  · exact nofun
  · split <;> exact nofun

theorem updateGlobal_ne_program {record : AppRecord} {updates : List (Bytes × StateValue)} :
    s.updateGlobal app' record updates ≠ .error (.program message app pc) := by
  intro h
  rw [updateGlobal] at h
  by_cases hempty : updates.isEmpty = true
  · simp only [if_pos hempty] at h
    cases h
  · simp only [if_neg hempty] at h
    obtain hcheck | ⟨_, -, h⟩ := bind_eq_error.mp h
    · exact checkSchema_ne_program hcheck
    · cases h

theorem updateLocal_ne_program {record : AppRecord} {account : Address}
    {updates : List (Bytes × StateValue)} :
    s.updateLocal app' record account updates ≠ .error (.program message app pc) := by
  intro h
  rw [updateLocal] at h
  by_cases hempty : updates.isEmpty = true
  · simp only [if_pos hempty] at h
    cases h
  · simp only [if_neg hempty] at h
    split at h
    · cases h
    · obtain hcheck | ⟨_, -, h⟩ := bind_eq_error.mp h
      · exact checkSchema_ne_program hcheck
      · cases h

theorem refuses_of_run
    (h : run programs s group index call app' = .error (.program message app pc)) :
    app = app' ∧ ∃ code, Refuses programs group index call app message pc code := by
  rw [run] at h
  cases hrecord : s.apps.get? app' with
  | none =>
    rw [hrecord] at h
    cases h
  | some record =>
    simp only [hrecord] at h
    cases hprogram : programs.approvals.get? record.approval with
    | none =>
      rw [hprogram] at h
      cases h
    | some program =>
      simp only [hprogram] at h
      cases hrun : program (s.request group index call app' record) with
      | error message' =>
        rw [hrun] at h
        obtain ⟨rfl, rfl, rfl⟩ := CallFailure.program.inj (Except.error.inj h)
        exact ⟨rfl, _, s, record, program, hrecord, rfl, hprogram, hrun, rfl⟩
      | ok effects =>
        rw [hrun] at h
        obtain hglobal | ⟨mid, -, h⟩ := bind_eq_error.mp h
        · exact absurd hglobal updateGlobal_ne_program
        · obtain hlocal | ⟨_, -, h⟩ := bind_eq_error.mp h
          · exact absurd hlocal updateLocal_ne_program
          · cases h

theorem refuses_of_create
    (h : create programs s group index call = .error (.program message app pc)) :
    ∃ code, Refuses programs group index call app message pc code := by
  rw [create] at h
  split at h
  · by_cases hstage : call.onComplete = .noOp ∨ call.onComplete = .optIn
    · by_cases hids : s.nextApp.toNat + 1 = UInt64.size
      · simp only [if_pos hstage, if_pos hids] at h
        cases h
      · simp only [if_pos hstage, if_neg hids] at h
        obtain hrun | ⟨_, -, h⟩ := bind_eq_error.mp h
        · exact (refuses_of_run hrun).2
        · cases h
    · simp only [if_neg hstage] at h
      cases h
  · cases h

theorem refuses_of_callExisting
    (h : callExisting programs s group index call = .error (.program message app pc)) :
    ∃ code, Refuses programs group index call app message pc code := by
  rw [callExisting] at h
  by_cases happ : s.apps.contains call.app = true
  · simp only [if_pos happ] at h
    cases hstage : call.onComplete with
    | noOp =>
      simp only [hstage] at h
      exact (refuses_of_run h).2
    | optIn =>
      simp only [hstage] at h
      by_cases hlocal : (s.localState? call.header.sender call.app).isSome = true
      · simp only [if_pos hlocal] at h
        cases h
      · simp only [if_neg hlocal] at h
        exact (refuses_of_run h).2
    | closeOut =>
      simp only [hstage] at h
      by_cases hlocal : (s.localState? call.header.sender call.app).isSome = true
      · simp only [if_pos hlocal] at h
        obtain hrun | ⟨_, -, h⟩ := bind_eq_error.mp h
        · exact (refuses_of_run hrun).2
        · cases h
      · simp only [if_neg hlocal] at h
        cases h
    | clearState =>
      simp only [hstage] at h
      by_cases hlocal : (s.localState? call.header.sender call.app).isSome = true
      · simp only [if_pos hlocal] at h
        cases h
      · simp only [if_neg hlocal] at h
        cases h
    | updateApplication =>
      simp only [hstage] at h
      split at h
      · obtain hrun | ⟨⟨logs, mid⟩, -, h⟩ := bind_eq_error.mp h
        · exact (refuses_of_run hrun).2
        · dsimp only at h
          split at h <;> cases h
      · cases h
    | deleteApplication =>
      simp only [hstage] at h
      obtain hrun | ⟨_, -, h⟩ := bind_eq_error.mp h
      · exact (refuses_of_run hrun).2
      · cases h
  · simp only [if_neg happ] at h
    cases h

theorem refuses_of_apply {t : Transaction}
    (h : s.apply programs group index t = .error (.program message app pc)) :
    ∃ call code, t = .appCall call ∧ Refuses programs group index call app message pc code := by
  rw [apply_eq] at h
  obtain htransact | ⟨_, -, h⟩ := bind_eq_error.mp h
  · cases t with
    | payment p => cases htransact
    | appCall call =>
      rw [transact, applyCall] at htransact
      by_cases hnew : call.app = 0
      · rw [if_pos hnew] at htransact
        obtain ⟨code, hrefuses⟩ := refuses_of_create htransact
        exact ⟨call, code, rfl, hrefuses⟩
      · rw [if_neg hnew] at htransact
        obtain hcall | ⟨_, -, hdone⟩ := bind_eq_error.mp htransact
        · obtain ⟨code, hrefuses⟩ := refuses_of_callExisting hcall
          exact ⟨call, code, rfl, hrefuses⟩
        · cases hdone
  · cases h

end LedgerState

namespace Evaluation

variable {c : Setting} {id : String} {stxn : SignedTransaction} {signed : List SignedTransaction}

theorem refuses_of_applyMember
    (h : applyMember c s index id stxn = .error (.call (.program message app pc))) :
    ∃ call code, stxn.transaction = .appCall call ∧
      Refuses c.programs c.group index call app message pc code := by
  rw [applyMember] at h
  by_cases hknown : c.base.confirmations.contains id = true
  · simp only [if_pos hknown] at h
    cases h
  simp only [if_neg hknown] at h
  obtain hheader | ⟨_, -, h⟩ := bind_eq_error.mp h
  · rw [verifyHeader] at hheader
    split at hheader
    · cases hheader
    · split at hheader
      · cases hheader
      · split at hheader <;> cases hheader
  by_cases hunsigned : (stxn.isUnsigned && c.allowUnsigned) = true
  · simp only [if_pos hunsigned] at h
    obtain ⟨why, happly, hwhy⟩ := mapError_eq_error.mp h
    exact LedgerState.refuses_of_apply (MemberRejection.call.inj hwhy ▸ happly)
  · simp only [if_neg hunsigned] at h
    obtain hverify | ⟨_, -, h⟩ := bind_eq_error.mp h
    · obtain ⟨why, -, hwhy⟩ := mapError_eq_error.mp hverify
      cases hwhy
    · obtain ⟨why, happly, hwhy⟩ := mapError_eq_error.mp h
      exact LedgerState.refuses_of_apply (MemberRejection.call.inj hwhy ▸ happly)

theorem refuses_of_applyFrom (h : applyFrom c s index signed = .error (refusal id message app pc)) :
    ∃ stxn ∈ signed, stxn.id = .ok id ∧ ∃ index call code, stxn.transaction = .appCall call ∧
      Refuses c.programs c.group index call app message pc code := by
  induction signed generalizing s index with
  | nil => cases h
  | cons stxn rest ih =>
    rw [applyFrom] at h
    obtain hid | ⟨id', hid, h⟩ := bind_eq_error.mp h
    · obtain ⟨why, -, hwhy⟩ := mapError_eq_error.mp hid
      cases hwhy
    obtain hmember | ⟨⟨confirmation, mid⟩, -, h⟩ := bind_eq_error.mp h
    · obtain ⟨why, hmember, hwhy⟩ := mapError_eq_error.mp hmember
      obtain ⟨rfl, rfl⟩ := GroupRejection.member.inj hwhy
      obtain ⟨call, code, hcall, hrefuses⟩ := refuses_of_applyMember hmember
      exact ⟨stxn, List.mem_cons_self, mapError_eq_ok.mp hid, index, call, code, hcall, hrefuses⟩
    · obtain hrest | ⟨_, -, h⟩ := bind_eq_error.mp h
      · obtain ⟨stxn', hmem, hrefused⟩ := ih hrest
        exact ⟨stxn', List.mem_cons_of_mem _ hmem, hrefused⟩
      · cases h

theorem verifyGroup_ne_refusal : verifyGroup group ≠ .error (refusal id message app pc) := by
  intro h
  rw [verifyGroup] at h
  split at h
  · cases h
  · rw [verifyMembers] at h
    split at h
    · cases h
    · split at h
      · cases h
      · cases h

theorem verifyFees_ne_refusal : verifyFees group ≠ .error (refusal id message app pc) := by
  intro h
  simp only [verifyFees] at h
  split at h
  · cases h
  · cases h

/-- A group is refused in the words of a program only where the program was run on one of its calls
and refused it. -/
theorem refuses_of_ofGroup {base : LedgerState} {allowUnsigned : Bool}
    (h : ofGroup programs base signed allowUnsigned = .error (refusal id message app pc)) :
    ∃ stxn ∈ signed, stxn.id = .ok id ∧ ∃ index call code, stxn.transaction = .appCall call ∧
      Refuses programs (signed.map (·.transaction)) index call app message pc code := by
  rw [ofGroup] at h
  by_cases hempty : signed.isEmpty = true
  · simp only [if_pos hempty] at h
    cases h
  by_cases hsize : maxGroupSize < signed.length
  · simp only [if_neg hempty, if_pos hsize] at h
    cases h
  simp only [if_neg hempty, if_neg hsize] at h
  obtain hgroup | ⟨_, -, h⟩ := bind_eq_error.mp h
  · exact absurd hgroup verifyGroup_ne_refusal
  obtain hfees | ⟨_, -, h⟩ := bind_eq_error.mp h
  · exact absurd hfees verifyFees_ne_refusal
  obtain hmembers | ⟨_, -, h⟩ := bind_eq_error.mp h
  · exact refuses_of_applyFrom hmembers
  · cases h

end Evaluation

end AppLedger
