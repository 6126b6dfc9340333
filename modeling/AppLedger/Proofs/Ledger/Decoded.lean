import AppLedger.Ledger.Basic
import AppLedger.Proofs.Transaction.Group
import AppLedger.Proofs.Transaction.SignedRoundTrip

/-! A ledger that is handed a group sees the empty values that do not travel. Without those that it
reads, it does to the group what it does to the one that has travelled. -/

namespace AppLedger

open Transaction

/-! ## Fields that the ledger reads -/

/-- No field that the ledger reads is there with an empty value. -/
structure Header.Plain (h : Header) : Prop where
  genesisHash : ∀ d ∈ h.genesisHash, d.isZero = false
  genesisId : ∀ s ∈ h.genesisId, s.isEmpty = false
  rekeyTo : ∀ a ∈ h.rekeyTo, a.isZero = false
  group : ∀ d ∈ h.group, d.isZero = false

/-- The programs are read of a call that creates or updates an application. -/
structure AppCall.Plain (c : AppCall) : Prop where
  header : c.header.Plain
  approval : c.app = 0 ∨ c.onComplete = .updateApplication → ∀ b ∈ c.approval, b.isEmpty = false
  clear : c.app = 0 ∨ c.onComplete = .updateApplication → ∀ b ∈ c.clear, b.isEmpty = false

structure Payment.Plain (p : Payment) : Prop where
  header : p.header.Plain
  closeTo : ∀ a ∈ p.closeTo, a.isZero = false

def Transaction.Plain : Transaction → Prop
  | .payment p => p.Plain
  | .appCall c => c.Plain

structure SignedTransaction.Plain (s : SignedTransaction) : Prop where
  authAddress : ∀ a ∈ s.authAddress, a.isZero = false
  transaction : s.transaction.Plain

/-- The program answers a group as it answers the group that has travelled. -/
def ApprovalProgram.SeesNormal (program : ApprovalProgram) : Prop :=
  ∀ r : ApprovalRequest, program { r with group := r.group.map norm } = program r

def ProgramTable.SeesNormal (programs : ProgramTable) : Prop :=
  ∀ code program, programs.approvals.get? code = some program → program.SeesNormal

theorem getD_filter {α : Type} {empty : α → Bool} {default : α}
    (h : ∀ a, empty a = true → a = default) (a : Option α) :
    (a.filter (!empty ·)).getD default = a.getD default := by
  cases a with
  | none => rfl
  | some a =>
    rw [Option.filter_some]
    cases hempty : empty a with
    | false => rfl
    | true => exact (h a hempty).symm

theorem Header.norm_fee (h : Header) : h.norm.fee.getD 0 = h.fee.getD 0 :=
  getD_filter (fun _ => beq_iff_eq.mp) h.fee

theorem StateSchema.eq_of_isEmpty {schema : StateSchema} (h : schema.isEmpty = true) :
    schema = {} := by
  obtain ⟨uints, byteSlices⟩ := schema
  simp only [isEmpty, Bool.and_eq_true, beq_iff_eq] at h
  rw [h.1, h.2]

namespace Transaction

theorem Plain.header {t : Transaction} (h : t.Plain) : t.header.Plain := by
  cases t with
  | payment p => exact Payment.Plain.header h
  | appCall c => exact AppCall.Plain.header h

theorem group_norm {t : Transaction} (h : t.Plain) : t.norm.header.group = t.header.group := by
  rw [header_norm]
  exact filter_of_plain h.header.group

theorem rekeyTo_norm {t : Transaction} (h : t.Plain) :
    t.norm.header.rekeyTo = t.header.rekeyTo := by
  rw [header_norm]
  exact filter_of_plain h.header.rekeyTo

theorem fee_norm (t : Transaction) : t.norm.header.fee.getD 0 = t.header.fee.getD 0 := by
  rw [header_norm, Header.norm_fee]

end Transaction

/-! ## What is checked before a group has an effect -/

namespace Evaluation

variable {group : List Transaction}

theorem all_group_norm (h : ∀ t ∈ group, t.Plain) (p : Option Digest → Bool) :
    (group.map norm).all (fun t => p t.header.group) = group.all fun t => p t.header.group := by
  rw [Bool.eq_iff_iff, List.all_eq_true, List.all_eq_true, List.forall_mem_map]
  exact forall₂_congr fun t ht => by rw [group_norm (h t ht)]

theorem verifyMembers_norm (h : ∀ t ∈ group, t.Plain) :
    verifyMembers (group.map norm) = verifyMembers group := by
  have hungrouped : (group.map norm).map (·.withGroup none) =
      (group.map (·.withGroup none)).map norm := by
    rw [List.map_map, List.map_map]
    exact List.map_congr_left fun t _ => (norm_withGroup none t).symm
  have hnone : ∀ t ∈ group.map (·.withGroup none), t.header.group = none := by
    intro t ht
    obtain ⟨t, -, rfl⟩ := List.mem_map.mp ht
    cases t <;> rfl
  rw [verifyMembers, verifyMembers, hungrouped, groupId_norm hnone]
  cases groupId (group.map (·.withGroup none)) with
  | error why => rfl
  | ok id => simp only [all_group_norm h fun group => decide (group = some id)]

theorem verifyGroup_norm (h : ∀ t ∈ group, t.Plain) :
    verifyGroup (group.map norm) = verifyGroup group := by
  rw [verifyGroup, verifyGroup, verifyMembers_norm h, all_group_norm h, List.length_map]

theorem verifyFees_norm (group : List Transaction) :
    verifyFees (group.map norm) = verifyFees group := by
  simp only [verifyFees, List.length_map, List.foldl_map, fee_norm]

theorem verifyHeader_norm {h : Header} (hplain : h.Plain) (round : Nat) :
    verifyHeader h.norm round = verifyHeader h round := by
  have hgenesisHash : h.norm.genesisHash = h.genesisHash := filter_of_plain hplain.genesisHash
  have hgenesisId : h.norm.genesisId = h.genesisId := filter_of_plain hplain.genesisId
  rw [verifyHeader, verifyHeader, hgenesisHash, hgenesisId]
  rfl

end Evaluation

/-! ## What a transaction does -/

namespace LedgerState

variable {programs : ProgramTable} {s : LedgerState} {group : List Transaction} {index : Nat}

theorem pay_norm {p : Payment} (h : p.Plain) : s.pay p.norm = s.pay p := by
  have hclose : p.norm.closeTo = p.closeTo := filter_of_plain h.closeTo
  rw [pay, pay, hclose]
  rfl

theorem run_norm (hprograms : programs.SeesNormal) (call : AppCall) (app : UInt64) :
    run programs s (group.map norm) index call.norm app = run programs s group index call app := by
  rw [run, run]
  cases s.apps.get? app with
  | none => rfl
  | some record =>
    have hrequest : s.request (group.map norm) index call.norm app record =
        { s.request group index call app record with group := group.map norm } := by
      simp only [request, AppCall.norm, getD_filter_isEmpty, Header.norm]
    cases hprogram : programs.approvals.get? record.approval with
    | none => simp only [hprogram]
    | some program =>
      have hanswer := hprograms _ _ hprogram (s.request group index call app record)
      simp only [hprogram, hrequest]
      rw [← hanswer]
      rfl

theorem create_norm (hprograms : programs.SeesNormal) {call : AppCall} (h : call.Plain)
    (hzero : call.app = 0) :
    create programs s (group.map norm) index call.norm = create programs s group index call := by
  have happroval : call.norm.approval = call.approval := filter_of_plain (h.approval (.inl hzero))
  have hclear : call.norm.clear = call.clear := filter_of_plain (h.clear (.inl hzero))
  have hglobal : call.norm.globalSchema.getD {} = call.globalSchema.getD {} :=
    getD_filter (fun _ => StateSchema.eq_of_isEmpty) call.globalSchema
  have hlocal : call.norm.localSchema.getD {} = call.localSchema.getD {} :=
    getD_filter (fun _ => StateSchema.eq_of_isEmpty) call.localSchema
  have hpages : call.norm.extraPages.getD 0 = call.extraPages.getD 0 :=
    getD_filter (fun _ => beq_iff_eq.mp) call.extraPages
  rw [create, create, happroval, hclear]
  simp only [hglobal, hlocal, hpages, run_norm hprograms]
  rfl

theorem callExisting_norm (hprograms : programs.SeesNormal) {call : AppCall}
    (h : call.Plain) : callExisting programs s (group.map norm) index call.norm =
      callExisting programs s group index call := by
  have happ : call.norm.app = call.app := rfl
  have hsender : call.norm.header.sender = call.header.sender := rfl
  have hstage : call.norm.onComplete = call.onComplete := rfl
  rw [callExisting, callExisting, happ, hsender, hstage]
  simp only [run_norm hprograms]
  cases hupdate : call.onComplete with
  | updateApplication =>
    have happroval : call.norm.approval = call.approval :=
      filter_of_plain (h.approval (.inr hupdate))
    have hclear : call.norm.clear = call.clear := filter_of_plain (h.clear (.inr hupdate))
    rw [happroval, hclear]
  | _ => rfl

theorem applyCall_norm (hprograms : programs.SeesNormal) {call : AppCall}
    (h : call.Plain) : applyCall programs s (group.map norm) index call.norm =
      applyCall programs s group index call := by
  have happ : call.norm.app = call.app := rfl
  rw [applyCall, applyCall, happ, callExisting_norm hprograms h]
  split
  · next hzero => exact create_norm hprograms h hzero
  · rfl

theorem apply_norm (hprograms : programs.SeesNormal) {t : Transaction} (h : t.Plain) :
    s.apply programs (group.map norm) index t.norm = s.apply programs group index t := by
  simp only [apply, sender_norm, fee_norm, rekeyTo_norm h]
  cases t with
  | payment p => simp only [Transaction.norm, pay_norm h]
  | appCall c => simp only [Transaction.norm, applyCall_norm hprograms h]

end LedgerState

/-! ## What a group does -/

namespace SignedTransaction

variable {s : SignedTransaction}

theorem isUnsigned_norm (s : SignedTransaction) : s.norm.isUnsigned = s.isUnsigned := by
  simp only [isUnsigned, SignedTransaction.norm, Option.isNone_map]

theorem verifySignatures_norm (s : SignedTransaction) (signer : Address) :
    s.norm.verifySignatures signer = s.verifySignatures signer := by
  have hencode : s.norm.transaction.encode = s.transaction.encode := s.transaction.encode_norm
  rw [verifySignatures, verifySignatures, hencode]
  obtain ⟨⟨signature, multisig, logicSig, authAddress⟩, t⟩ := s
  cases signature <;> cases multisig <;> cases logicSig <;> rfl

theorem verify_norm (h : s.Plain) (expected : Address) :
    s.norm.verify expected = s.verify expected := by
  rw [verify, verify, authorizer_norm h.authAddress, verifySignatures_norm]

end SignedTransaction

namespace Evaluation

theorem applyMember_norm {c : Setting} (hprograms : c.programs.SeesNormal) (s : LedgerState)
    (index : Nat) (id : String) {stxn : SignedTransaction} (h : stxn.Plain) :
    applyMember { c with group := c.group.map norm } s index id stxn.norm =
      applyMember c s index id stxn := by
  have hheader (round : Nat) : verifyHeader stxn.norm.transaction.header round =
      verifyHeader stxn.transaction.header round := by
    rw [← verifyHeader_norm h.transaction.header round, ← header_norm]
    rfl
  have hsender : stxn.norm.transaction.sender = stxn.transaction.sender :=
    stxn.transaction.sender_norm
  have happly : s.apply c.programs (c.group.map norm) index stxn.norm.transaction =
      s.apply c.programs c.group index stxn.transaction :=
    LedgerState.apply_norm hprograms h.transaction
  rw [applyMember, applyMember]
  simp only [hheader, hsender, happly, SignedTransaction.isUnsigned_norm,
    SignedTransaction.verify_norm h]
  rfl

theorem applyFrom_norm {c : Setting} (hprograms : c.programs.SeesNormal) (s : LedgerState)
    (index : Nat) {signed : List SignedTransaction} (h : ∀ stxn ∈ signed, stxn.Plain) :
    applyFrom { c with group := c.group.map norm } s index (signed.map (·.norm)) =
      applyFrom c s index signed := by
  induction signed generalizing s index with
  | nil => rfl
  | cons stxn rest ih =>
    rw [List.forall_mem_cons] at h
    rw [List.map_cons, applyFrom, applyFrom]
    simp only [SignedTransaction.id_norm, applyMember_norm hprograms s index _ h.1, ih _ _ h.2]

theorem ofGroup_norm {programs : ProgramTable} (hprograms : programs.SeesNormal)
    (base : LedgerState) {signed : List SignedTransaction} (h : ∀ stxn ∈ signed, stxn.Plain)
    (allowUnsigned : Bool) :
    ofGroup programs base (signed.map (·.norm)) allowUnsigned =
      ofGroup programs base signed allowUnsigned := by
  have hgroup : (signed.map (·.norm)).map (·.transaction) =
      (signed.map (·.transaction)).map norm := by
    rw [List.map_map, List.map_map]
    rfl
  have hplain : ∀ t ∈ signed.map (·.transaction), t.Plain := by
    intro t ht
    obtain ⟨stxn, hmem, rfl⟩ := List.mem_map.mp ht
    exact (h stxn hmem).transaction
  let c : Setting := { programs, base, group := signed.map (·.transaction), allowUnsigned }
  have hfrom := applyFrom_norm (c := c) hprograms base 0 h
  simp only [ofGroup, List.isEmpty_map, List.length_map, hgroup, verifyGroup_norm hplain,
    verifyFees_norm]
  simp only [c] at hfrom
  rw [hfrom]
  rfl

end Evaluation

namespace Ledger

variable {l : Ledger} {signed : List SignedTransaction}

theorem submit_norm (hprograms : l.programs.SeesNormal) (h : ∀ stxn ∈ signed, stxn.Plain) :
    (l.submit (signed.map (·.norm))).1 = (l.submit signed).1 ∧
      (l.submit (signed.map (·.norm))).2.state = (l.submit signed).2.state := by
  rw [submit, submit]
  cases l.faults.submission with
  | some reason => exact ⟨rfl, rfl⟩
  | none =>
    simp only [Evaluation.ofGroup_norm hprograms l.state h false]
    cases Evaluation.ofGroup l.programs l.state signed false with
    | error why => exact ⟨rfl, rfl⟩
    | ok e => exact ⟨rfl, rfl⟩

end Ledger

end AppLedger
