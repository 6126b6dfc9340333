import AppLedger.Ledger.Evaluation
import AppLedger.Proofs.Ledger.Call

/-! What an accepted group has passed, and what its members do one after the other. -/

namespace AppLedger.Evaluation

variable {c : Setting} {s s' : LedgerState} {index : Nat} {id : String} {stxn : SignedTransaction}
  {signed : List SignedTransaction} {confirmation : Confirmation}
  {results : List (String × Confirmation)}

theorem applyMember_cases (h : applyMember c s index id stxn = .ok (confirmation, s')) :
    c.base.confirmations.contains id = false ∧
      verifyHeader stxn.transaction.header c.round = .ok () ∧
      (stxn.isUnsigned = true ∧ c.allowUnsigned = true ∨
        stxn.verify (s.authorizer stxn.transaction.sender) = .ok ()) ∧
      s.apply c.programs c.group index stxn.transaction = .ok (confirmation, s') := by
  rw [applyMember] at h
  by_cases hknown : c.base.confirmations.contains id = true
  · simp only [if_pos hknown] at h
    exact absurd h throw_bind_ne_ok
  · simp only [if_neg hknown] at h
    obtain ⟨⟨⟩, hheader, h⟩ := bind_eq_ok.mp h
    refine ⟨eq_false_of_ne_true hknown, hheader, ?_⟩
    by_cases hunsigned : (stxn.isUnsigned && c.allowUnsigned) = true
    · simp only [if_pos hunsigned] at h
      exact ⟨.inl (Bool.and_eq_true_iff.mp hunsigned), mapError_eq_ok.mp h⟩
    · simp only [if_neg hunsigned] at h
      obtain ⟨⟨⟩, hverify, h⟩ := bind_eq_ok.mp h
      exact ⟨.inr (mapError_eq_ok.mp hverify), mapError_eq_ok.mp h⟩

theorem applyMember_of_checks (hfresh : c.base.confirmations.contains id = false)
    (hheader : verifyHeader stxn.transaction.header c.round = .ok ())
    (hauthorized : stxn.isUnsigned = true ∧ c.allowUnsigned = true ∨
      stxn.verify (s.authorizer stxn.transaction.sender) = .ok ())
    (happly : s.apply c.programs c.group index stxn.transaction = .ok (confirmation, s')) :
    applyMember c s index id stxn = .ok (confirmation, s') := by
  have hknown : ¬ c.base.confirmations.contains id = true := by
    rw [hfresh]
    exact Bool.false_ne_true
  have hcall := mapError_eq_ok (f := MemberRejection.call).mpr happly
  simp only [applyMember, if_neg hknown]
  refine bind_eq_ok.mpr ⟨(), hheader, ?_⟩
  by_cases hunsigned : (stxn.isUnsigned && c.allowUnsigned) = true
  · rw [if_pos hunsigned]
    exact hcall
  · rw [if_neg hunsigned]
    have hverify := hauthorized.resolve_left fun h => hunsigned (Bool.and_eq_true_iff.mpr h)
    exact bind_eq_ok.mpr ⟨(), mapError_eq_ok.mpr hverify, hcall⟩

theorem applyFrom_cons {rest : List SignedTransaction}
    (h : applyFrom c s index (stxn :: rest) = .ok (results, s')) :
    ∃ id confirmation mid results', stxn.id = .ok id ∧
      applyMember c s index id stxn = .ok (confirmation, mid) ∧
      applyFrom c mid (index + 1) rest = .ok (results', s') ∧
      results = (id, confirmation) :: results' := by
  rw [applyFrom] at h
  obtain ⟨id, hid, h⟩ := bind_eq_ok.mp h
  obtain ⟨⟨confirmation, mid⟩, hmember, h⟩ := bind_eq_ok.mp h
  obtain ⟨⟨results', _⟩, hrest, h⟩ := bind_eq_ok.mp h
  obtain ⟨rfl, rfl⟩ := Prod.mk.inj (Except.ok.inj h)
  exact ⟨id, confirmation, mid, results', mapError_eq_ok.mp hid, mapError_eq_ok.mp hmember, hrest,
    rfl⟩

/-- What an accepted group has passed before its members take effect. -/
structure Accepted (programs : ProgramTable) (base : LedgerState) (signed : List SignedTransaction)
    (allowUnsigned : Bool) (e : Evaluation) : Prop where
  nonempty : signed ≠ []
  size : signed.length ≤ maxGroupSize
  group : verifyGroup (signed.map (·.transaction)) = .ok ()
  fees : verifyFees (signed.map (·.transaction)) = .ok ()
  round : e.round = base.lastRound + 1
  members : applyFrom ⟨programs, base, signed.map (·.transaction), allowUnsigned⟩ base 0 signed =
    .ok (e.results, e.state)

theorem accepted_of_ofGroup {programs : ProgramTable} {base : LedgerState} {allowUnsigned : Bool}
    {e : Evaluation} (h : ofGroup programs base signed allowUnsigned = .ok e) :
    Accepted programs base signed allowUnsigned e := by
  rw [ofGroup] at h
  by_cases hempty : signed.isEmpty = true
  · simp only [if_pos hempty] at h
    exact absurd h throw_bind_ne_ok
  · by_cases hsize : maxGroupSize < signed.length
    · simp only [if_neg hempty, if_pos hsize] at h
      exact absurd h throw_bind_ne_ok
    · simp only [if_neg hempty, if_neg hsize] at h
      obtain ⟨⟨⟩, hgroup, h⟩ := bind_eq_ok.mp h
      obtain ⟨⟨⟩, hfees, h⟩ := bind_eq_ok.mp h
      obtain ⟨⟨results, state⟩, hmembers, h⟩ := bind_eq_ok.mp h
      obtain rfl := Except.ok.inj h
      exact ⟨fun hnil => hempty (List.isEmpty_iff.mpr hnil), Nat.not_lt.mp hsize, hgroup, hfees,
        rfl, hmembers⟩

theorem ofGroup_of_accepted {programs : ProgramTable} {base : LedgerState} {allowUnsigned : Bool}
    {e : Evaluation} (h : Accepted programs base signed allowUnsigned e) :
    ofGroup programs base signed allowUnsigned = .ok e := by
  have hempty : ¬ signed.isEmpty = true := fun hempty => h.nonempty (List.isEmpty_iff.mp hempty)
  simp only [ofGroup, if_neg hempty, if_neg (Nat.not_lt.mpr h.size)]
  refine bind_eq_ok.mpr ⟨(), h.group, bind_eq_ok.mpr ⟨(), h.fees, bind_eq_ok.mpr
    ⟨_, h.members, ?_⟩⟩⟩
  rw [Setting.round, ← h.round]
  rfl

/-! ## All members -/

/-- What every transaction keeps of the state, the members keep together. -/
theorem applyFrom_keeps {P : LedgerState → Prop}
    (hkeeps : ∀ s s' index t confirmation, P s →
      s.apply c.programs c.group index t = .ok (confirmation, s') → P s')
    (hs : P s) (h : applyFrom c s index signed = .ok (results, s')) : P s' := by
  induction signed generalizing s index results with
  | nil =>
    obtain ⟨-, rfl⟩ := Prod.mk.inj (Except.ok.inj h)
    exact hs
  | cons stxn rest ih =>
    obtain ⟨id, confirmation, mid, results', -, hmember, hrest, -⟩ := applyFrom_cons h
    obtain ⟨-, -, -, happly⟩ := applyMember_cases hmember
    exact ih (hkeeps s mid index _ confirmation hs happly) hrest

theorem sameChain_applyFrom (h : applyFrom c s index signed = .ok (results, s')) :
    s.SameChain s' := by
  refine applyFrom_keeps (P := s.SameChain) ?_ (.refl s) h
  intro mid mid' index t confirmation hmid happly
  exact hmid.trans (LedgerState.sameChain_apply happly)

/-- There is a result for each member, under its identity. -/
theorem ids_of_applyFrom (h : applyFrom c s index signed = .ok (results, s')) :
    signed.mapM SignedTransaction.id = .ok (results.map Prod.fst) := by
  induction signed generalizing s index results with
  | nil =>
    obtain ⟨rfl, -⟩ := Prod.mk.inj (Except.ok.inj h)
    rfl
  | cons stxn rest ih =>
    obtain ⟨id, confirmation, mid, results', hid, -, hrest, rfl⟩ := applyFrom_cons h
    exact mapM_eq_ok.mpr (.cons hid (mapM_eq_ok.mp (ih hrest)))

/-- No member is known to the ledger from before the group. -/
theorem fresh_of_applyFrom (h : applyFrom c s index signed = .ok (results, s')) :
    ∀ r ∈ results, c.base.confirmations.contains r.1 = false := by
  induction signed generalizing s index results with
  | nil =>
    obtain ⟨rfl, -⟩ := Prod.mk.inj (Except.ok.inj h)
    exact nofun
  | cons stxn rest ih =>
    obtain ⟨id, confirmation, mid, results', -, hmember, hrest, rfl⟩ := applyFrom_cons h
    exact List.forall_mem_cons.mpr ⟨(applyMember_cases hmember).1, ih hrest⟩

/-- A transaction by itself that is accepted. -/
theorem single_of_accepted {programs : ProgramTable} {base : LedgerState} {allowUnsigned : Bool}
    {e : Evaluation} (h : Accepted programs base [stxn] allowUnsigned e) :
    ∃ id confirmation, stxn.id = .ok id ∧ e.results = [(id, confirmation)] ∧
      base.confirmations.contains id = false ∧
      base.apply programs [stxn.transaction] 0 stxn.transaction = .ok (confirmation, e.state) := by
  obtain ⟨id, confirmation, mid, results', hid, hmember, hrest, hresults⟩ :=
    applyFrom_cons h.members
  obtain ⟨rfl, rfl⟩ := Prod.mk.inj (Except.ok.inj hrest)
  obtain ⟨hfresh, -, -, happly⟩ := applyMember_cases hmember
  exact ⟨id, confirmation, hid, hresults, hfresh, happly⟩

end AppLedger.Evaluation
