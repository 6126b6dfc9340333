import AppLedger.Proofs.Effect
import AppLedger.Proofs.Ledger.Run
import AppLedger.Proofs.Transaction.RoundTrip

/-! A simulation says what a group does when it is sent, since signatures are all that it may do
without. What it says of transactions that are the same is not kept apart once they are sent. -/

namespace AppLedger

variable {signed : List SignedTransaction} {stxn : SignedTransaction} {id : String}

/-- What a transaction has done, apart from the round. -/
def Confirmation.effect (c : Confirmation) : Option UInt64 × List Bytes :=
  (c.createdApp, c.logs)

namespace Evaluation

theorem applyMember_signed (h : stxn.isUnsigned = false) (c : Setting) (allowUnsigned : Bool)
    (s : LedgerState) (index : Nat) (id : String) :
    applyMember { c with allowUnsigned } s index id stxn = applyMember c s index id stxn := by
  simp only [applyMember, h, Bool.false_and]
  rfl

theorem applyFrom_signed (h : ∀ stxn ∈ signed, stxn.isUnsigned = false) (c : Setting)
    (allowUnsigned : Bool) (s : LedgerState) (index : Nat) :
    applyFrom { c with allowUnsigned } s index signed = applyFrom c s index signed := by
  induction signed generalizing s index with
  | nil => rfl
  | cons stxn rest ih =>
    obtain ⟨hstxn, hrest⟩ := List.forall_mem_cons.mp h
    simp only [applyFrom, applyMember_signed hstxn, ih hrest]

/-- Nothing but a missing signature is overlooked. -/
theorem ofGroup_signed (h : ∀ stxn ∈ signed, stxn.isUnsigned = false) (programs : ProgramTable)
    (base : LedgerState) (allowUnsigned : Bool) :
    ofGroup programs base signed allowUnsigned = ofGroup programs base signed false := by
  have hmembers := applyFrom_signed h
    ⟨programs, base, signed.map (·.transaction), false⟩ allowUnsigned base 0
  simp only [ofGroup, hmembers]
  rfl

end Evaluation

/-- Groups are taken and confirmed at once. -/
structure Faults.Confirms (f : Faults) : Prop where
  submission : f.submission = none
  pool : f.pool = none
  stall : f.stall = false

namespace Ledger

variable {l : Ledger} {e : Evaluation}

theorem submit_of_rejected (hfaults : l.faults.Confirms) {why : GroupRejection}
    (h : Evaluation.ofGroup l.programs l.state signed false = .error why) :
    l.submit signed = (.error (.rejected ("TransactionPool.Remember: " ++ why.message)),
      { l with submitted := l.submitted ++ [signed] }) := by
  simp only [submit, hfaults.submission, h]
  rfl

theorem submit_of_accepted (hfaults : l.faults.Confirms)
    (h : Evaluation.ofGroup l.programs l.state signed false = .ok e) :
    l.submit signed = (.ok (firstId e),
      { l with submitted := l.submitted ++ [signed], state := withConfirmed e }) := by
  have hconfirmed : (l.faults.pool.isSome || l.faults.stall) = false := by
    rw [hfaults.pool, hfaults.stall]
    rfl
  simp only [submit, hfaults.submission, h, hconfirmed, Bool.false_eq_true, if_false]

theorem simulate_of_rejected (hsigned : ∀ stxn ∈ signed, stxn.isUnsigned = false)
    {why : GroupRejection}
    (h : Evaluation.ofGroup l.programs l.state signed false = .error why) :
    l.simulate signed =
      { lastRound := l.state.lastRound, failure := some why.message, results := [] } := by
  simp only [simulate, Evaluation.ofGroup_signed hsigned, h]

theorem simulate_of_accepted (hsigned : ∀ stxn ∈ signed, stxn.isUnsigned = false)
    (h : Evaluation.ofGroup l.programs l.state signed false = .ok e) :
    l.simulate signed =
      { lastRound := l.state.lastRound, failure := none, results := e.results.map Prod.snd } := by
  simp only [simulate, Evaluation.ofGroup_signed hsigned, h]

/-! ## What is kept of a group -/

theorem get?_record_of_not_mem {t : Table String Confirmation}
    {results : List (String × Confirmation)} (h : id ∉ results.map Prod.fst) :
    (record t results).get? id = t.get? id := by
  induction results generalizing t with
  | nil => rfl
  | cons r results ih =>
    rw [List.map_cons, List.mem_cons, not_or] at h
    rw [record, List.foldl_cons, ← record, ih h.2, Table.get?_put, if_neg (Ne.symm h.1)]

/-- The last of the results under an identity stays. -/
theorem exists_get?_record {t : Table String Confirmation}
    {results : List (String × Confirmation)} (h : id ∈ results.map Prod.fst) :
    ∃ c, (id, c) ∈ results ∧ (record t results).get? id = some c := by
  induction results generalizing t with
  | nil => simp at h
  | cons r results ih =>
    rw [record, List.foldl_cons, ← record]
    by_cases hlater : id ∈ results.map Prod.fst
    · obtain ⟨c, hmem, hget⟩ := ih (t := t.put r.1 r.2) hlater
      exact ⟨c, List.mem_cons_of_mem _ hmem, hget⟩
    · obtain rfl : id = r.1 := (List.mem_cons.mp h).resolve_right hlater
      refine ⟨r.2, List.mem_cons_self, ?_⟩
      rw [get?_record_of_not_mem hlater, Table.get?_put_self]

theorem get?_withPending_of_not_mem (s : LedgerState) (faults : Faults)
    (h : id ∉ e.results.map Prod.fst) :
    (withPending s faults e).confirmations.get? id = s.confirmations.get? id := by
  rw [withPending, get?_record_of_not_mem (by rwa [List.map_map])]

theorem get?_withConfirmed_of_not_mem (h : id ∉ e.results.map Prod.fst) :
    (withConfirmed e).confirmations.get? id = e.state.confirmations.get? id := by
  rw [withConfirmed, get?_record_of_not_mem (by rwa [List.map_map])]

theorem exists_get?_withConfirmed (h : id ∈ e.results.map Prod.fst) :
    ∃ c, (id, c) ∈ e.results ∧
      (withConfirmed e).confirmations.get? id = some { c with round := some e.round } := by
  have hmem : id ∈ (e.results.map fun r => (r.1, { r.2 with round := some e.round })).map
      Prod.fst := by
    rw [List.map_map]
    exact h
  obtain ⟨c, hc, hget⟩ := exists_get?_record (t := e.state.confirmations) hmem
  obtain ⟨r, hr, heq⟩ := List.mem_map.mp hc
  obtain ⟨rfl, rfl⟩ := Prod.mk.inj heq
  exact ⟨r.2, hr, hget⟩

theorem get?_withConfirmed_cases {c : Confirmation}
    (h : (withConfirmed e).confirmations.get? id = some c) :
    (∃ c', (id, c') ∈ e.results ∧ c = { c' with round := some e.round }) ∨
      e.state.confirmations.get? id = some c := by
  by_cases hid : id ∈ e.results.map Prod.fst
  · obtain ⟨c', hmem, hget⟩ := exists_get?_withConfirmed hid
    exact .inl ⟨c', hmem, Option.some.inj (h.symm.trans hget)⟩
  · exact .inr ((get?_withConfirmed_of_not_mem hid).symm.trans h)

theorem get?_withPending_cases {s : LedgerState} {faults : Faults} {c : Confirmation}
    (h : (withPending s faults e).confirmations.get? id = some c) :
    c = { poolError := faults.pool.getD "" } ∨ s.confirmations.get? id = some c := by
  by_cases hid : id ∈ (e.results.map fun r =>
      (r.1, { poolError := faults.pool.getD "" : Confirmation })).map Prod.fst
  · obtain ⟨c', hmem, hget⟩ := exists_get?_record (t := s.confirmations) hid
    obtain ⟨r, -, heq⟩ := List.mem_map.mp hmem
    obtain ⟨-, rfl⟩ := Prod.mk.inj heq
    exact .inl (Option.some.inj (h.symm.trans hget))
  · exact .inr ((get?_record_of_not_mem hid).symm.trans h)

theorem effect_pending {c : Confirmation} (h : l.state.confirmations.get? id = some c) :
    (l.pending id).map Confirmation.effect = .ok c.effect := by
  rw [pending, h]
  rfl

theorem pending_of_last (hstate : l.state = withConfirmed e)
    {before : List (String × Confirmation)} {c : Confirmation}
    (h : e.results = before ++ [(id, c)]) :
    (l.pending id).map Confirmation.effect = .ok c.effect := by
  refine effect_pending (c := { c with round := some e.round }) ?_
  rw [hstate, withConfirmed, h, record, List.map_append, List.foldl_append]
  exact Table.get?_put_self _ _ _

/-- What is confirmed of a transaction is what one of the members under its identity has done. -/
theorem exists_pending_confirmed (hstate : l.state = withConfirmed e)
    (h : id ∈ e.results.map Prod.fst) :
    ∃ c, (id, c) ∈ e.results ∧ (l.pending id).map Confirmation.effect = .ok c.effect := by
  obtain ⟨c, hc, hget⟩ := exists_get?_withConfirmed h
  rw [← hstate] at hget
  have heffect := effect_pending hget
  exact ⟨c, hc, heffect⟩

theorem pending_confirmed_iff (hstate : l.state = withConfirmed e) :
    ((e.results.map Prod.fst).map (fun id => (l.pending id).map Confirmation.effect) =
        (e.results.map Prod.snd).map fun c => .ok c.effect) ↔
      ∀ p ∈ e.results, ∀ q ∈ e.results, p.1 = q.1 → p.2.effect = q.2.effect := by
  have hpending (p : String × Confirmation) (hp : p ∈ e.results) :
      ∃ c, (p.1, c) ∈ e.results ∧ (l.pending p.1).map Confirmation.effect = .ok c.effect :=
    exists_pending_confirmed hstate (List.mem_map_of_mem hp)
  rw [List.map_map, List.map_map, List.map_inj_left]
  constructor
  · intro hsame p hp q hq hid
    have hpsame := hsame p hp
    have hqsame := hsame q hq
    dsimp only [Function.comp] at hpsame hqsame
    rw [hid, hqsame] at hpsame
    exact (Except.ok.inj hpsame).symm
  · intro hsame p hp
    obtain ⟨c, hc, hget⟩ := hpending p hp
    dsimp only [Function.comp]
    rw [hget, hsame _ hc p hp rfl]

/-! ## Simulation and submission -/

theorem results_of_accepted (hfaults : l.faults.Confirms)
    (hsigned : ∀ stxn ∈ signed, stxn.isUnsigned = false)
    (h : Evaluation.ofGroup l.programs l.state signed false = .ok e) :
    ∃ ids, signed.mapM SignedTransaction.id = .ok ids ∧
      (ids.map (fun id => ((l.submit signed).2.pending id).map Confirmation.effect) =
          (l.simulate signed).results.map (fun c => .ok c.effect) ↔
        ∀ p ∈ ids.zip (l.simulate signed).results, ∀ q ∈ ids.zip (l.simulate signed).results,
          p.1 = q.1 → p.2.effect = q.2.effect) := by
  have hids := Evaluation.ids_of_applyFrom (Evaluation.accepted_of_ofGroup h).members
  have hzip : (e.results.map Prod.fst).zip (e.results.map Prod.snd) = e.results := by
    rw [← List.unzip_fst, ← List.unzip_snd, List.zip_unzip]
  refine ⟨_, hids, ?_⟩
  rw [submit_of_accepted hfaults h, simulate_of_accepted hsigned h, hzip]
  exact pending_confirmed_iff rfl

/-- A simulation changes nothing. If groups are confirmed at once and every member carries a
signature, it reports no failure for the groups that are accepted, and for the others the failure
with which they are refused. What it reports of the members, in their order, is what is confirmed of
them if and only if members with one identity do the same. -/
theorem simulate_submit (l : Ledger) (signed : List SignedTransaction) :
    (node.simulate signed).outcome l = (.ok (l.simulate signed), l) ∧
    (l.faults.Confirms → (∀ stxn ∈ signed, stxn.isUnsigned = false) →
      ((l.simulate signed).failure = none ↔ ∃ id, (l.submit signed).1 = .ok id) ∧
      (∀ why, (l.simulate signed).failure = some why →
        (l.submit signed).1 = .error (.rejected ("TransactionPool.Remember: " ++ why))) ∧
      ((l.simulate signed).failure = none → ∃ ids, signed.mapM SignedTransaction.id = .ok ids ∧
        (ids.map (fun id => ((l.submit signed).2.pending id).map Confirmation.effect) =
            (l.simulate signed).results.map (fun c => .ok c.effect) ↔
          ∀ p ∈ ids.zip (l.simulate signed).results, ∀ q ∈ ids.zip (l.simulate signed).results,
            p.1 = q.1 → p.2.effect = q.2.effect))) := by
  refine ⟨rfl, fun hfaults hsigned => ?_⟩
  cases h : Evaluation.ofGroup l.programs l.state signed false with
  | error why =>
    have hsimulate := simulate_of_rejected hsigned h
    have hsubmit := submit_of_rejected hfaults h
    rw [hsimulate, hsubmit]
    refine ⟨iff_of_false (by simp) (by simp), ?_, by simp⟩
    rintro _ ⟨⟩
    rfl
  | ok e =>
    have hsimulate := simulate_of_accepted hsigned h
    have hsubmit := submit_of_accepted hfaults h
    refine ⟨?_, ?_, fun _ => results_of_accepted hfaults hsigned h⟩
    · rw [hsimulate, hsubmit]
      exact iff_of_true rfl ⟨_, rfl⟩
    · rw [hsimulate]
      exact nofun

/-- A payment by a program, alone in its group. -/
theorem simulate_submit_payment :
    let logicSig : LogicSig := { logic := [8, 1] }
    let header : Header :=
      { sender := logicSig.address, fee := some 1000, firstValid := 1, lastValid := 100 }
    let stxn : SignedTransaction :=
      { logicSig := some logicSig, transaction := .payment ⟨header, .zero, 5, none⟩ }
    let l : Ledger := {}
    (l.simulate [stxn]).failure = none ∧ ∃ id, (l.submit [stxn]).1 = .ok id := by
  intro logicSig header stxn l
  have hfailure : (l.simulate [stxn]).failure = none := by decide +kernel
  have hsigned : ∀ s ∈ [stxn], s.isUnsigned = false := List.forall_mem_singleton.mpr rfl
  obtain ⟨-, hpredicts⟩ := simulate_submit l [stxn]
  exact ⟨hfailure, (hpredicts ⟨rfl, rfl, rfl⟩ hsigned).1.mp hfailure⟩

/-- The simulation of a group in which the creation of an application stands twice tells the two
applications apart. Both are created when the group is sent, and the second one is confirmed of
either member. -/
theorem simulate_creations :
    let logicSig : LogicSig := { logic := [8, 1] }
    let header : Header :=
      { sender := logicSig.address, fee := some 1000, firstValid := 1, lastValid := 100 }
    let creation : Transaction :=
      .appCall { header, app := 0, approval := some [8, 1], clear := some [8, 1] }
    let group := (Transaction.groupId [creation, creation]).toOption
    let stxn : SignedTransaction :=
      { logicSig := some logicSig, transaction := creation.withGroup group }
    let l : Ledger := {}
    stxn.isUnsigned = false ∧
      (l.simulate [stxn, stxn]).results.map Confirmation.effect =
        [(some 1001, []), (some 1002, [])] ∧
      ∃ id, stxn.id = .ok id ∧
        ((l.submit [stxn, stxn]).2.pending id).map Confirmation.effect = .ok (some 1002, []) := by
  intro logicSig header creation group stxn l
  have hsimulated : (l.simulate [stxn, stxn]).results.map Confirmation.effect =
      [(some 1001, []), (some 1002, [])] := by
    decide +kernel
  have hsigned : ∀ s ∈ [stxn, stxn], s.isUnsigned = false := by
    rw [List.forall_mem_cons, List.forall_mem_singleton]
    exact ⟨rfl, rfl⟩
  cases h : Evaluation.ofGroup l.programs l.state [stxn, stxn] false with
  | error why =>
    rw [simulate_of_rejected hsigned h] at hsimulated
    simp at hsimulated
  | ok e =>
    obtain ⟨message, hencode⟩ := Transaction.exists_encode (t := stxn.transaction) (by rintro _ ⟨⟩)
    have hid : stxn.id = .ok (Transaction.idText (digest message)) :=
      Transaction.id_of_encode hencode
    have hids := Evaluation.ids_of_applyFrom (Evaluation.accepted_of_ofGroup h).members
    rw [mapM_eq_ok.mpr (.cons hid (.cons hid .nil))] at hids
    refine ⟨rfl, hsimulated, _, hid, ?_⟩
    rw [simulate_of_accepted hsigned h] at hsimulated
    obtain ⟨⟨_, first⟩, rest, hresults, rfl, hrest⟩ :=
      List.map_eq_cons_iff.mp (Except.ok.inj hids).symm
    obtain ⟨⟨_, second⟩, none, rfl, rfl, hnone⟩ := List.map_eq_cons_iff.mp hrest
    obtain rfl := List.map_eq_nil_iff.mp hnone
    have hlast : e.results = [(_, first)] ++ [(_, second)] := hresults
    rw [submit_of_accepted ⟨rfl, rfl, rfl⟩ h, pending_of_last rfl hlast]
    rw [hresults] at hsimulated
    exact congrArg Except.ok (List.cons.inj (List.cons.inj hsimulated).2).1

end Ledger

end AppLedger
