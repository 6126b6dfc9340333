import AppLedger.Proofs.Ledger.Run
import Mathlib.Data.List.Nodup

/-! A transaction that has taken effect is known to the ledger for good, and no later group with it
is taken. Within one group nothing keeps a transaction from taking effect again. -/

namespace AppLedger.Ledger

variable {l : Ledger} {op : LedgerOp} {id : String}

/-- The ledger has taken a group with the transaction before. -/
def Knows (l : Ledger) (id : String) : Prop :=
  l.state.confirmations.contains id = true

theorem contains_record {t : Table String Confirmation} {results : List (String × Confirmation)} :
    (record t results).contains id = true ↔
      t.contains id = true ∨ id ∈ results.map Prod.fst := by
  induction results generalizing t with
  | nil => simp [record]
  | cons r results ih =>
    have hput : (t.put r.1 r.2).contains id = true ↔ r.1 = id ∨ t.contains id = true := by
      rw [Table.contains, Table.get?_put]
      by_cases h : r.1 = id <;> simp [h, Table.contains]
    rw [record, List.foldl_cons, ← record, ih, hput, List.map_cons, List.mem_cons,
      eq_comm (a := id)]
    tauto

theorem knows_withConfirmed {signed : List SignedTransaction} {e : Evaluation}
    (h : Evaluation.Accepted l.programs l.state signed false e) :
    (withConfirmed e).confirmations.contains id = true ↔
      l.Knows id ∨ id ∈ e.results.map Prod.fst := by
  have hchain := Evaluation.sameChain_applyFrom h.members
  rw [withConfirmed, contains_record, hchain.confirmations, List.map_map]
  rfl

theorem knows_withPending {e : Evaluation} :
    (withPending l.state l.faults e).confirmations.contains id = true ↔
      l.Knows id ∨ id ∈ e.results.map Prod.fst := by
  rw [withPending, contains_record, List.map_map]
  rfl

theorem knows_perform (op : LedgerOp) (h : l.Knows id) : (l.perform op).Knows id := by
  rw [Knows]
  cases performed l op with
  | confirmed _ haccepted hstate =>
    rw [hstate]
    exact (knows_withConfirmed haccepted).mpr (.inl h)
  | pending _ _ hstate =>
    rw [hstate]
    exact knows_withPending.mpr (.inl h)
  | waited | funded => exact h
  | kept _ hstate =>
    rw [hstate]
    exact h

/-- A transaction that takes effect comes from a group that is confirmed. -/
theorem exists_of_applied (h : id ∈ l.applied op) :
    ∃ signed e, op = .submit signed ∧ l.confirmed? signed = some e ∧
      id ∈ e.results.map Prod.fst := by
  cases op with
  | submit signed =>
    rw [applied] at h
    cases hconfirmed : l.confirmed? signed with
    | none => simp [hconfirmed] at h
    | some e => exact ⟨signed, e, rfl, hconfirmed, by simpa [hconfirmed] using h⟩
  | simulate | waitForBlock | compile | fund | register | setFaults => simp [applied] at h

theorem not_knows_of_applied (h : id ∈ l.applied op) : ¬ l.Knows id := by
  obtain ⟨signed, e, -, hconfirmed, hid⟩ := exists_of_applied h
  obtain ⟨r, hr, rfl⟩ := List.mem_map.mp hid
  have hfresh := Evaluation.fresh_of_applyFrom (accepted_of_confirmed? hconfirmed).members r hr
  exact Bool.eq_false_iff.mp hfresh

theorem knows_of_applied (h : id ∈ l.applied op) : (l.perform op).Knows id := by
  obtain ⟨signed, e, rfl, hconfirmed, hid⟩ := exists_of_applied h
  have haccepted := accepted_of_confirmed? hconfirmed
  obtain ⟨_, -, hnone⟩ | ⟨e', -, ⟨hnone, -⟩ | ⟨hsome, hsubmit⟩⟩ := submit_cases l signed
  · simp [hconfirmed] at hnone
  · simp [hconfirmed] at hnone
  · obtain rfl := Option.some.inj (hconfirmed.symm.trans hsome)
    rw [Knows, perform_submit, hsubmit]
    exact (knows_withConfirmed haccepted).mpr (.inr hid)

/-- Every member takes effect, one that stands in the group twice does so twice. -/
theorem nodup_of_applied {signed : List SignedTransaction} {e : Evaluation}
    (h : l.confirmed? signed = some e) (hnodup : (l.applied (.submit signed)).Nodup) :
    signed.Nodup := by
  have hids := mapM_eq_ok.mp (Evaluation.ids_of_applyFrom (accepted_of_confirmed? h).members)
  have happlied : l.applied (.submit signed) = e.results.map Prod.fst := by
    rw [applied, h, Option.elim_some]
  rw [happlied] at hnodup
  have hmap : e.results.map Prod.fst = signed.map fun stxn => stxn.id.toOption.getD "" := by
    clear happlied hnodup h
    generalize e.results.map Prod.fst = ids at hids
    induction hids with
    | nil => rfl
    | cons hid _ ih => rw [List.map_cons, hid, ih]; rfl
  rw [hmap] at hnodup
  exact hnodup.of_map _

/-! ## Runs -/

/-- The transactions that take effect in a run, for each operation. -/
def history (l : Ledger) : List LedgerOp → List (List String)
  | [] => []
  | op :: ops => l.applied op :: (l.perform op).history ops

theorem not_knows_of_history {ops : List LedgerOp} {ids : List String}
    (hids : ids ∈ l.history ops) (h : id ∈ ids) : ¬ l.Knows id := by
  induction ops generalizing l with
  | nil => simp [history] at hids
  | cons op ops ih =>
    rcases List.mem_cons.mp hids with rfl | hrest
    · exact not_knows_of_applied h
    · exact fun hknows => ih hrest (knows_perform op hknows)

theorem pairwise_history (l : Ledger) (ops : List LedgerOp) :
    (l.history ops).Pairwise List.Disjoint := by
  induction ops generalizing l with
  | nil => exact .nil
  | cons op ops ih =>
    refine .cons (fun ids hids => ?_) (ih (l.perform op))
    exact fun id hid hlater => not_knows_of_history hids hlater (knows_of_applied hid)

/-- A transaction takes effect once in a run of operations, unless it takes effect more than once
within one group. -/
theorem history_nodup_iff (l : Ledger) (ops : List LedgerOp) :
    (l.history ops).flatten.Nodup ↔ ∀ ids ∈ l.history ops, ids.Nodup := by
  rw [List.nodup_flatten]
  exact and_iff_left (pairwise_history l ops)

/-- A payment that stands in its group twice is made twice. -/
theorem history_twice :
    let logicSig : LogicSig := { logic := [8, 1] }
    let receiver : Address := ⟨⟨List.replicate 32 5, by decide⟩⟩
    let payment : Transaction := .payment
      { header :=
          { sender := logicSig.address, fee := some 1000, firstValid := 1, lastValid := 100 }
        receiver, amount := 100 }
    let group := (Transaction.groupId [payment, payment]).toOption
    let stxn : SignedTransaction :=
      { logicSig := some logicSig, transaction := payment.withGroup group }
    let ops : List LedgerOp := [.fund logicSig.address 10000, .submit [stxn, stxn]]
    (({} : Ledger).run ops).state.balance receiver = 200 ∧
      ¬ (({} : Ledger).history ops).flatten.Nodup := by
  intro logicSig receiver payment group stxn ops
  have hbalance : (({} : Ledger).run ops).state.balance receiver = 200 := by decide +kernel
  have hbefore : (({} : Ledger).fund logicSig.address 10000).state.balance receiver = 0 := by
    decide +kernel
  refine ⟨hbalance, fun hnodup => ?_⟩
  cases hconfirmed : (({} : Ledger).fund logicSig.address 10000).confirmed? [stxn, stxn] with
  | none =>
    rw [run_cons, run_cons, run_nil, perform_fund, perform_submit,
      balance_of_not_confirmed hconfirmed, hbefore] at hbalance
    simp at hbalance
  | some e =>
    have hgroups := (List.nodup_flatten.mp hnodup).1
    have htwice := nodup_of_applied hconfirmed (hgroups _ (by simp [ops, history, perform]))
    simp at htwice

end AppLedger.Ledger
