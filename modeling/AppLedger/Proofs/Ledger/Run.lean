import AppLedger.Ledger.Basic
import AppLedger.Proofs.Ledger.Evaluation

/-! Everything that can be done to a ledger, and what each of it leaves behind. -/

namespace AppLedger

/-- What is asked of a ledger, or set on it. -/
inductive LedgerOp
  | submit (signed : List SignedTransaction)
  | simulate (signed : List SignedTransaction)
  | waitForBlock (round : Nat)
  | compile (source : String) (version : UInt8)
  | fund (account : Address) (amount : Nat)
  | register (source : String) (version : UInt8) (program : ApprovalProgram)
  | setFaults (faults : Faults)

namespace Ledger

def perform (l : Ledger) : LedgerOp → Ledger
  | .submit signed => (node.submit signed l).2
  | .simulate signed => (node.simulate signed l).2
  | .waitForBlock round => (node.waitForBlock round l).2
  | .compile source version => (compiler.compile source version l).2
  | .fund account amount => l.fund account amount
  | .register source version program => l.register source version program
  | .setFaults faults => { l with faults }

def run (l : Ledger) (ops : List LedgerOp) : Ledger :=
  ops.foldl perform l

@[simp] theorem perform_submit (l : Ledger) (signed : List SignedTransaction) :
    l.perform (.submit signed) = (l.submit signed).2 := rfl

@[simp] theorem perform_fund (l : Ledger) (account : Address) (amount : Nat) :
    l.perform (.fund account amount) = l.fund account amount := rfl

@[simp] theorem perform_compile (l : Ledger) (source : String) (version : UInt8) :
    l.perform (.compile source version) = (l.compile source version).2 := rfl

@[simp] theorem run_nil (l : Ledger) : l.run [] = l := rfl

@[simp] theorem run_cons (l : Ledger) (op : LedgerOp) (ops : List LedgerOp) :
    l.run (op :: ops) = (l.perform op).run ops := rfl

theorem run_append (l : Ledger) (ops ops' : List LedgerOp) :
    l.run (ops ++ ops') = (l.run ops).run ops' :=
  List.foldl_append

/-- The ledger after the groups were sent to it, one after the other. -/
def submitAll (l : Ledger) (groups : List (List SignedTransaction)) : Ledger :=
  l.run (groups.map .submit)

theorem eq_submitAll_append {l l' l'' : Ledger} {groups groups' : List (List SignedTransaction)}
    (h : l' = l.submitAll groups) (h' : l'' = l'.submitAll groups') :
    l'' = l.submitAll (groups ++ groups') := by
  rw [h', h, submitAll, submitAll, submitAll, List.map_append, run_append]

/-- What a group does that is confirmed when it is sent. -/
def confirmed? (l : Ledger) (signed : List SignedTransaction) : Option Evaluation :=
  if l.faults.submission.isSome || l.faults.pool.isSome || l.faults.stall then none
  else (Evaluation.ofGroup l.programs l.state signed false).toOption

/-- The transactions that take effect, in their order. -/
def applied (l : Ledger) : LedgerOp → List String
  | .submit signed => (l.confirmed? signed).elim [] fun e => e.results.map Prod.fst
  | _ => []

variable {l : Ledger} {signed : List SignedTransaction} {e : Evaluation}

theorem accepted_of_confirmed? (h : l.confirmed? signed = some e) :
    Evaluation.Accepted l.programs l.state signed false e := by
  rw [confirmed?] at h
  split at h
  · simp at h
  · cases hgroup : Evaluation.ofGroup l.programs l.state signed false with
    | error why => simp [hgroup, Except.toOption] at h
    | ok e' =>
      rw [hgroup] at h
      obtain rfl := Option.some.inj h
      exact Evaluation.accepted_of_ofGroup hgroup

/-- The ledger answers before a group takes effect, and the group is known to it afterwards. -/
theorem submit_cases (l : Ledger) (signed : List SignedTransaction) :
    (∃ why, l.submit signed =
      (.error (.rejected why), { l with submitted := l.submitted ++ [signed] }) ∧
      l.confirmed? signed = none) ∨
    ∃ e, Evaluation.ofGroup l.programs l.state signed false = .ok e ∧
      (l.confirmed? signed = none ∧ l.submit signed = (.ok (firstId e),
        { l with
          submitted := l.submitted ++ [signed]
          state := withPending l.state l.faults e }) ∨
      l.confirmed? signed = some e ∧ l.submit signed = (.ok (firstId e),
        { l with submitted := l.submitted ++ [signed], state := withConfirmed e })) := by
  rw [submit, confirmed?]
  cases hfault : l.faults.submission with
  | some reason => exact .inl ⟨reason, rfl, rfl⟩
  | none =>
    cases hgroup : Evaluation.ofGroup l.programs l.state signed false with
    | error why => exact .inl ⟨_, rfl, by split <;> rfl⟩
    | ok e =>
      refine .inr ⟨e, rfl, ?_⟩
      by_cases hdropped : (l.faults.pool.isSome || l.faults.stall) = true
      · refine .inl ⟨?_, ?_⟩
        · simp only [Option.isSome_none, Bool.false_or, if_pos hdropped]
        · simp only [if_pos hdropped]
      · refine .inr ⟨?_, ?_⟩
        · simp only [Option.isSome_none, Bool.false_or, if_neg hdropped]
          rfl
        · simp only [if_neg hdropped]

theorem submitted_submit (l : Ledger) (signed : List SignedTransaction) :
    (l.submit signed).2.submitted = l.submitted ++ [signed] := by
  obtain ⟨why, hsubmit, -⟩ | ⟨e, -, ⟨-, hsubmit⟩ | ⟨-, hsubmit⟩⟩ := submit_cases l signed
  all_goals rw [hsubmit]

/-- Every group that is sent is on record, however the ledger answers. -/
theorem submitted_submitAll (l : Ledger) (groups : List (List SignedTransaction)) :
    (l.submitAll groups).submitted = l.submitted ++ groups := by
  induction groups generalizing l with
  | nil => exact (List.append_nil _).symm
  | cons signed groups ih =>
    have hrest := ih (l.submit signed).2
    rw [submitted_submit, List.append_assoc] at hrest
    exact hrest

/-- A group that is not confirmed when it is sent has no effect, though it may be known. -/
theorem state_of_not_confirmed (h : l.confirmed? signed = none) :
    ∃ confirmations, (l.submit signed).2.state = { l.state with confirmations } := by
  obtain ⟨why, hsubmit, -⟩ | ⟨e, -, ⟨-, hsubmit⟩ | ⟨hconfirmed, -⟩⟩ := submit_cases l signed
  · exact ⟨l.state.confirmations, by rw [hsubmit]⟩
  · exact ⟨_, by rw [hsubmit]; rfl⟩
  · simp [h] at hconfirmed

theorem balance_of_not_confirmed (h : l.confirmed? signed = none) (account : Address) :
    (l.submit signed).2.state.balance account = l.state.balance account := by
  obtain ⟨confirmations, hstate⟩ := state_of_not_confirmed h
  rw [hstate]
  rfl

/-! ## Operations -/

/-- The group that is confirmed by an operation, if there is one, with what it does. -/
def confirmedBy (l : Ledger) : LedgerOp → List (List SignedTransaction × Evaluation)
  | .submit signed => ((l.confirmed? signed).map (Prod.mk signed)).toList
  | _ => []

/-- What an operation does to the state of a ledger. -/
inductive Performed (l : Ledger) : LedgerOp → Prop
  | confirmed {signed : List SignedTransaction} {e : Evaluation}
      (hby : l.confirmedBy (.submit signed) = [(signed, e)])
      (haccepted : Evaluation.Accepted l.programs l.state signed false e)
      (hstate : (l.perform (.submit signed)).state = withConfirmed e) : Performed l (.submit signed)
  | pending {signed : List SignedTransaction} {e : Evaluation}
      (hby : l.confirmedBy (.submit signed) = [])
      (haccepted : Evaluation.Accepted l.programs l.state signed false e)
      (hstate : (l.perform (.submit signed)).state = withPending l.state l.faults e) :
      Performed l (.submit signed)
  | waited (round : Nat) : Performed l (.waitForBlock round)
  | funded (account : Address) (amount : Nat) : Performed l (.fund account amount)
  | kept {op : LedgerOp} (hby : l.confirmedBy op = []) (hstate : (l.perform op).state = l.state) :
      Performed l op

theorem performed (l : Ledger) (op : LedgerOp) : l.Performed op := by
  cases op with
  | submit signed =>
    obtain ⟨why, hsubmit, hnone⟩ | ⟨e, he, ⟨hnone, hsubmit⟩ | ⟨hsome, hsubmit⟩⟩ :=
      submit_cases l signed
    · exact .kept (by rw [confirmedBy, hnone]; rfl) (by rw [perform_submit, hsubmit])
    · exact .pending (by rw [confirmedBy, hnone]; rfl) (Evaluation.accepted_of_ofGroup he)
        (by rw [perform_submit, hsubmit])
    · exact .confirmed (by rw [confirmedBy, hsome]; rfl) (Evaluation.accepted_of_ofGroup he)
        (by rw [perform_submit, hsubmit])
  | waitForBlock round => exact .waited round
  | fund account amount => exact .funded account amount
  | compile source version =>
    refine .kept rfl ?_
    rw [perform_compile, compile]
    split <;> rfl
  | simulate | register | setFaults => exact .kept rfl rfl

theorem accepted_of_confirmedBy {op : LedgerOp} {g : List SignedTransaction × Evaluation}
    (hg : g ∈ l.confirmedBy op) :
    Evaluation.Accepted l.programs l.state g.1 false g.2 ∧
      (l.perform op).state = withConfirmed g.2 := by
  cases performed l op with
  | confirmed hby haccepted hstate =>
    rw [hby, List.mem_singleton] at hg
    subst hg
    exact ⟨haccepted, hstate⟩
  | waited | funded => cases hg
  | pending hby | kept hby =>
    rw [hby] at hg
    cases hg

/-! ## Invariants -/

/-- What transactions and funding keep, and what has nothing to do with the round and with what is
known of transactions. -/
structure Invariant (P : LedgerState → Prop) : Prop where
  apply : ∀ programs s s' group index t confirmation, P s →
    LedgerState.apply programs s group index t = .ok (confirmation, s') → P s'
  credit : ∀ s account amount, P s → P (LedgerState.credit s account amount)
  chain : ∀ (s : LedgerState) lastRound confirmations, P s → P { s with lastRound, confirmations }

theorem Invariant.perform {P : LedgerState → Prop} (hP : Invariant P) (hs : P l.state)
    (op : LedgerOp) : P (l.perform op).state := by
  cases performed l op with
  | @confirmed signed e _ haccepted hstate =>
    have hevaluated : P e.state :=
      Evaluation.applyFrom_keeps (fun s s' index t confirmation => hP.apply _ s s' _ index t _) hs
        haccepted.members
    rw [hstate]
    exact hP.chain e.state _ _ hevaluated
  | pending _ _ hstate =>
    rw [hstate]
    exact hP.chain l.state _ _ hs
  | waited round => exact hP.chain l.state _ _ hs
  | funded account amount => exact hP.credit l.state account amount hs
  | kept _ hstate => exact hstate ▸ hs

theorem Invariant.run {P : LedgerState → Prop} (hP : Invariant P) (hs : P l.state)
    (ops : List LedgerOp) : P (l.run ops).state := by
  induction ops generalizing l with
  | nil => exact hs
  | cons op ops ih => exact ih (hP.perform hs op)

/-- The groups that are confirmed in a run, each with what it does. -/
def confirmedGroups (l : Ledger) : List LedgerOp → List (List SignedTransaction × Evaluation)
  | [] => []
  | op :: ops => l.confirmedBy op ++ (l.perform op).confirmedGroups ops

end Ledger

end AppLedger
