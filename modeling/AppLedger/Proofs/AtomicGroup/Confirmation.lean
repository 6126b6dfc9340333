import AppLedger.Ledger.Basic
import AppLedger.Proofs.AtomicGroup.PendingAnswer
import AppLedger.Proofs.AtomicGroup.Recorded

/-! Waiting for a transaction against any node. What the node is asked is kept in a log: it is asked
for the transaction until it gives an answer that settles it, and at most as often as there are
rounds. A round is waited for after the answers that leave the transaction open, and after no
others. Rounds are counted without a bound. -/

namespace AppLedger

open Effect
open PendingAnswer (IsDecision Ends)

/-! ## The log of a wait -/

/-- What a node is asked during a wait: for the transaction, with its answer, or for a round. -/
inductive Inquiry
  | transaction (id : String) (answer : PendingAnswer)
  | round (round : Nat)

namespace Inquiry

def answer? : Inquiry → Option PendingAnswer
  | .transaction _ answer => some answer
  | .round _ => none

/-- The answers in a log, in the order in which the node has given them. -/
def answers (log : List Inquiry) : List PendingAnswer :=
  log.filterMap answer?

end Inquiry

open Inquiry (answers)

variable {σ : Type}

/-- The node, with a log of what is asked of it during waits. -/
def Node.logged (node : Node σ) : Node (σ × List Inquiry) :=
  { node.lift fun x => x.onFst with
    pending := fun id => ExceptT.mk fun (world, log) =>
      let (answer, world) := (node.pending id).outcome world
      (answer, world, log ++ [.transaction id answer])
    waitForBlock := fun round => ExceptT.mk fun (world, log) =>
      let (answer, world) := (node.waitForBlock round).outcome world
      (answer, world, log ++ [.round round]) }

theorem Node.followedBy_logged (node : Node σ) : node.FollowedBy Prod.fst node.logged where
  submit _ := follows_onFst _
  simulate _ := follows_onFst _
  pending _ := fun _ => rfl
  lastRound := follows_onFst _
  waitForBlock _ := fun _ => rfl

/-- A wait from a round on, for so many rounds, with its log and what it ends with. -/
inductive Waited (id : String) (budget : Nat) :
    (round rounds : Nat) → List Inquiry → Except ClientError Confirmation → Prop
  | exhausted (round : Nat) : Waited id budget round 0 [] (.error (.timeout id budget))
  | settled {round rounds : Nat} {a : PendingAnswer} {r : Except ClientError Confirmation}
    (hends : Ends id a r) : Waited id budget round (rounds + 1) [.transaction id a] r
  | unknown {round rounds : Nat} {a : PendingAnswer} {log : List Inquiry}
    {r : Except ClientError Confirmation} (hunknown : a.IsUnknown)
    (hrest : Waited id budget (round + 1) rounds log r) :
    Waited id budget round (rounds + 1) (.transaction id a :: log) r
  | unconfirmed {round rounds : Nat} {a : PendingAnswer} {log : List Inquiry}
    {r : Except ClientError Confirmation} (hopen : a.IsOpen)
    (hrest : Waited id budget (round + 1) rounds log r) :
    Waited id budget round (rounds + 1) (.transaction id a :: .round round :: log) r

/-- What a wait does in one round: it ends with the answer, or goes on with the next round, which it
waits for where the transaction is open. -/
theorem waitFrom_succ_cases (node : Node σ) (id : String) (budget round rounds : Nat) (s : σ) :
    let asked := (node.pending id).outcome s
    let now := (waitFrom node id budget round (rounds + 1)).outcome s
    let later := (waitFrom node id budget (round + 1) rounds).outcome
    (∃ r, Ends id asked.1 r ∧ now = (r, asked.2)) ∨
      PendingAnswer.IsUnknown asked.1 ∧ now = later asked.2 ∨
      PendingAnswer.IsOpen asked.1 ∧
        now = later ((node.waitForBlock round).outcome asked.2).2 := by
  dsimp only
  rw [waitFrom, outcome_bind, outcome_observe]
  rcases (node.pending id).outcome s with ⟨why | c, t⟩
  · cases why with
    | notFound what => exact .inr (.inl ⟨⟨what, rfl⟩, rfl⟩)
    | rejected | request | decode => exact .inl ⟨_, .failed _ (by simp), rfl⟩
  · dsimp only
    by_cases hpool : c.poolError ≠ ""
    · rw [if_pos hpool]
      exact .inl ⟨_, .dropped c hpool, rfl⟩
    · rw [if_neg hpool]
      by_cases hround : c.round.isSome = true
      · rw [if_pos hround]
        exact .inl ⟨_, .confirmed c hround (not_not.mp hpool), rfl⟩
      · rw [if_neg hround]
        have hnone := Option.not_isSome_iff_eq_none.mp hround
        exact .inr (.inr ⟨⟨c, rfl, hnone, not_not.mp hpool⟩, rfl⟩)

theorem outcome_pending_logged (node : Node σ) (id : String) (s : σ) (log : List Inquiry) :
    (node.logged.pending id).outcome (s, log) =
      (((node.pending id).outcome s).1, ((node.pending id).outcome s).2,
        log ++ [.transaction id ((node.pending id).outcome s).1]) := rfl

theorem outcome_waitForBlock_logged (node : Node σ) (round : Nat) (s : σ) (log : List Inquiry) :
    ((node.logged.waitForBlock round).outcome (s, log)).2 =
      (((node.waitForBlock round).outcome s).2, log ++ [.round round]) := rfl

/-- Everything that a wait can do, whatever the node answers. -/
theorem waited_waitFrom (node : Node σ) (id : String) (budget round rounds : Nat) (s : σ)
    (before : List Inquiry) :
    ∃ r t log, (waitFrom node.logged id budget round rounds).outcome (s, before) =
      (r, t, before ++ log) ∧ Waited id budget round rounds log r := by
  induction rounds generalizing round s before with
  | zero =>
    refine ⟨_, s, [], ?_, .exhausted round⟩
    rw [List.append_nil]
    rfl
  | succ rounds ih =>
    have hstep := waitFrom_succ_cases node.logged id budget round rounds (s, before)
    rw [outcome_pending_logged] at hstep
    dsimp only at hstep
    obtain ⟨r, hends, hrun⟩ | ⟨hunknown, hrun⟩ | ⟨hopen, hrun⟩ := hstep
    · exact ⟨r, _, _, hrun, .settled hends⟩
    · obtain ⟨r, t, log, hlater, hrest⟩ := ih (round + 1) _ _
      refine ⟨r, t, _ :: log, ?_, .unknown hunknown hrest⟩
      rw [hrun, hlater, List.append_cons before _ log]
    · obtain ⟨r, t, log, hlater, hrest⟩ := ih (round + 1) _ _
      refine ⟨r, t, _ :: .round round :: log, ?_, .unconfirmed hopen hrest⟩
      rw [hrun, outcome_waitForBlock_logged, hlater, List.append_cons before _ (_ :: log),
        List.append_cons _ _ log]

variable {id : String} {budget round rounds : Nat} {log : List Inquiry}
  {r : Except ClientError Confirmation} {a : PendingAnswer}

/-- Either the last answer is the first one that settles the transaction, and the wait ends with it,
or there are as many answers as rounds and none that settles it. -/
def Decided (id : String) (budget rounds : Nat) (as : List PendingAnswer)
    (r : Except ClientError Confirmation) : Prop :=
  (∃ a, IsDecision as a ∧ Ends id a r) ∧ as.length ≤ rounds ∨
    ((∀ a ∈ as, ¬ a.Settles) ∧ r = .error (.timeout id budget)) ∧ as.length = rounds

theorem Decided.cons {as : List PendingAnswer} (h : Decided id budget rounds as r)
    (ha : ¬ a.Settles) : Decided id budget (rounds + 1) (a :: as) r := by
  obtain ⟨⟨b, hdecision, hends⟩, hcount⟩ | ⟨⟨hnone, hr⟩, hcount⟩ := h
  · exact .inl ⟨⟨b, hdecision.cons ha, hends⟩, Nat.succ_le_succ hcount⟩
  · exact .inr ⟨⟨List.forall_mem_cons.mpr ⟨ha, hnone⟩, hr⟩, congrArg Nat.succ hcount⟩

theorem Waited.decided (h : Waited id budget round rounds log r) :
    Decided id budget rounds (answers log) r := by
  induction h with
  | exhausted round => exact .inr ⟨⟨nofun, rfl⟩, rfl⟩
  | settled hends =>
    exact .inl ⟨⟨_, ⟨[], rfl, nofun, hends.settles⟩, hends⟩, Nat.le_add_left 1 _⟩
  | unknown hunknown _ ih => exact ih.cons (PendingAnswer.not_settles_of_isUnknown hunknown)
  | unconfirmed hopen _ ih => exact ih.cons (PendingAnswer.not_settles_of_isOpen hopen)

theorem Waited.length_answers_le (h : Waited id budget round rounds log r) :
    (answers log).length ≤ rounds := by
  obtain ⟨-, hcount⟩ | ⟨-, hcount⟩ := h.decided
  · exact hcount
  · exact Nat.le_of_eq hcount

/-- How a wait ends if it does not time out. -/
theorem Waited.eq_iff (h : Waited id budget round rounds log r)
    (r' : Except ClientError Confirmation) (hr' : r' ≠ .error (.timeout id budget)) :
    r = r' ↔ ∃ a, IsDecision (answers log) a ∧ Ends id a r' := by
  obtain ⟨⟨a, ha, hends⟩, -⟩ | ⟨⟨hnone, hr⟩, -⟩ := h.decided
  · constructor
    · rintro rfl
      exact ⟨a, ha, hends⟩
    · rintro ⟨b, hb, hends'⟩
      obtain rfl := ha.unique hb
      exact hends.unique hends'
  · constructor
    · intro hsame
      exact absurd (hsame.symm.trans hr) hr'
    · rintro ⟨b, hb, -⟩
      exact absurd hb.settles (hnone b hb.mem)

theorem Waited.eq_timeout_iff (h : Waited id budget round rounds log r) {id' : String} {n : Nat} :
    r = .error (.timeout id' n) ↔
      (id' = id ∧ n = budget) ∧ (answers log).length = rounds ∧ ∀ a ∈ answers log, ¬ a.Settles := by
  obtain ⟨⟨a, ha, hends⟩, -⟩ | ⟨⟨hnone, hr⟩, hcount⟩ := h.decided
  · constructor
    · rintro rfl
      exact absurd hends PendingAnswer.not_ends_timeout
    · rintro ⟨-, -, hnone⟩
      exact absurd hends.settles (hnone a ha.mem)
  · constructor
    · intro htimeout
      obtain ⟨rfl, rfl⟩ := ClientError.timeout.inj (Except.error.inj (hr.symm.trans htimeout))
      exact ⟨⟨rfl, rfl⟩, hcount, hnone⟩
    · rintro ⟨⟨rfl, rfl⟩, -⟩
      exact hr

/-- The answers are numbered by the rounds, from a given one on. -/
theorem exists_isOpen_cons {as : List PendingAnswer} {n : Nat} :
    (∃ i, n = round + i ∧ ∃ b, (a :: as)[i]? = some b ∧ b.IsOpen) ↔
      n = round ∧ a.IsOpen ∨ ∃ i, n = round + 1 + i ∧ ∃ b, as[i]? = some b ∧ b.IsOpen := by
  constructor
  · rintro ⟨i, rfl, b, hb, hopen⟩
    cases i with
    | zero => exact .inl ⟨rfl, Option.some.inj hb ▸ hopen⟩
    | succ i => exact .inr ⟨i, by omega, b, hb, hopen⟩
  · rintro (⟨rfl, hopen⟩ | ⟨i, rfl, hi⟩)
    · exact ⟨0, rfl, a, rfl, hopen⟩
    · exact ⟨i + 1, by omega, hi⟩

/-- The rounds that were waited for are those of the answers that left the transaction open. -/
theorem Waited.round_mem_iff (h : Waited id budget round rounds log r) {n : Nat} :
    .round n ∈ log ↔ ∃ i, n = round + i ∧ ∃ a, (answers log)[i]? = some a ∧ a.IsOpen := by
  induction h with
  | exhausted round => simp [answers]
  | @settled round rounds a r hends =>
    have hlog : answers [.transaction id a] = [a] := rfl
    rw [hlog, exists_isOpen_cons, List.mem_singleton]
    simp [hends.settles.2]
  | @unknown round rounds a log r hunknown _ ih =>
    have hlog : answers (.transaction id a :: log) = a :: answers log := rfl
    rw [hlog, exists_isOpen_cons, ← ih, List.mem_cons, or_iff_right nofun,
      or_iff_right fun h => PendingAnswer.not_isOpen_of_isUnknown hunknown h.2]
  | @unconfirmed round rounds a log r hopen _ ih =>
    have hlog : answers (.transaction id a :: .round round :: log) = a :: answers log := rfl
    rw [hlog, exists_isOpen_cons, ← ih, List.mem_cons, or_iff_right nofun, List.mem_cons,
      Inquiry.round.injEq, and_iff_left hopen]

theorem Waited.asked_for (h : Waited id budget round rounds log r) {id' : String}
    (ha : .transaction id' a ∈ log) : id' = id := by
  induction h with
  | exhausted round => exact absurd ha nofun
  | settled hends =>
    exact (Inquiry.transaction.inj (List.mem_singleton.mp ha)).1
  | unknown _ _ ih =>
    rcases List.mem_cons.mp ha with ha | ha
    · exact (Inquiry.transaction.inj ha).1
    · exact ih ha
  | unconfirmed _ _ ih =>
    rcases List.mem_cons.mp ha with ha | ha
    · exact (Inquiry.transaction.inj ha).1
    · exact ih ((List.mem_cons.mp ha).resolve_left nofun)

/-! ## Whole waits -/

variable {node : Node σ} {s s₁ t : σ} {last : Nat}

/-- The wait goes on as it does against the node itself, from the round after the last one. -/
theorem waited_waitForConfirmation (hlast : Yields node.lastRound s last s₁)
    (hrun : (waitForConfirmation node.logged id budget).outcome (s, []) = (r, t, log)) :
    (waitForConfirmation node id budget).outcome s = (r, t) ∧
      Waited id budget (last + 1) budget log r := by
  constructor
  · have hfollows := follows_waitForConfirmation node.followedBy_logged id budget (s, [])
    rwa [hrun] at hfollows
  · have hlogged : node.logged.lastRound.outcome (s, []) = (.ok last, s₁, []) := by
      change ((node.lastRound.outcome s).1, (node.lastRound.outcome s).2, []) = _
      rw [hlast]
    obtain ⟨r', t', log', hrun', hwaited⟩ :=
      waited_waitFrom node id budget (last + 1) budget s₁ []
    rw [waitForConfirmation, outcome_bind, outcome_mapError, hlogged] at hrun
    obtain ⟨rfl, htlog⟩ := Prod.mk.inj (hrun.symm.trans hrun')
    obtain ⟨rfl, rfl⟩ := Prod.mk.inj htlog
    exact hwaited

/-- Once the node has named its last round, a wait asks it for the transaction at most as often as
there are rounds, and not again after the first answer that settles the transaction. It ends well
with that answer if it is a confirmation without an error of the pool. An error of the pool ends it
as a failed submission, as a rejection by the node does, and every other error but an unknown
transaction as an error of the node. It times out if no answer to so many questions settles the
transaction, and in no other case. -/
theorem waitForConfirmation_decides (hlast : Yields node.lastRound s last s₁)
    (hrun : (waitForConfirmation node.logged id budget).outcome (s, []) = (r, t, log)) :
    (waitForConfirmation node id budget).outcome s = (r, t) ∧
      (∀ id' a, .transaction id' a ∈ log → id' = id) ∧ (answers log).length ≤ budget ∧
      (∀ c, r = .ok c ↔
        IsDecision (answers log) (.ok c) ∧ c.round.isSome ∧ c.poolError = "") ∧
      (∀ reason, r = .error (.submission reason) ↔
        (∃ c, IsDecision (answers log) (.ok c) ∧ c.poolError ≠ "" ∧
          ClientError.submission reason = .dropped id c.poolError) ∨
        IsDecision (answers log) (.error (.rejected reason))) ∧
      (∀ why, r = .error (.node why) ↔
        IsDecision (answers log) (.error why) ∧ ∀ reason, why ≠ .rejected reason) ∧
      (∀ id' n, r = .error (.timeout id' n) ↔
        (id' = id ∧ n = budget) ∧ (answers log).length = budget ∧
          ∀ a ∈ answers log, ¬ a.Settles) ∧
      ((∃ a, IsDecision (answers log) a) ∨ r = .error (.timeout id budget)) := by
  obtain ⟨hplain, hwaited⟩ := waited_waitForConfirmation hlast hrun
  refine ⟨hplain, fun _ _ => hwaited.asked_for, hwaited.length_answers_le, fun c => ?_,
    fun reason => ?_, fun why => ?_, fun _ _ => hwaited.eq_timeout_iff, ?_⟩
  · rw [hwaited.eq_iff (.ok c) nofun]
    simp only [PendingAnswer.ends_ok_iff]
    constructor
    · rintro ⟨a, ha, rfl, hc⟩
      exact ⟨ha, hc⟩
    · rintro ⟨ha, hc⟩
      exact ⟨_, ha, rfl, hc⟩
  · rw [hwaited.eq_iff (.error (.submission reason)) nofun]
    simp only [PendingAnswer.ends_submission_iff]
    constructor
    · rintro ⟨a, ha, ⟨c, rfl, hc⟩ | rfl⟩
      · exact .inl ⟨c, ha, hc⟩
      · exact .inr ha
    · rintro (⟨c, ha, hc⟩ | ha)
      · exact ⟨_, ha, .inl ⟨c, rfl, hc⟩⟩
      · exact ⟨_, ha, .inr rfl⟩
  · rw [hwaited.eq_iff (.error (.node why)) nofun]
    simp only [PendingAnswer.ends_node_iff]
    constructor
    · rintro ⟨a, ha, ⟨rfl, -⟩, hwhy⟩
      exact ⟨ha, hwhy⟩
    · rintro ⟨ha, hwhy⟩
      have hsettles := ha.settles
      exact ⟨_, ha, ⟨rfl, fun what h => hsettles.1 ⟨what, congrArg Except.error h⟩⟩, hwhy⟩
  · obtain ⟨⟨a, ha, -⟩, -⟩ | ⟨⟨-, hr⟩, -⟩ := hwaited.decided
    · exact .inl ⟨a, ha⟩
    · exact .inr hr

/-- A ledger that has the transaction open until the third round, and then in a block and dropped by
its pool at once: the error of the pool counts. -/
theorem waitForConfirmation_decides_dropped :
    let found : Confirmation := { round := some 3, poolError := "overspend" }
    let node : Node Ledger :=
      { Ledger.node with
        pending := fun _ => Ledger.read fun l =>
          if l.state.lastRound < 3 then .ok {} else .ok found }
    let run := (waitForConfirmation node.logged "T" 4).outcome ({}, [])
    Yields node.lastRound {} 1 {} ∧ answers run.2.2 = [.ok {}, .ok {}, .ok found] ∧
      (waitForConfirmation node "T" 4).outcome {} =
        (.error (.submission "Transaction T was rejected; pool error: overspend"), run.2.1) := by
  intro found node run
  have hlast : Yields node.lastRound {} 1 {} := rfl
  have hanswers : answers run.2.2 = [.ok {}, .ok {}, .ok found] := rfl
  obtain ⟨hplain, -, -, -, hsubmission, -⟩ := waitForConfirmation_decides hlast (Eq.refl run)
  have hopen : ¬ PendingAnswer.Settles (.ok {}) :=
    PendingAnswer.not_settles_of_isOpen ⟨{}, rfl, rfl, rfl⟩
  have hends : Ends "T" (.ok found) (.error (.dropped "T" "overspend")) := .dropped found (by decide)
  have hdecision : IsDecision (answers run.2.2) (.ok found) :=
    ⟨[.ok {}, .ok {}], hanswers, by simpa using hopen, hends.settles⟩
  have hresult := (hsubmission _).mpr (.inl ⟨found, hdecision, by decide, rfl⟩)
  exact ⟨hlast, hanswers, hplain.trans (Prod.ext hresult rfl)⟩

/-- A node that rejects the question: the wait ends as a failed submission, and no pool has named an
error. -/
theorem submission_of_rejected_question :
    let node : Node Ledger :=
      { Ledger.node with pending := fun _ => throw (.rejected "overspend") }
    let run := (waitForConfirmation node.logged "T" 1).outcome ({}, [])
    Yields node.lastRound {} 1 {} ∧ run.1 = .error (.submission "overspend") ∧
      answers run.2.2 = [.error (.rejected "overspend")] ∧
      ¬ ∃ c : Confirmation, IsDecision (answers run.2.2) (.ok c) ∧ c.poolError ≠ "" := by
  intro node run
  have hanswers : answers run.2.2 = [.error (.rejected "overspend")] := rfl
  refine ⟨rfl, rfl, hanswers, ?_⟩
  rintro ⟨c, hdecision, -⟩
  have hmem := hdecision.mem
  rw [hanswers, List.mem_singleton] at hmem
  exact absurd hmem nofun

/-! ## The rounds that pass -/

end AppLedger
