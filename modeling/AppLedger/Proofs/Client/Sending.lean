import AppLedger.Client.Call
import AppLedger.Proofs.AtomicGroup.Sending

/-! How a client sends a group to a ledger: the ledger after it, and the errors of which it says
that an argument is bad. -/

namespace AppLedger.Client

open Effect
open ClientError (IsArgument)

variable {σ : Type} {compiler : Compiler Ledger} {c : Client} {s s' : Session Ledger}
  {why : BadArgument}

/-! ## One group -/

section Group

variable {α : Type} {s s' : Session σ} {g : AtomicGroup} {f : AtomicGroup.GroupEffect σ α}

theorem outcome_withGroup : outcome (withGroup g f) s =
    ((f.outcome (g, s)).1, (f.outcome (g, s)).2.2) := rfl

theorem yields_withGroup {a : α} (h : Yields (withGroup g f) s a s') :
    ∃ g', Yields f (g, s) a (g', s') := by
  rw [Yields, outcome_withGroup] at h
  obtain ⟨hresult, hsession⟩ := Prod.mk.inj h
  exact ⟨(f.outcome (g, s)).2.1, Prod.ext hresult (Prod.ext rfl hsession)⟩

theorem fails_withGroup {why : ClientError} (h : Fails (withGroup g f) s why s') :
    ∃ g', Fails f (g, s) why (g', s') := by
  rw [Fails, outcome_withGroup] at h
  obtain ⟨hresult, hsession⟩ := Prod.mk.inj h
  exact ⟨(f.outcome (g, s)).2.1, Prod.ext hresult (Prod.ext rfl hsession)⟩

end Group

/-! ## Explanations -/

theorem avoids_approvalLine (net : Network σ) (pc : Nat) :
    Avoids IsArgument (c.approvalLine net pc) := by
  rw [approvalLine]
  refine avoids_observe.bind fun r => ?_
  rcases r with why | ⟨program, _⟩ <;> exact avoids_pure

theorem avoids_explain {net : Network σ} (e : ClientError) :
    Avoids IsArgument (c.explain net e) := by
  cases e with
  | submission reason =>
    rw [explain]
    cases LogicError.Report.ofText? reason with
    | none => exact avoids_pure
    | some report =>
      by_cases hforeign : c.isForeign report = true
      · simp only [if_pos hforeign]
        exact avoids_pure
      · simp only [if_neg hforeign]
        exact (avoids_approvalLine net _).bind fun _ => avoids_pure
  | _ => exact avoids_pure

/-- An error that is explained as a bad argument was that before. -/
theorem explain_yields {net : Network σ} {e : ClientError} {s s' : Session σ}
    (h : Yields (c.explain net e) s (.argument why) s') : e = .argument why ∧ s = s' := by
  cases e with
  | submission reason =>
    rw [explain] at h
    cases hreport : LogicError.Report.ofText? reason with
    | none =>
      simp only [hreport] at h
      exact absurd (yields_pure.mp h).1 nofun
    | some report =>
      simp only [hreport] at h
      by_cases hforeign : c.isForeign report = true
      · simp only [if_pos hforeign] at h
        exact absurd (yields_pure.mp h).1 nofun
      · simp only [if_neg hforeign] at h
        obtain ⟨place, u, -, h⟩ := yields_bind.mp h
        exact absurd (yields_pure.mp h).1 nofun
  | _ => exact yields_pure.mp h

/-! ## Sending -/

theorem run_of_send {net : Network σ} {t t' : Session σ} {g : AtomicGroup}
    {simulate : Bool} {maxRounds : Option Nat} {result : GroupResult}
    (h : Yields (c.send net g simulate maxRounds) t result t') :
    ∃ g', Yields (if simulate then AtomicGroup.simulate net else AtomicGroup.execute net maxRounds)
      (g, t) result (g', t') := by
  obtain ⟨r, u, hrun, h⟩ := yields_bind.mp h
  rw [yields_observe] at hrun
  rcases r with e | r
  · obtain ⟨_, _, -, hthrow⟩ := yields_bind.mp h
    exact absurd hthrow not_yields_throw
  · obtain ⟨rfl, rfl⟩ := yields_pure.mp h
    exact yields_withGroup hrun

theorem send_yields {g : AtomicGroup} {simulate : Bool} {maxRounds : Option Nat}
    {result : GroupResult}
    (h : Yields (c.send (Ledger.network compiler) g simulate maxRounds) s result s') :
    if simulate then s'.world = s.world else ∃ signed, g.gatherSignatures.1 = .ok signed ∧
      s'.world = (s.world.submit signed).2 := by
  obtain ⟨g', hrun⟩ := run_of_send h
  cases simulate with
  | true => exact (AtomicGroup.keeps_simulate compiler).of_yields hrun
  | false => exact AtomicGroup.execute_yields hrun

/-- A bad argument that is found in sending a group is found before the answers are explained. -/
theorem run_fails_of_send {net : Network σ} {t t' : Session σ} {g : AtomicGroup} {simulate : Bool}
    {maxRounds : Option Nat} (h : Fails (c.send net g simulate maxRounds) t (.argument why) t') :
    ∃ g', Fails (if simulate then AtomicGroup.simulate net else AtomicGroup.execute net maxRounds)
      (g, t) (.argument why) (g', t') := by
  rw [send, fails_bind] at h
  rcases h with hobserve | ⟨r, u, hrun, h⟩
  · exact absurd trivial ((avoids_observe : Avoids IsArgument _) _ _ _ hobserve)
  rw [yields_observe] at hrun
  rcases r with e | r
  · rcases fails_bind.mp h with hexplain | ⟨e', u', hexplain, hthrow⟩
    · exact absurd trivial (avoids_explain e _ _ _ hexplain)
    · obtain ⟨rfl, rfl⟩ := fails_throw.mp hthrow
      obtain ⟨rfl, rfl⟩ := explain_yields hexplain
      exact fails_withGroup hrun
  · exact absurd h not_fails_pure

theorem send_fails {g : AtomicGroup} {simulate : Bool} {maxRounds : Option Nat}
    (h : Fails (c.send (Ledger.network compiler) g simulate maxRounds) s (.argument why) s') :
    s'.world = s.world := by
  obtain ⟨g', hrun⟩ := run_fails_of_send h
  cases simulate with
  | true => exact (AtomicGroup.keeps_simulate compiler).of_fails hrun
  | false => rw [AtomicGroup.execute_fails hrun]

theorem lastReturn_ne_argument {result : GroupResult} {name : String} {e : ClientError}
    (h : lastReturn result name = .error e) : ¬ e.IsArgument := by
  rw [lastReturn] at h
  split at h
  · exact absurd h nofun
  · obtain rfl := Except.error.inj h
    exact id

end AppLedger.Client
