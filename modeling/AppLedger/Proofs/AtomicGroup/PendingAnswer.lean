import AppLedger.Client.Error
import AppLedger.Node.Basic
import Mathlib.Logic.Basic

/-! What a node says of a transaction that was sent to it: that it does not know the transaction,
that the transaction is open, or something that settles it. Of a list of such answers the first one
that settles the transaction decides how a wait for it ends. -/

namespace AppLedger

/-- What a node says when it is asked for a transaction. -/
abbrev PendingAnswer := Except NodeError Confirmation

namespace PendingAnswer

/-- The node does not know the transaction. -/
def IsUnknown (a : PendingAnswer) : Prop :=
  ∃ what, a = .error (.notFound what)

/-- The transaction is in no block yet, and the pool has not dropped it. -/
def IsOpen (a : PendingAnswer) : Prop :=
  ∃ c, a = .ok c ∧ c.round = none ∧ c.poolError = ""

def Settles (a : PendingAnswer) : Prop :=
  ¬ a.IsUnknown ∧ ¬ a.IsOpen

/-- The first answer that settles the transaction, and the last one that there is. -/
def IsDecision (answers : List PendingAnswer) (a : PendingAnswer) : Prop :=
  ∃ earlier, answers = earlier ++ [a] ∧ (∀ b ∈ earlier, ¬ b.Settles) ∧ a.Settles

/-- What a wait ends with after an answer that settles the transaction. -/
inductive Ends (id : String) : PendingAnswer → Except ClientError Confirmation → Prop
  | confirmed (c : Confirmation) (hround : c.round.isSome) (hpool : c.poolError = "") :
    Ends id (.ok c) (.ok c)
  | dropped (c : Confirmation) (hpool : c.poolError ≠ "") :
    Ends id (.ok c) (.error (.dropped id c.poolError))
  | failed (why : NodeError) (hknown : ∀ what, why ≠ .notFound what) :
    Ends id (.error why) (.error (.ofNode why))

variable {id : String} {a b : PendingAnswer} {as : List PendingAnswer}
  {r : Except ClientError Confirmation}

theorem Ends.settles (h : Ends id a r) : a.Settles := by
  cases h with
  | confirmed c hround hpool =>
    refine ⟨nofun, ?_⟩
    rintro ⟨c', hc, hopen, -⟩
    obtain rfl := Except.ok.inj hc
    simp [hopen] at hround
  | dropped c hpool =>
    refine ⟨nofun, ?_⟩
    rintro ⟨c', hc, -, hopen⟩
    obtain rfl := Except.ok.inj hc
    exact hpool hopen
  | failed why hknown =>
    refine ⟨?_, nofun⟩
    rintro ⟨what, hwhat⟩
    exact hknown what (Except.error.inj hwhat)

theorem Ends.unique {r' : Except ClientError Confirmation} (h : Ends id a r) (h' : Ends id a r') :
    r = r' := by
  cases h with
  | confirmed c hround hpool =>
    cases h' with
    | confirmed => rfl
    | dropped _ hdropped => exact absurd hpool hdropped
  | dropped c hdropped =>
    cases h' with
    | confirmed _ _ hpool => exact absurd hpool hdropped
    | dropped => rfl
  | failed why =>
    cases h'
    rfl

theorem ends_ok_iff {c : Confirmation} :
    Ends id a (.ok c) ↔ a = .ok c ∧ c.round.isSome ∧ c.poolError = "" := by
  constructor
  · rintro (⟨_, hround, hpool⟩ | _ | _)
    exact ⟨rfl, hround, hpool⟩
  · rintro ⟨rfl, hround, hpool⟩
    exact .confirmed c hround hpool

/-- A node that rejects the question ends a wait in the same way as its pool does. -/
theorem ends_submission_iff {reason : String} :
    Ends id a (.error (.submission reason)) ↔
      (∃ c, a = .ok c ∧ c.poolError ≠ "" ∧
        ClientError.submission reason = .dropped id c.poolError) ∨
      a = .error (.rejected reason) := by
  constructor
  · generalize hr : (Except.error (ClientError.submission reason) : Except _ Confirmation) = r
    rintro (_ | ⟨c, hpool⟩ | ⟨why, hknown⟩)
    · exact absurd hr nofun
    · exact .inl ⟨c, rfl, hpool, Except.error.inj hr⟩
    · cases why with
      | rejected reason' =>
        obtain rfl := ClientError.submission.inj (Except.error.inj hr)
        exact .inr rfl
      | notFound | request | decode => exact absurd hr nofun
  · rintro (⟨c, rfl, hpool, hreason⟩ | rfl)
    · exact hreason ▸ .dropped c hpool
    · exact .failed _ nofun

theorem ends_node_iff {why : NodeError} :
    Ends id a (.error (.node why)) ↔
      (a = .error why ∧ ∀ what, why ≠ .notFound what) ∧ ∀ reason, why ≠ .rejected reason := by
  constructor
  · generalize hr : (Except.error (ClientError.node why) : Except _ Confirmation) = r
    rintro (_ | _ | ⟨why', hknown⟩)
    · exact absurd hr nofun
    · exact absurd hr nofun
    · cases why' with
      | rejected => exact absurd hr nofun
      | notFound what => exact absurd rfl (hknown what)
      | request | decode =>
        obtain rfl := ClientError.node.inj (Except.error.inj hr)
        exact ⟨⟨rfl, nofun⟩, nofun⟩
  · rintro ⟨⟨rfl, hknown⟩, haccepted⟩
    cases why with
    | rejected reason => exact absurd rfl (haccepted reason)
    | notFound what => exact absurd rfl (hknown what)
    | request | decode => exact .failed _ nofun

theorem not_ends_timeout {id' : String} {n : Nat} : ¬ Ends id a (.error (.timeout id' n)) := by
  generalize hr : (Except.error (ClientError.timeout id' n) : Except _ Confirmation) = r
  rintro (_ | _ | ⟨why, -⟩)
  · exact absurd hr nofun
  · exact absurd hr nofun
  · cases why <;> exact absurd hr nofun

theorem IsDecision.unique (ha : IsDecision as a) (hb : IsDecision as b) : a = b := by
  obtain ⟨earlier, rfl, -⟩ := ha
  obtain ⟨earlier', has, -⟩ := hb
  exact List.singleton_inj.mp (List.append_inj' has rfl).2

theorem IsDecision.mem (h : IsDecision as a) : a ∈ as := by
  obtain ⟨earlier, rfl, -⟩ := h
  exact List.mem_append_right _ List.mem_cons_self

theorem IsDecision.settles (h : IsDecision as a) : a.Settles := by
  obtain ⟨earlier, -, -, hsettles⟩ := h
  exact hsettles

theorem IsDecision.cons (hb : ¬ b.Settles) (h : IsDecision as a) : IsDecision (b :: as) a := by
  obtain ⟨earlier, rfl, hearlier, ha⟩ := h
  exact ⟨b :: earlier, rfl, List.forall_mem_cons.mpr ⟨hb, hearlier⟩, ha⟩

theorem not_settles_of_isUnknown (h : a.IsUnknown) : ¬ a.Settles :=
  fun hsettles => hsettles.1 h

theorem not_settles_of_isOpen (h : a.IsOpen) : ¬ a.Settles :=
  fun hsettles => hsettles.2 h

theorem not_isOpen_of_isUnknown (h : a.IsUnknown) : ¬ a.IsOpen := by
  obtain ⟨what, rfl⟩ := h
  exact nofun

theorem isUnknown_or_isOpen (h : ¬ a.Settles) : a.IsUnknown ∨ a.IsOpen := by
  rw [Settles, not_and_or, not_not, not_not] at h
  exact h

end PendingAnswer

end AppLedger
