import AppLedger.AtomicGroup.Execution
import AppLedger.Ledger.Basic
import AppLedger.Proofs.AtomicGroup.Signing
import AppLedger.Proofs.Effect

/-! What the sending of a group hands to a ledger, and which errors it can end with. -/

namespace AppLedger

open Effect

/-- A ledger as the node of a network. -/
def Ledger.network (compiler : Compiler Ledger) : Network Ledger :=
  ⟨Ledger.node, compiler⟩

namespace ClientError

def IsArgument : ClientError → Prop
  | .argument _ => True
  | _ => False

theorem not_isArgument_ofNode (why : NodeError) : ¬ (ofNode why).IsArgument := by
  cases why <;> exact id

end ClientError

open ClientError (IsArgument not_isArgument_ofNode)

section Session

variable {σ τ α : Type} {part : σ → τ} {x : Effect NodeError σ α}

theorem avoids_ask : Avoids IsArgument (Session.ask x) :=
  avoids_mapError not_isArgument_ofNode

theorem keeps_onWorld {ε : Type} {x : Effect ε σ α} (h : Keeps part x) :
    Keeps (fun s => part s.world) (Session.onWorld x) :=
  fun s => h s.world

theorem quiet_onWorld {ε : Type} {kind : ε → Prop} {x : Effect ε σ α} (h : Quiet kind part x) :
    Quiet kind (fun s => part s.world) (Session.onWorld x) where
  avoids s why t hfails := by
    obtain ⟨world, hx, -⟩ := fails_onPart.mp hfails
    exact h.avoids _ _ _ hx
  keeps s a t hyields := by
    obtain ⟨world, hx, rfl⟩ := yields_onPart.mp hyields
    exact h.keeps _ _ _ hx

/-- Announcing an event keeps what does not depend on that event. -/
theorem keeps_announce {ε : Type} {part : Session σ → τ} {event : Event}
    (hpart : ∀ s, part { s with events := s.events ++ [event] } = part s) :
    Keeps part (Session.announce event : Effect ε (Session σ) Unit) := by
  rw [Session.announce]
  refine keeps_get.bind fun s => ?_
  split
  · exact hpart
  · exact keeps_pure

theorem keeps_ask (h : Keeps part x) : Keeps (fun s => part s.world) (Session.ask x) :=
  (keeps_onWorld h).mapError

theorem keeps_read {ε : Type} {part : Ledger → τ} {f : Ledger → Except ε α} :
    Keeps part (Ledger.read f) := fun _ => rfl

end Session

/-! ## Waiting -/

/-- What is asked of the node while a transaction is waited for leaves a part of the world as it
was. -/
structure Node.Waits {σ τ : Type} (part : σ → τ) (node : Node σ) : Prop where
  pending : ∀ id, Keeps part (node.pending id)
  lastRound : Keeps part node.lastRound
  waitForBlock : ∀ round, Keeps part (node.waitForBlock round)

section Waits

variable {σ τ : Type} {part : σ → τ} {node : Node σ}

theorem keeps_waitFrom (h : node.Waits part) (id : String) (budget round rounds : Nat) :
    Keeps part (waitFrom node id budget round rounds) := by
  induction rounds generalizing round with
  | zero => exact keeps_throw
  | succ rounds ih =>
    rw [waitFrom]
    refine (h.pending id).observe.bind fun r => ?_
    rcases r with why | c
    · cases why with
      | notFound _ => exact ih _
      | rejected | request | decode => exact keeps_throw
    · dsimp only
      split
      · exact keeps_throw_bind
      · split
        · exact keeps_pure
        · exact (h.waitForBlock round).observe.bind fun _ => ih _

theorem keeps_waitForConfirmation (h : node.Waits part) (id : String) (budget : Nat) :
    Keeps part (waitForConfirmation node id budget) :=
  h.lastRound.mapError.bind fun _ => keeps_waitFrom h _ _ _ _

end Waits

theorem avoids_waitFrom {σ : Type} (node : Node σ) (id : String) (budget round rounds : Nat) :
    Avoids IsArgument (waitFrom node id budget round rounds) := by
  induction rounds generalizing round with
  | zero => exact avoids_throw nofun
  | succ rounds ih =>
    rw [waitFrom]
    refine avoids_observe.bind fun r => ?_
    rcases r with why | c
    · cases why with
      | notFound _ => exact ih _
      | rejected | request | decode => exact avoids_throw (not_isArgument_ofNode _)
    · by_cases hdropped : c.poolError ≠ ""
      · simp only [if_pos hdropped]
        exact avoids_throw_bind nofun
      · by_cases hround : c.round.isSome = true
        · simp only [if_neg hdropped, if_pos hround]
          exact avoids_pure
        · simp only [if_neg hdropped, if_neg hround]
          exact avoids_observe.bind fun _ => ih _

theorem avoids_waitForConfirmation {σ : Type} (node : Node σ) (id : String) (budget : Nat) :
    Avoids IsArgument (waitForConfirmation node id budget) :=
  (avoids_mapError not_isArgument_ofNode).bind fun _ => avoids_waitFrom _ _ _ _ _

/-- A wait does not settle what is pending on the ledger: it finds the transaction confirmed at
once or never. -/
theorem waitFrom_yields {id : String} {budget round rounds : Nat} {l l' : Ledger}
    {c : Confirmation} (h : Yields (waitFrom Ledger.node id budget round rounds) l c l') :
    l' = l ∧ l.pending id = .ok c ∧ c.round.isSome := by
  induction rounds generalizing round l with
  | zero => exact absurd h not_yields_throw
  | succ rounds ih =>
    rw [waitFrom, yields_bind] at h
    obtain ⟨r, u, hpending, h⟩ := h
    have hanswer : (l.pending id, l) = (r, u) := yields_observe.mp hpending
    obtain ⟨rfl, rfl⟩ := Prod.mk.inj hanswer
    cases hfound : l.pending id with
    | error why =>
      rw [hfound] at h
      cases why with
      | notFound _ => exact absurd (hfound.symm.trans (ih h).2.1) nofun
      | rejected | request | decode => exact absurd h not_yields_throw
    | ok found =>
      simp only [hfound] at h
      by_cases hdropped : found.poolError ≠ ""
      · simp only [if_pos hdropped] at h
        exact absurd h not_yields_throw_bind
      · by_cases hround : found.round.isSome = true
        · simp only [if_neg hdropped, if_pos hround] at h
          obtain ⟨rfl, rfl⟩ := yields_pure.mp h
          exact ⟨rfl, rfl, hround⟩
        · simp only [if_neg hdropped, if_neg hround] at h
          obtain ⟨_, waited, hwait, hrest⟩ := yields_bind.mp h
          have hlater : l.waitForBlock round = waited :=
            congrArg Prod.snd (yields_observe.mp hwait)
          obtain ⟨-, hpending', hconfirmed⟩ := ih hrest
          have hsame : waited.pending id = l.pending id := hlater ▸ rfl
          obtain rfl := Except.ok.inj (hfound.symm.trans (hsame.symm.trans hpending'))
          exact absurd hconfirmed hround

theorem waitForConfirmation_yields {id : String} {budget : Nat} {l l' : Ledger} {c : Confirmation}
    (h : Yields (waitForConfirmation Ledger.node id budget) l c l') :
    l' = l ∧ l.pending id = .ok c ∧ c.round.isSome := by
  obtain ⟨last, l₁, hlast, h⟩ := yields_bind.mp h
  have hkept : Keeps (·) Ledger.node.lastRound := keeps_read
  obtain rfl : l₁ = l := hkept.mapError.of_yields hlast
  exact waitFrom_yields h

theorem quiet_waitForConfirmation (id : String) (budget : Nat) :
    Quiet IsArgument (·) (waitForConfirmation Ledger.node id budget) := by
  have hlast : Keeps (·) Ledger.node.lastRound := keeps_read
  rw [waitForConfirmation]
  refine (hlast.mapError.quiet (avoids_mapError not_isArgument_ofNode)).bind fun last => ?_
  exact ⟨avoids_waitFrom _ _ _ _ _, fun _ _ _ h => (waitFrom_yields h).1⟩

/-! ## Sending -/

namespace AtomicGroup

variable {compiler : Compiler Ledger} {g g' : AtomicGroup} {s s' : Session Ledger}
  {maxRounds : Option Nat} {ids : List String} {result : GroupResult} {why : BadArgument}

theorem returns_ne_argument {confirmations : List Confirmation} {why : ClientError}
    (h : g.returns confirmations = .error why) : ¬ why.IsArgument := by
  obtain ⟨call, -, hcall⟩ := exists_of_mapM_error h
  rw [returnOf] at hcall
  split at hcall
  · obtain rfl := Except.error.inj hcall
    exact id
  · split at hcall
    · exact absurd hcall nofun
    all_goals
      obtain rfl := Except.error.inj hcall
      exact id

section Avoids

variable {σ α : Type} {kind : ClientError → Prop}

theorem avoids_setStatus (status : GroupStatus) :
    Avoids kind (setStatus status : GroupEffect σ Unit) := by
  intro w why w' h
  rw [setStatus, onGroup, fails_onFst] at h
  exact absurd h.1 nofun

theorem avoids_onSession {x : Effect ClientError (Session σ) α} (h : Avoids kind x) :
    Avoids kind (onSession x) :=
  h.onSnd

theorem avoids_onGroup {f : AtomicGroup → Except ClientError α × AtomicGroup}
    (h : ∀ g, Spares kind (f g).1) : Avoids kind (onGroup f : GroupEffect σ α) := by
  intro w why w' hfails
  rw [onGroup, fails_onFst] at hfails
  exact h _ _ (congrArg Prod.fst hfails.1)

end Avoids

section Keeps

variable {σ τ α : Type} {part : Session σ → τ} {whole : AtomicGroup × Session σ → τ}
  {f : AtomicGroup → Except ClientError α × AtomicGroup} {x : Effect ClientError (Session σ) α}

/-- An effect on the group keeps what is no part of the group. -/
theorem keeps_onGroup (hwhole : ∀ g g' s, whole (g, s) = whole (g', s)) : Keeps whole (onGroup f) :=
  fun w => hwhole _ w.1 w.2

theorem keeps_setStatus (hwhole : ∀ g g' s, whole (g, s) = whole (g', s)) (status : GroupStatus) :
    Keeps whole (setStatus status : GroupEffect σ Unit) :=
  keeps_onGroup hwhole

theorem keeps_onSession (hwhole : ∀ w, whole w = part w.2) (h : Keeps part x) :
    Keeps whole (onSession x) :=
  fun w => (hwhole _).trans ((h w.2).trans (hwhole w).symm)

end Keeps

theorem quiet_onSession {σ τ α : Type} {part : Session σ → τ} {x : Effect ClientError (Session σ) α}
    (h : Quiet IsArgument part x) :
    Quiet IsArgument (fun w : AtomicGroup × Session σ => part w.2) (onSession x) where
  avoids := avoids_onSession h.avoids
  keeps _ _ _ hyields := h.keeps _ _ _ (yields_onSnd.mp hyields).1

theorem outcome_onGroup {σ α : Type} (f : AtomicGroup → Except ClientError α × AtomicGroup)
    (g : AtomicGroup) (s : Session σ) :
    outcome (onGroup f) (g, s) = ((f g).1, (f g).2, s) := rfl

theorem outcome_ask {σ α : Type} (x : Effect NodeError σ α) (g : AtomicGroup) (s : Session σ) :
    outcome (onSession (Session.ask x)) (g, s) =
      ((x.outcome s.world).1.mapError .ofNode, g, { s with world := (x.outcome s.world).2 }) := rfl

/-- A group that was sent before is refused. Otherwise its signatures are gathered, and it counts
as submitted if the node takes it. -/
theorem submit_cases {σ : Type} (net : Network σ) (g : AtomicGroup) (s : Session σ) :
    (GroupStatus.submitted.rank ≤ g.status.rank ∧
      (submit net).outcome (g, s) = (.error (.state .alreadySubmitted), g, s)) ∨
    ¬ GroupStatus.submitted.rank ≤ g.status.rank ∧
      ((∃ why, (submit net).outcome (g, s) = (.error why, g.gatherSignatures.2, s)) ∨
      ∃ signed ids, g.gatherSignatures.1 = .ok signed ∧ AtomicGroup.ids signed = .ok ids ∧
        (submit net).outcome (g, s) =
        match (net.node.submit signed).outcome s.world with
        | (.error why, world) => (.error (.ofNode why), g.gatherSignatures.2, { s with world })
        | (.ok _, world) =>
          (.ok ids, { g.gatherSignatures.2 with status := .submitted }, { s with world })) := by
  rw [submit, outcome_bind, outcome_get]
  by_cases hrank : GroupStatus.submitted.rank ≤ g.status.rank
  · refine .inl ⟨hrank, ?_⟩
    simp only [if_pos hrank, outcome_bind, outcome_throw]
  · refine .inr ⟨hrank, ?_⟩
    simp only [if_neg hrank, outcome_bind, outcome_onGroup]
    cases hsigned : g.gatherSignatures.1 with
    | error why => exact .inl ⟨why, rfl⟩
    | ok signed =>
      simp only [outcome_ofExcept]
      cases hids : AtomicGroup.ids signed with
      | error why => exact .inl ⟨why, rfl⟩
      | ok ids =>
        refine .inr ⟨signed, ids, rfl, hids, ?_⟩
        simp only [outcome_ask]
        rcases (net.node.submit signed).outcome s.world with ⟨why | id, world⟩ <;> rfl

theorem submit_yields (h : Yields (submit (Ledger.network compiler)) (g, s) ids (g', s')) :
    ∃ signed taken, g.gatherSignatures.1 = .ok signed ∧ AtomicGroup.ids signed = .ok ids ∧
      s.world.submit signed = (.ok taken, s'.world) := by
  obtain ⟨-, hcase⟩ | ⟨-, ⟨why, hcase⟩ | ⟨signed, ids', hgathered, hids, hcase⟩⟩ :=
    submit_cases (Ledger.network compiler) g s
  all_goals rw [Yields, hcase] at h
  · simp at h
  · simp at h
  · have hanswer : ((Ledger.network compiler).node.submit signed).outcome s.world =
        s.world.submit signed := rfl
    rw [hanswer] at h
    rcases hsent : s.world.submit signed with ⟨why | taken, world⟩
    all_goals rw [hsent] at h
    · simp at h
    · obtain ⟨hyielded, hleft⟩ := Prod.mk.inj h
      obtain rfl := Except.ok.inj hyielded
      obtain ⟨-, hsession⟩ := Prod.mk.inj hleft
      exact ⟨signed, taken, hgathered, hids, hsession ▸ hsent⟩

/-- A group with a bad argument in it is refused before it is handed over. -/
theorem submit_fails
    (h : Fails (submit (Ledger.network compiler)) (g, s) (.argument why) (g', s')) : s' = s := by
  obtain ⟨-, hcase⟩ | ⟨-, ⟨why', hcase⟩ | ⟨signed, ids, -, -, hcase⟩⟩ :=
    submit_cases (Ledger.network compiler) g s
  all_goals rw [Fails, hcase] at h
  · exact (Prod.mk.inj (Prod.mk.inj h).2).2.symm
  · exact (Prod.mk.inj (Prod.mk.inj h).2).2.symm
  · rcases hsent : ((Ledger.network compiler).node.submit signed).outcome s.world with
      ⟨refusal | id, world⟩
    all_goals rw [hsent] at h
    · have hbad := not_isArgument_ofNode refusal
      rw [Except.error.inj (Prod.mk.inj h).1] at hbad
      exact absurd trivial hbad
    · simp at h

/-- What follows where a group has been submitted: its first member is waited for, the node is asked
for the others, and the return values are read. -/
def concludeExecution {σ : Type} (net : Network σ) (maxRounds : Option Nat) :
    List String → GroupEffect σ GroupResult
  | [] => throw (.decode .noTransactions)
  | first :: rest => do
    let budget := maxRounds.getD (← get).2.maxRounds
    let confirmed ← onSession (Session.onWorld (waitForConfirmation net.node first budget))
    let others ← rest.mapM fun id => onSession (Session.ask (net.node.pending id))
    setStatus .committed
    let confirmations := confirmed :: others
    let returns ← onGroup fun g => (g.returns confirmations, g)
    return { round := confirmed.round, ids := first :: rest, returns, confirmations }

theorem execute_eq {σ : Type} (net : Network σ) (maxRounds : Option Nat) :
    execute net maxRounds = submit net >>= concludeExecution net maxRounds := by
  rw [execute]
  refine congrArg _ (funext fun ids => ?_)
  cases ids <;> rfl

/-- What follows the sending finds no argument bad, and if the node keeps a part of the world while
it is asked, that part is as it was. -/
theorem quiet_concludeExecution {σ τ : Type} {net : Network σ} {part : σ → τ}
    (hwait : ∀ id budget, Quiet IsArgument part (waitForConfirmation net.node id budget))
    (hpending : ∀ id, Keeps part (net.node.pending id)) (maxRounds : Option Nat)
    (ids : List String) : Quiet IsArgument (fun w : AtomicGroup × Session σ => part w.2.world)
      (concludeExecution net maxRounds ids) := by
  cases ids with
  | nil => exact keeps_throw.quiet (avoids_throw id)
  | cons first rest =>
    refine (keeps_get.quiet avoids_get).bind fun w => ?_
    refine (quiet_onSession (quiet_onWorld (hwait first _))).bind fun confirmed => ?_
    have hasked (id : String) : Keeps (fun w : AtomicGroup × Session σ => part w.2.world)
        (onSession (Session.ask (net.node.pending id))) :=
      keeps_onSession (fun _ => rfl) (keeps_ask (hpending id))
    refine ((Keeps.mapM hasked _).quiet
      (.mapM (fun _ => avoids_onSession avoids_ask) _)).bind fun others => ?_
    refine ((keeps_setStatus (fun _ _ _ => rfl) _).quiet (avoids_setStatus _)).bind fun _ => ?_
    refine ((keeps_onGroup fun _ _ _ => rfl).quiet
      (avoids_onGroup fun _ _ => returns_ne_argument)).bind fun returns => ?_
    exact keeps_pure.quiet avoids_pure

/-- On the ledger, what follows the sending changes nothing. -/
theorem quiet_concludeExecution_ledger (compiler : Compiler Ledger) (maxRounds : Option Nat)
    (ids : List String) : Quiet IsArgument (fun w : AtomicGroup × Session Ledger => w.2.world)
      (concludeExecution (Ledger.network compiler) maxRounds ids) := by
  have hwait (id : String) (budget : Nat) : Quiet IsArgument (·)
      (waitForConfirmation (Ledger.network compiler).node id budget) :=
    quiet_waitForConfirmation id budget
  exact quiet_concludeExecution hwait (fun _ => keeps_read) maxRounds ids

theorem avoids_concludeExecution {σ : Type} (net : Network σ) (maxRounds : Option Nat)
    (ids : List String) : Avoids IsArgument (concludeExecution net maxRounds ids) := by
  have hnothing (id : String) (budget : Nat) :
      Quiet IsArgument (fun _ => ()) (waitForConfirmation net.node id budget) :=
    ⟨avoids_waitForConfirmation net.node id budget, fun _ _ _ _ => rfl⟩
  exact (quiet_concludeExecution hnothing (fun _ _ => rfl) maxRounds ids).avoids

theorem execute_yields
    (h : Yields (execute (Ledger.network compiler) maxRounds) (g, s) result (g', s')) :
    ∃ signed, g.gatherSignatures.1 = .ok signed ∧ s'.world = (s.world.submit signed).2 := by
  rw [execute_eq, yields_bind] at h
  obtain ⟨ids, ⟨g₁, s₁⟩, hsubmit, hrest⟩ := h
  obtain ⟨signed, taken, hsigned, -, hsent⟩ := submit_yields hsubmit
  have hkept : s'.world = s₁.world :=
    (quiet_concludeExecution_ledger compiler maxRounds ids).keeps _ _ _ hrest
  exact ⟨signed, hsigned, by rw [hkept, hsent]⟩

/-- No execution ends well for a group without members. -/
theorem ids_of_execute {σ : Type} {net : Network σ} {w w' : AtomicGroup × Session σ}
    (h : Yields (execute net maxRounds) w result w') : result.ids ≠ [] := by
  obtain ⟨ids, w₁, -, h⟩ := yields_bind.mp h
  cases ids with
  | nil => exact absurd h not_yields_throw
  | cons first rest =>
    obtain ⟨_, _, -, h⟩ := yields_bind.mp h
    obtain ⟨_, _, -, h⟩ := yields_bind.mp h
    obtain ⟨_, _, -, h⟩ := yields_bind.mp h
    obtain ⟨_, _, -, h⟩ := yields_bind.mp h
    obtain ⟨_, _, -, h⟩ := yields_bind.mp h
    obtain ⟨rfl, -⟩ := yields_pure.mp h
    exact List.cons_ne_nil first rest

/-- A group of one member ends well only if the ledger confirms the member as soon as it is sent. -/
theorem execute_single {m : Member} {methods : List (Nat × Abi.Method)}
    (h : Yields (execute (Ledger.network compiler) maxRounds) ({ members := [m], methods }, s) result
      (g', s')) :
    ∃ stxn id c taken, stxn.transaction = m.transaction ∧ stxn.id = .ok id ∧ result.ids = [id] ∧
      result.confirmations = [c] ∧ s.world.submit [stxn] = (.ok taken, s'.world) ∧
      s'.world.pending id = .ok c ∧ c.round.isSome := by
  obtain ⟨ids, ⟨g₁, s₁⟩, hsubmit, h⟩ := yields_bind.mp h
  obtain ⟨signed, taken, hgathered, hids, hsent⟩ := submit_yields hsubmit
  obtain ⟨stxn, rfl, htransaction⟩ := gatherSignatures_single (Prod.ext hgathered rfl)
  have hall := mapM_eq_ok.mp (mapError_eq_ok.mp hids)
  cases hall with
  | @cons _ id _ _ hid hnil =>
  cases hnil
  obtain ⟨w, _, hget, h⟩ := yields_bind.mp h
  obtain ⟨hw, rfl⟩ := Prod.mk.inj hget
  obtain rfl := Except.ok.inj hw
  obtain ⟨c, w₂, hwait, h⟩ := yields_bind.mp h
  obtain ⟨others, w₃, hothers, h⟩ := yields_bind.mp h
  obtain ⟨rfl, rfl⟩ := yields_pure.mp hothers
  obtain ⟨_, w₄, hstatus, h⟩ := yields_bind.mp h
  obtain ⟨returns, w₅, hreturns, h⟩ := yields_bind.mp h
  obtain ⟨rfl, rfl⟩ := yields_pure.mp h
  obtain ⟨world, hwait, hsession⟩ := yields_onPart.mp (yields_onSnd.mp hwait).1
  obtain ⟨rfl, hpending, hconfirmed⟩ := waitForConfirmation_yields hwait
  have hcommitted : Keeps Prod.snd (setStatus .committed : GroupEffect Ledger Unit) :=
    keeps_setStatus (fun _ _ _ => rfl) _
  have hread : Keeps Prod.snd (onGroup fun g => (g.returns [c], g) : GroupEffect Ledger _) :=
    keeps_onGroup fun _ _ _ => rfl
  have hkept : s'.world = s₁.world := by
    have hlast : s' = w₂.2 := (hread.of_yields hreturns).trans (hcommitted.of_yields hstatus)
    rw [hlast, ← hsession]
  rw [hkept]
  exact ⟨stxn, id, c, taken, htransaction, hid, rfl, rfl, hsent, hpending, hconfirmed⟩

theorem execute_fails
    (h : Fails (execute (Ledger.network compiler) maxRounds) (g, s) (.argument why) (g', s')) :
    s' = s := by
  rw [execute_eq, fails_bind] at h
  rcases h with hsubmit | ⟨ids, _, -, hrest⟩
  · exact submit_fails hsubmit
  · have hquiet := quiet_concludeExecution_ledger compiler maxRounds ids
    exact absurd trivial (hquiet.avoids _ _ _ hrest)

/-! ## What sending has no part in -/

end AtomicGroup

def Event.isCompiled : Event → Bool
  | .compiled _ _ _ _ => true
  | .simulated _ => false

/-- What was announced of programs that were compiled. -/
def Session.announced {σ : Type} (s : Session σ) : List Event :=
  s.events.filter Event.isCompiled

/-- The programs that were compiled, what was announced of them, and a part of the world. -/
def Session.besides {σ τ : Type} (part : σ → τ) (s : Session σ) :
    (List ProgramCache × List Event) × τ :=
  ((s.caches, s.announced), part s.world)

namespace AtomicGroup

section Besides

variable {σ τ : Type} {part : σ → τ} {net : Network σ}

/-- What sending has no part in, and a part of the world. -/
def besides (part : σ → τ) (w : AtomicGroup × Session σ) :
    (List ProgramCache × List Event) × τ :=
  w.2.besides part

theorem keeps_besides_onSession {α : Type} {x : Effect ClientError (Session σ) α}
    (h : Keeps (Session.besides part) x) : Keeps (besides part) (onSession x) :=
  fun w => h w.2

theorem keeps_besides_onWorld {ε α : Type} {x : Effect ε σ α} (h : Keeps part x) :
    Keeps (Session.besides part) (Session.onWorld x) :=
  fun s => Prod.ext rfl (h s.world)

theorem keeps_besides_ask {α : Type} {x : Effect NodeError σ α} (h : Keeps part x) :
    Keeps (besides part) (onSession (Session.ask x)) :=
  keeps_besides_onSession (keeps_besides_onWorld h).mapError

theorem keeps_concludeExecution (h : net.node.Waits part) (maxRounds : Option Nat)
    (ids : List String) : Keeps (besides part) (concludeExecution net maxRounds ids) := by
  cases ids with
  | nil => exact keeps_throw
  | cons first rest =>
    refine keeps_get.bind fun w => ?_
    have hwait (budget : Nat) :=
      keeps_besides_onWorld (ε := ClientError) (keeps_waitForConfirmation h first budget)
    refine (keeps_besides_onSession (hwait _)).bind fun confirmed => ?_
    refine (Keeps.mapM (fun id => keeps_besides_ask (h.pending id)) _).bind fun others => ?_
    refine (keeps_setStatus (fun _ _ _ => rfl) _).bind fun _ => ?_
    exact (keeps_onGroup fun _ _ _ => rfl).bind fun _ => keeps_pure

theorem keeps_submit (h : ∀ signed, Keeps part (net.node.submit signed)) :
    Keeps (besides part) (submit net) := by
  rw [submit]
  refine keeps_get.bind fun w => ?_
  split
  · exact keeps_throw_bind
  · refine (keeps_onGroup fun _ _ _ => rfl).bind fun signed => keeps_ofExcept.bind fun ids => ?_
    refine (keeps_besides_ask (h signed)).bind fun _ => ?_
    exact (keeps_setStatus (fun _ _ _ => rfl) _).bind fun _ => keeps_pure

theorem keeps_execute (h : net.node.Waits part)
    (hsubmit : ∀ signed, Keeps part (net.node.submit signed)) (maxRounds : Option Nat) :
    Keeps (besides part) (execute net maxRounds) := by
  rw [execute_eq]
  exact (keeps_submit hsubmit).bind fun ids => keeps_concludeExecution h maxRounds ids

/-- What follows the answer of a node that has simulated a group. -/
def concludeSimulation (ids : List String) (result : Simulation) : GroupEffect σ GroupResult := do
  onSession (Session.announce (.simulated result))
  match result.failure with
  | some reason => throw (.submission reason)
  | none =>
    let returns ← onGroup fun g => (g.returns result.results, g)
    return { round := none, ids, returns, confirmations := result.results }

theorem simulate_eq (net : Network σ) :
    simulate net = (do
      let signed ← onGroup gatherSignatures
      let ids ← Effect.ofExcept (AtomicGroup.ids signed)
      let result ← onSession (Session.ask (net.node.simulate signed))
      concludeSimulation ids result) :=
  rfl

/-- No simulation is announced as a compilation. -/
theorem keeps_besides_announce {ε : Type} (result : Simulation) :
    Keeps (Session.besides part)
      (Session.announce (.simulated result) : Effect ε (Session σ) Unit) := by
  refine keeps_announce fun s => ?_
  have hnone : [Event.simulated result].filter Event.isCompiled = [] := rfl
  simp only [Session.besides, Session.announced, List.filter_append, hnone, List.append_nil]

theorem keeps_concludeSimulation (ids : List String) (result : Simulation) :
    Keeps (besides part) (concludeSimulation ids result) := by
  refine (keeps_besides_onSession (keeps_besides_announce result)).bind fun _ => ?_
  cases result.failure with
  | some reason => exact keeps_throw
  | none => exact (keeps_onGroup fun _ _ _ => rfl).bind fun _ => keeps_pure

theorem keeps_besides_simulate (h : ∀ signed, Keeps part (net.node.simulate signed)) :
    Keeps (besides part) (simulate net) := by
  rw [simulate_eq]
  refine (keeps_onGroup fun _ _ _ => rfl).bind fun signed => keeps_ofExcept.bind fun ids => ?_
  exact (keeps_besides_ask (h signed)).bind fun result => keeps_concludeSimulation ids result

end Besides

theorem keeps_simulate (compiler : Compiler Ledger) :
    Keeps (fun w : AtomicGroup × Session Ledger => w.2.world)
      (simulate (Ledger.network compiler)) := by
  have hread (signed : List SignedTransaction) :
      Keeps (·) ((Ledger.network compiler).node.simulate signed) := keeps_read
  exact fun w => congrArg Prod.snd (keeps_besides_simulate hread w)

end AtomicGroup

end AppLedger
