import AppLedger.AtomicGroup.Execution
import AppLedger.Proofs.Effect

/-! A node with a record of the groups that are handed to it. Groups go on against it as they do
against the node itself. -/

namespace AppLedger

open Effect

variable {σ τ : Type}

/-- A group that was handed to a node, and the answer of the node. -/
structure Handover where
  signed : List SignedTransaction
  answer : Except NodeError String

def Handover.isAccepted (h : Handover) : Bool :=
  h.answer.isOk

/-- The node, with a record of what it is handed. -/
def Node.recorded (node : Node σ) : Node (σ × List Handover) :=
  { node.lift fun x => x.onFst with
    submit := fun signed => ExceptT.mk fun (world, record) =>
      let (answer, world) := (node.submit signed).outcome world
      (answer, world, record ++ [⟨signed, answer⟩]) }

def Network.recorded (net : Network σ) : Network (σ × List Handover) :=
  ⟨net.node.recorded, net.compiler.lift fun x => x.onFst⟩

namespace Session

def mapWorld (f : τ → σ) (s : Session τ) : Session σ :=
  { s with world := f s.world }

/-- The session, with nothing recorded yet. -/
def recorded (s : Session σ) : Session (σ × List Handover) :=
  s.mapWorld fun world => (world, [])

def record (s : Session (σ × List Handover)) : List Handover :=
  s.world.2

end Session

/-- What groups ask of a node is answered on the larger world as it is on the part. -/
structure Node.FollowedBy (part : τ → σ) (node : Node σ) (node' : Node τ) : Prop where
  submit : ∀ signed, Follows part (node'.submit signed) (node.submit signed)
  simulate : ∀ signed, Follows part (node'.simulate signed) (node.simulate signed)
  pending : ∀ id, Follows part (node'.pending id) (node.pending id)
  lastRound : Follows part node'.lastRound node.lastRound
  waitForBlock : ∀ round, Follows part (node'.waitForBlock round) (node.waitForBlock round)

theorem Node.followedBy_recorded (node : Node σ) : node.FollowedBy Prod.fst node.recorded where
  submit _ := fun _ => rfl
  simulate _ := follows_onFst _
  pending _ := follows_onFst _
  lastRound := follows_onFst _
  waitForBlock _ := follows_onFst _

/-! ## Groups on a larger world -/

section Follows

variable {part : τ → σ} {α : Type}

theorem follows_onWorld {ε : Type} {y : Effect ε τ α} {x : Effect ε σ α} (h : Follows part y x) :
    Follows (Session.mapWorld part) (Session.onWorld y) (Session.onWorld x) := by
  intro s
  have hrun : outcome (Session.onWorld x) (s.mapWorld part) =
      ((x.outcome (part s.world)).1, { s with world := (x.outcome (part s.world)).2 }) := rfl
  rw [hrun, h s.world]
  rfl

theorem follows_ask {y : Effect NodeError τ α} {x : Effect NodeError σ α} (h : Follows part y x) :
    Follows (Session.mapWorld part) (Session.ask y) (Session.ask x) :=
  (follows_onWorld h).mapError

theorem follows_announce {ε : Type} (event : Event) :
    Follows (Session.mapWorld part) (Session.announce event : Effect ε (Session τ) Unit)
      (Session.announce event) := by
  refine Follows.get_bind fun s => ?_
  have hdebug : (s.mapWorld part).debug = s.debug := rfl
  rw [hdebug]
  split
  · exact fun _ => rfl
  · exact follows_pure

theorem follows_waitFrom {node : Node σ} {node' : Node τ} (h : node.FollowedBy part node')
    (id : String) (budget round rounds : Nat) :
    Follows part (waitFrom node' id budget round rounds)
      (waitFrom node id budget round rounds) := by
  induction rounds generalizing round with
  | zero => exact follows_throw
  | succ rounds ih =>
    rw [waitFrom, waitFrom]
    refine (h.pending id).observe.bind fun r => ?_
    rcases r with why | c
    · cases why with
      | notFound _ => exact ih _
      | rejected | request | decode => exact follows_throw
    · dsimp only
      split
      · exact follows_throw_bind
      · split
        · exact follows_pure
        · exact (h.waitForBlock round).observe.bind fun _ => ih _

theorem follows_waitForConfirmation {node : Node σ} {node' : Node τ}
    (h : node.FollowedBy part node') (id : String) (budget : Nat) :
    Follows part (waitForConfirmation node' id budget) (waitForConfirmation node id budget) :=
  h.lastRound.mapError.bind fun _ => follows_waitFrom h _ _ _ _

namespace AtomicGroup

/-- A group on a session, seen on a part of the world. -/
def onPart (part : τ → σ) (w : AtomicGroup × Session τ) : AtomicGroup × Session σ :=
  (w.1, w.2.mapWorld part)

theorem follows_onGroup (f : AtomicGroup → Except ClientError α × AtomicGroup) :
    Follows (onPart part) (onGroup f) (onGroup f) :=
  fun _ => rfl

theorem follows_onSession {y : Effect ClientError (Session τ) α}
    {x : Effect ClientError (Session σ) α} (h : Follows (Session.mapWorld part) y x) :
    Follows (onPart part) (onSession y) (onSession x) := by
  intro w
  have hrun : outcome (onSession x) (onPart part w) =
      ((x.outcome (w.2.mapWorld part)).1, w.1, (x.outcome (w.2.mapWorld part)).2) := rfl
  rw [hrun, h w.2]
  rfl

variable {net : Network σ} {net' : Network τ}

theorem follows_submit (h : net.node.FollowedBy part net'.node) :
    Follows (onPart part) (submit net') (submit net) := by
  refine Follows.get_bind fun w => ?_
  have hstatus : (onPart part w).1.status = w.1.status := rfl
  rw [hstatus]
  split
  · exact follows_throw_bind
  · refine (follows_onGroup _).bind fun signed => follows_ofExcept.bind fun ids => ?_
    refine (follows_onSession (follows_ask (h.submit signed))).bind fun _ => ?_
    exact (follows_onGroup _).bind fun _ => follows_pure

theorem follows_execute (h : net.node.FollowedBy part net'.node) (maxRounds : Option Nat) :
    Follows (onPart part) (execute net' maxRounds) (execute net maxRounds) := by
  refine (follows_submit h).bind fun ids => ?_
  cases ids with
  | nil => exact follows_throw
  | cons first rest =>
    refine Follows.get_bind fun w => ?_
    have hrounds : (onPart part w).2.maxRounds = w.2.maxRounds := rfl
    rw [hrounds]
    refine (follows_onSession (follows_onWorld (follows_waitForConfirmation h first _))).bind
      fun confirmed => ?_
    refine (Follows.mapM (fun id => follows_onSession (follows_ask (h.pending id))) rest).bind
      fun others => ?_
    refine (follows_onGroup _).bind fun _ => (follows_onGroup _).bind fun _ => follows_pure

theorem follows_simulate (h : net.node.FollowedBy part net'.node) :
    Follows (onPart part) (simulate net') (simulate net) := by
  refine (follows_onGroup _).bind fun signed => follows_ofExcept.bind fun ids => ?_
  refine (follows_onSession (follows_ask (h.simulate signed))).bind fun result => ?_
  refine (follows_onSession (follows_announce _)).bind fun _ => ?_
  cases result.failure with
  | some reason => exact follows_throw
  | none => exact (follows_onGroup _).bind fun _ => follows_pure

end AtomicGroup

end Follows

end AppLedger
