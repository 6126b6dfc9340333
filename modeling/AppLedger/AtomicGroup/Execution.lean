import AppLedger.AtomicGroup
import AppLedger.Client.Session

/-! Sending a group to a node, waiting for its confirmation, and reading what its methods have
returned. -/

namespace AppLedger

/-- A group that was only simulated has no round. -/
structure GroupResult where
  round : Option Nat
  ids : List String
  returns : List Abi.Return
  confirmations : List Confirmation

/-- Asks for a transaction until it is confirmed or dropped, at most as often as there are
`rounds`. A round is waited for where the node knows the transaction. -/
def waitFrom {σ : Type} (node : Node σ) (id : String) (budget round : Nat) :
    (rounds : Nat) → Effect ClientError σ Confirmation
  | 0 => throw (.timeout id budget)
  | rounds + 1 => do
    match ← (node.pending id).observe with
    | .ok c =>
      if c.poolError ≠ "" then throw (.dropped id c.poolError)
      if c.round.isSome then return c
      let _ : Except NodeError Nat ← (node.waitForBlock round).observe
      waitFrom node id budget (round + 1) rounds
    | .error (.notFound _) => waitFrom node id budget (round + 1) rounds
    | .error why => throw (.ofNode why)

def waitForConfirmation {σ : Type} (node : Node σ) (id : String) (budget : Nat) :
    Effect ClientError σ Confirmation := do
  let last ← node.lastRound.mapError ClientError.ofNode
  waitFrom node id budget (last + 1) budget

namespace AtomicGroup

variable {σ : Type}

/-- An effect on a group and on the session in which it is sent. -/
abbrev GroupEffect (σ α : Type) := Effect ClientError (AtomicGroup × Session σ) α

def onGroup {α : Type} (f : AtomicGroup → Except ClientError α × AtomicGroup) : GroupEffect σ α :=
  Effect.onFst (ExceptT.mk f)

def onSession {α : Type} (x : Effect ClientError (Session σ) α) : GroupEffect σ α :=
  x.onSnd

def setStatus (status : GroupStatus) : GroupEffect σ Unit :=
  onGroup fun g => (.ok (), { g with status })

def ids (signed : List SignedTransaction) : Except ClientError (List String) :=
  (signed.mapM SignedTransaction.id).mapError .transaction

def returnOf (confirmations : List Confirmation) (call : Nat × Abi.Method) :
    Except ClientError Abi.Return :=
  match confirmations[call.1]? with
  | none => .error (.decode (.result call.1))
  | some c =>
    match call.2.parseReturn c.logs with
    | .ok r => .ok r
    | .error (.undecodable why) => .error (.decode (.returned why))
    | .error why => .error (.abi why)

/-- What each method has returned, in the order of the calls. -/
def returns (g : AtomicGroup) (confirmations : List Confirmation) :
    Except ClientError (List Abi.Return) :=
  g.methods.mapM (returnOf confirmations)

/-- Sends the group, and yields the identities of its members. -/
def submit (net : Network σ) : GroupEffect σ (List String) := do
  if GroupStatus.submitted.rank ≤ (← get).1.status.rank then throw (.state .alreadySubmitted)
  let signed ← onGroup gatherSignatures
  let ids ← Effect.ofExcept (ids signed)
  let _ ← onSession (Session.ask (net.node.submit signed))
  setStatus .submitted
  return ids

/-- Sends the group and waits until it is confirmed. -/
def execute (net : Network σ) (maxRounds : Option Nat) : GroupEffect σ GroupResult := do
  match ← submit net with
  | [] => throw (.decode .noTransactions)
  | first :: rest =>
    let budget := maxRounds.getD (← get).2.maxRounds
    let confirmed ← onSession (Session.onWorld (waitForConfirmation net.node first budget))
    let others ← rest.mapM fun id => onSession (Session.ask (net.node.pending id))
    setStatus .committed
    let confirmations := confirmed :: others
    let returns ← onGroup fun g => (g.returns confirmations, g)
    return { round := confirmed.round, ids := first :: rest, returns, confirmations }

/-- What the group would do. Nothing is sent for good. -/
def simulate (net : Network σ) : GroupEffect σ GroupResult := do
  let signed ← onGroup gatherSignatures
  let ids ← Effect.ofExcept (ids signed)
  let result ← onSession (Session.ask (net.node.simulate signed))
  onSession (Session.announce (.simulated result))
  match result.failure with
  | some reason => throw (.submission reason)
  | none =>
    let returns ← onGroup fun g => (g.returns result.results, g)
    return { round := none, ids, returns, confirmations := result.results }

end AtomicGroup

end AppLedger
