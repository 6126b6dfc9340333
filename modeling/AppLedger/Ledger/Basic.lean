import AppLedger.Ledger.Evaluation

/-! A ledger in memory that stands for a node. It compiles programs itself, confirms a group in a
round of its own, and can be set to fail. -/

namespace AppLedger

/-- How the ledger is set to fail. -/
structure Faults where
  compilation : Option String := none
  submission : Option String := none
  /-- Groups are taken and dropped from the pool. -/
  pool : Option String := none
  /-- Groups are taken and never confirmed. -/
  stall : Bool := false
  deriving DecidableEq

structure Ledger where
  state : LedgerState := {}
  faults : Faults := {}
  programs : ProgramTable := {}
  /-- Every group that was sent, also those that were refused. -/
  submitted : List (List SignedTransaction) := []

namespace Ledger

def rememberSource (l : Ledger) (source : String) (version : UInt8) : Ledger :=
  let code := Program.Stub.bytecode source version
  let full := Program.Stub.fullSource source version
  { l with programs.sources := l.programs.sources.put code full }

/-- Gives the approval program that a source is compiled to. -/
def register (l : Ledger) (source : String) (version : UInt8) (program : ApprovalProgram) :
    Ledger :=
  let l := l.rememberSource source version
  let code := Program.Stub.bytecode source version
  { l with programs.approvals := l.programs.approvals.put code program }

def fund (l : Ledger) (account : Address) (amount : Nat) : Ledger :=
  { l with state := l.state.credit account amount }

def record (confirmations : Table String Confirmation) (results : List (String × Confirmation)) :
    Table String Confirmation :=
  results.foldl (fun t r => t.put r.1 r.2) confirmations

/-- The state after a group that is dropped or stalled: the group is known, and has no effect. -/
def withPending (s : LedgerState) (faults : Faults) (e : Evaluation) : LedgerState :=
  let pending : Confirmation := { poolError := faults.pool.getD "" }
  { s with confirmations := record s.confirmations (e.results.map fun r => (r.1, pending)) }

/-- The state after a group that is confirmed. -/
def withConfirmed (e : Evaluation) : LedgerState :=
  { e.state with
    lastRound := e.round
    confirmations := record e.state.confirmations
      (e.results.map fun r => (r.1, { r.2 with round := some e.round })) }

def firstId (e : Evaluation) : String :=
  (e.results.head?.map Prod.fst).getD ""

def submit (l : Ledger) (signed : List SignedTransaction) : Except NodeError String × Ledger :=
  let l := { l with submitted := l.submitted ++ [signed] }
  match l.faults.submission with
  | some reason => (.error (.rejected reason), l)
  | none =>
    match Evaluation.ofGroup l.programs l.state signed false with
    | .error why => (.error (.rejected s!"TransactionPool.Remember: {why.message}"), l)
    | .ok e =>
      let state :=
        if l.faults.pool.isSome || l.faults.stall then withPending l.state l.faults e
        else withConfirmed e
      (.ok (firstId e), { l with state })

def simulate (l : Ledger) (signed : List SignedTransaction) : Simulation :=
  match Evaluation.ofGroup l.programs l.state signed true with
  | .error why =>
    { lastRound := l.state.lastRound, failure := some why.message, results := [] }
  | .ok e =>
    { lastRound := l.state.lastRound, failure := none, results := e.results.map Prod.snd }

def params (l : Ledger) : NetworkParams where
  fee := 0
  minFee := UInt64.ofNat ledgerMinFee
  lastRound := UInt64.ofNat l.state.lastRound
  genesisId := ledgerGenesisId
  genesisHash := ledgerGenesisHash
  consensusVersion := "future"

def pending (l : Ledger) (id : String) : Except NodeError Confirmation :=
  (l.state.confirmations.get? id).elim (.error (.notFound (.transaction id))) .ok

def waitForBlock (l : Ledger) (round : Nat) : Ledger :=
  { l with state := { l.state with lastRound := max l.state.lastRound round } }

def application (l : Ledger) (app : UInt64) : Except NodeError ApplicationInfo :=
  match l.state.apps.get? app with
  | some r =>
    .ok { app, creator := r.creator, approval := r.approval, clear := r.clear,
          globalSchema := r.globalSchema, localSchema := r.localSchema, extraPages := r.extraPages,
          globalState := r.globalState }
  | none => .error (.notFound (.application app))

def account (l : Ledger) (address : Address) : AccountInfo where
  address
  balance := l.state.balance address
  authAddress := l.state.authorizers.get? address
  optedIn := l.state.locals.count fun key _ => key.1 = address
  created := l.state.apps.count fun _ app => app.creator = address
  round := l.state.lastRound

def accountState (l : Ledger) (address : Address) (app : UInt64) : Except NodeError AppState :=
  (l.state.localState? address app).elim (.error (.notFound (.optIn address app))) .ok

/-- Reads from the ledger without a change. -/
def read {ε α : Type} (f : Ledger → Except ε α) : Effect ε Ledger α :=
  ExceptT.mk fun l => (f l, l)

def node : Node Ledger where
  params := read fun l => .ok l.params
  submit signed := ExceptT.mk fun l => l.submit signed
  pending id := read (·.pending id)
  lastRound := read fun l => .ok l.state.lastRound
  waitForBlock round := ExceptT.mk fun l =>
    let l := l.waitForBlock round
    (.ok l.state.lastRound, l)
  application app := read (·.application app)
  account address := read fun l => .ok (l.account address)
  accountState address app := read (·.accountState address app)
  simulate signed := read fun l => .ok (l.simulate signed)

def compile (l : Ledger) (source : String) (version : UInt8) :
    Except CompilerError CompiledProgram × Ledger :=
  match l.faults.compilation with
  | some diagnostic => (.error (.rejected diagnostic), l)
  | none => (.ok (Program.Stub.compile source version), l.rememberSource source version)

def compiler : Compiler Ledger where
  compile source version := ExceptT.mk fun l => l.compile source version

end Ledger

end AppLedger
