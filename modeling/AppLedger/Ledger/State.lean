import AppLedger.Ledger.Approval
import AppLedger.Ledger.Rejection
import AppLedger.Node.Basic
import AppLedger.Program.Stub
import AppLedger.Table

/-! The state of a ledger, and what each transaction does to it. Balances are kept but nobody is
refused for lack of one. -/

namespace AppLedger

structure AppRecord where
  creator : Address
  approval : Bytes
  clear : Bytes
  globalSchema : StateSchema
  localSchema : StateSchema
  extraPages : UInt64
  globalState : AppState
  deriving DecidableEq

/-- An account without an entry among the authorizers signs for itself. -/
structure LedgerState where
  lastRound : Nat := 1
  nextApp : UInt64 := 1001
  apps : Table UInt64 AppRecord := .empty
  locals : Table (Address × UInt64) AppState := .empty
  balances : Table Address Nat := .empty
  authorizers : Table Address Address := .empty
  confirmations : Table String Confirmation := .empty

/-- The approval programs, and the sources of programs, by their bytecode. A program without an
entry accepts every call. -/
structure ProgramTable where
  approvals : Table Bytes ApprovalProgram := .empty
  sources : Table Bytes String := .empty

/-- Where a program is reported to fail. -/
def ProgramTable.failingPc (programs : ProgramTable) (code : Bytes) : Nat :=
  match programs.sources.get? code with
  | some source => Program.Stub.failingPc source code.length
  | none => 0

def AppState.checkSchema (s : AppState) (schema : StateSchema) (scope : String) :
    Except CallFailure Unit :=
  if schema.uints.toNat < s.uintCount then
    .error (.tooManyUints scope s.uintCount schema.uints.toNat)
  else if schema.byteSlices.toNat < s.byteSliceCount then
    .error (.tooManyBytes scope s.byteSliceCount schema.byteSlices.toNat)
  else .ok ()

namespace LedgerState

def authorizer (s : LedgerState) (account : Address) : Address :=
  (s.authorizers.get? account).getD account

def balance (s : LedgerState) (account : Address) : Nat :=
  (s.balances.get? account).getD 0

def credit (s : LedgerState) (account : Address) (amount : Nat) : LedgerState :=
  { s with balances := s.balances.put account (s.balance account + amount) }

/-- An account without an entry pays nothing, and no account pays more than it has. -/
def debit (s : LedgerState) (account : Address) (amount : Nat) : LedgerState :=
  match s.balances.get? account with
  | some balance => { s with balances := s.balances.put account (balance - amount) }
  | none => s

/-- Moves what an account has left to another one. -/
def close (s : LedgerState) (account heir : Address) : LedgerState :=
  { s with balances := s.balances.erase account }.credit heir (s.balance account)

def pay (s : LedgerState) (p : Payment) : LedgerState :=
  let s := (s.debit p.header.sender p.amount.toNat).credit p.receiver p.amount.toNat
  match p.closeTo with
  | some heir => s.close p.header.sender heir
  | none => s

/-- From now on the key of `authorizer` signs for the account. -/
def rekey (s : LedgerState) (account authorizer : Address) : LedgerState :=
  if authorizer = account then { s with authorizers := s.authorizers.erase account }
  else { s with authorizers := s.authorizers.put account authorizer }

def localState? (s : LedgerState) (account : Address) (app : UInt64) : Option AppState :=
  s.locals.get? (account, app)

def putLocal (s : LedgerState) (account : Address) (app : UInt64) (state : AppState) :
    LedgerState :=
  { s with locals := s.locals.put (account, app) state }

def eraseLocal (s : LedgerState) (account : Address) (app : UInt64) : LedgerState :=
  { s with locals := s.locals.erase (account, app) }

def putApp (s : LedgerState) (app : UInt64) (record : AppRecord) : LedgerState :=
  { s with apps := s.apps.put app record }

/-- What the program of an application sees of a call. -/
def request (s : LedgerState) (group : List Transaction) (index : Nat) (call : AppCall)
    (app : UInt64) (record : AppRecord) : ApprovalRequest where
  app
  sender := call.header.sender
  onComplete := call.onComplete
  args := call.args.getD []
  accounts := call.accounts.getD []
  apps := call.apps.getD []
  assets := call.assets.getD []
  globalState := record.globalState
  localState := s.localState? call.header.sender app
  group
  index

def updateGlobal (s : LedgerState) (app : UInt64) (record : AppRecord)
    (updates : List (Bytes × StateValue)) : Except CallFailure LedgerState := do
  if updates.isEmpty then return s
  let state := record.globalState.putAll updates
  state.checkSchema record.globalSchema "global"
  return s.putApp app { record with globalState := state }

def updateLocal (s : LedgerState) (app : UInt64) (record : AppRecord) (account : Address)
    (updates : List (Bytes × StateValue)) : Except CallFailure LedgerState := do
  if updates.isEmpty then return s
  match s.localState? account app with
  | none => throw (.noLocalState account app)
  | some state =>
    let state := state.putAll updates
    state.checkSchema record.localSchema "local"
    return s.putLocal account app state

/-- Runs the program of an application, and yields its logs. -/
def run (programs : ProgramTable) (s : LedgerState) (group : List Transaction) (index : Nat)
    (call : AppCall) (app : UInt64) : Except CallFailure (List Bytes × LedgerState) :=
  match s.apps.get? app with
  | none => .error (.noApp app)
  | some record =>
    match programs.approvals.get? record.approval with
    | none => .ok ([], s)
    | some program =>
      match program (s.request group index call app record) with
      | .error message => .error (.program message app (programs.failingPc record.approval))
      | .ok effects => do
        let s ← s.updateGlobal app record effects.globalUpdates
        let s ← s.updateLocal app record call.header.sender effects.localUpdates
        return (effects.logs, s)

/-- A new application, which its program may still refuse. -/
def create (programs : ProgramTable) (s : LedgerState) (group : List Transaction) (index : Nat)
    (call : AppCall) : Except CallFailure (Confirmation × LedgerState) :=
  match call.approval, call.clear with
  | some approval, some clear => do
    let sender := call.header.sender
    unless call.onComplete = .noOp ∨ call.onComplete = .optIn do
      throw (.createStage call.onComplete)
    if s.nextApp.toNat + 1 = UInt64.size then throw .noIds
    let app := s.nextApp
    let s := { s with nextApp := app + 1 }.putApp app
      { creator := sender, approval, clear, globalSchema := call.globalSchema.getD {},
        localSchema := call.localSchema.getD {}, extraPages := call.extraPages.getD 0,
        globalState := .empty }
    let s := if call.onComplete = .optIn then s.putLocal sender app .empty else s
    let (logs, s) ← run programs s group index call app
    return ({ createdApp := some app, logs }, s)
  | _, _ => .error .createPrograms

/-- A call of an application that exists. The program cannot keep an account from clearing its
local state. -/
def callExisting (programs : ProgramTable) (s : LedgerState) (group : List Transaction)
    (index : Nat) (call : AppCall) : Except CallFailure (List Bytes × LedgerState) := do
  let sender := call.header.sender
  let app := call.app
  unless s.apps.contains app do throw (.noApp app)
  let optedIn := (s.localState? sender app).isSome
  match call.onComplete with
  | .noOp => run programs s group index call app
  | .optIn =>
    if optedIn then throw (.optedIn sender app)
    run programs (s.putLocal sender app .empty) group index call app
  | .closeOut =>
    unless optedIn do throw (.notOptedIn sender app)
    let (logs, s) ← run programs s group index call app
    return (logs, s.eraseLocal sender app)
  | .clearState =>
    unless optedIn do throw (.notOptedIn sender app)
    return ([], s.eraseLocal sender app)
  | .updateApplication =>
    match call.approval, call.clear with
    | some approval, some clear =>
      let (logs, s) ← run programs s group index call app
      match s.apps.get? app with
      | some record => return (logs, s.putApp app { record with approval, clear })
      | none => return (logs, s)
    | _, _ => throw .updatePrograms
  | .deleteApplication =>
    let (logs, s) ← run programs s group index call app
    return (logs, { s with apps := s.apps.erase app })

def applyCall (programs : ProgramTable) (s : LedgerState) (group : List Transaction) (index : Nat)
    (call : AppCall) : Except CallFailure (Confirmation × LedgerState) :=
  if call.app = 0 then create programs s group index call
  else do
    let (logs, s) ← callExisting programs s group index call
    return ({ logs }, s)

/-- The sender pays the fee first, and is rekeyed last. -/
def apply (programs : ProgramTable) (s : LedgerState) (group : List Transaction) (index : Nat)
    (t : Transaction) : Except CallFailure (Confirmation × LedgerState) := do
  let s := s.debit t.sender (t.header.fee.getD 0).toNat
  let (confirmation, s) ← match t with
    | .payment p => .ok ({}, s.pay p)
    | .appCall call => applyCall programs s group index call
  match t.header.rekeyTo with
  | some authorizer => return (confirmation, s.rekey t.sender authorizer)
  | none => return (confirmation, s)

end LedgerState

end AppLedger
