import AppLedger.Abi.Method
import AppLedger.State
import AppLedger.Transaction.Basic

/-! Approval programs, as functions from what a program sees to what it does. -/

namespace AppLedger

/-- What a program sees. The local state is that of the sender, who may not have opted in. -/
structure ApprovalRequest where
  app : UInt64
  sender : Address
  onComplete : OnComplete
  args : List Bytes
  accounts : List Address
  apps : List UInt64
  assets : List UInt64
  globalState : AppState
  localState : Option AppState
  group : List Transaction
  index : Nat

namespace ApprovalRequest

def appAddress (r : ApprovalRequest) : Address :=
  .ofApp r.app

def isCreate (r : ApprovalRequest) : Bool :=
  match r.group[r.index]? with
  | some (.appCall call) => call.app = 0
  | _ => false

/-- Whether the first argument is the selector of a method. -/
def isMethod (r : ApprovalRequest) (signature : String) : Bool :=
  match (Abi.Method.ofText signature).bind (·.selector), r.args with
  | .ok selector, first :: _ => selector = first
  | _, _ => false

/-- Decodes an argument; the argument at 0 is the selector. -/
def arg (r : ApprovalRequest) (index : Nat) (ty : Abi.Ty) : Except String Abi.Value :=
  match r.args[index]? with
  | some bytes => (ty.decode bytes).mapError (·.message)
  | none => .error s!"missing application argument {index}"

def uintArg (r : ApprovalRequest) (index : Nat) : Except String Nat := do
  let v ← r.arg index .uint64
  v.uint64?.elim (.error s!"argument {index} is not a uint64") .ok

def stringArg (r : ApprovalRequest) (index : Nat) : Except String String := do
  let v ← r.arg index .string
  v.text?.elim (.error s!"argument {index} is not a string") .ok

def globalUint? (r : ApprovalRequest) (key : String) : Option UInt64 :=
  (r.globalState.get? (Bytes.ofText key)).bind StateValue.uint?

def localUint? (r : ApprovalRequest) (key : String) : Option UInt64 :=
  (r.localState.bind (·.get? (Bytes.ofText key))).bind StateValue.uint?

/-- The transaction right before the call. -/
def previous? (r : ApprovalRequest) : Option Transaction :=
  match r.index with
  | 0 => none
  | index + 1 => r.group[index]?

end ApprovalRequest

/-- What a program does that accepts the call. -/
structure ApprovalEffects where
  logs : List Bytes := []
  globalUpdates : List (Bytes × StateValue) := []
  localUpdates : List (Bytes × StateValue) := []
  deriving DecidableEq

namespace ApprovalEffects

/-- Logs the return value of a method. -/
def returning (ty : Abi.Ty) (v : Abi.Value) : Except String ApprovalEffects := do
  let bytes ← (ty.encode v).mapError (·.message)
  return { logs := [Abi.returnPrefix ++ bytes] }

def log (e : ApprovalEffects) (entry : Bytes) : ApprovalEffects :=
  { e with logs := e.logs ++ [entry] }

def setGlobal (e : ApprovalEffects) (key : String) (v : StateValue) : ApprovalEffects :=
  { e with globalUpdates := e.globalUpdates ++ [(Bytes.ofText key, v)] }

def setLocal (e : ApprovalEffects) (key : String) (v : StateValue) : ApprovalEffects :=
  { e with localUpdates := e.localUpdates ++ [(Bytes.ofText key, v)] }

end ApprovalEffects

/-- A program that does not accept the call says why. -/
abbrev ApprovalProgram := ApprovalRequest → Except String ApprovalEffects

end AppLedger
