import AppLedger.Client.Description
import AppLedger.Ledger.Approval

/-! A sample application that counts. It has methods of every kind: with defaults, with a struct,
with a payment in front of the call, and some that stand for stages of the application's life. -/

namespace AppLedger.Sample.Counter

open ApprovalEffects

def approvalSource : String :=
  "txn ApplicationID\nbz create\nmethod \"add(uint64,uint64)uint64\"\n" ++
    "txna ApplicationArgs 0\nmatch add\nerr\ncreate:\nint 1"

def clearSource : String := "int 1"

def description : DescriptionDraft where
  name := "counter"
  approval := approvalSource
  clear := clearSource
  declarations :=
    [{ name := "counter", scope := .global, kind := .uint,
       description := some "Times incremented" },
     { name := "owner", scope := .global, kind := .bytes },
     { name := "visits", scope := .local, kind := .uint }]
  methods :=
    [("add(uint64,uint64)uint64", {}),
     ("hello(string)string", {}),
     ("increment()uint64", {}),
     ("get_counter()uint64", { readOnly := true }),
     ("double(uint64)uint64", { defaults := [("arg0", .globalState "counter")] }),
     ("greet(string)string", { defaults := [("arg0", .constant (.string "world"))] }),
     ("next_counter(uint64)uint64", { defaults := [("arg0", .method "get_counter()uint64")] }),
     ("describe((uint64,string))string",
       { structs := [("arg0", ⟨"Profile", [("id", "uint64"), ("label", "string")]⟩)] }),
     ("deposit(pay,uint64)void", {}),
     ("opt_in()void", {}),
     ("visit()uint64", {}),
     ("delete()void", {})]
  handlers := [(.optIn, "opt_in()void"), (.deleteApplication, "delete()void")]

/-- The creator owns the application. -/
def isOwner (r : ApprovalRequest) : Bool :=
  (r.globalState.get? (Bytes.ofText "owner")).bind StateValue.bytes? = some r.sender.key.bytes

def create (r : ApprovalRequest) : ApprovalEffects :=
  setGlobal (setGlobal {} "counter" (.uint 0)) "owner" (.bytes r.sender.key.bytes)

/-- The payment right before the call goes to the application and is the amount that is named. -/
def deposit (r : ApprovalRequest) : Except String ApprovalEffects := do
  let expected ← r.uintArg 1
  let missing := s!"deposit of {expected} must follow a payment to the application"
  match r.previous? with
  | some (.payment p) =>
    if p.receiver = r.appAddress ∧ p.amount.toNat = expected then return {} else throw missing
  | _ => throw missing

def describe (r : ApprovalRequest) : Except String ApprovalEffects := do
  match ← r.arg 1 (.tuple [.uint64, .string]) with
  | .array [id, label] =>
    let id ← id.uint64?.elim (.error "profile id is not a uint64") .ok
    let label ← label.text?.elim (.error "profile label is not a string") .ok
    returning .string (.string s!"#{id} {label}")
  | _ => throw "profile must have two fields"

def visit (r : ApprovalRequest) : Except String ApprovalEffects := do
  let visits ← (r.localUint? "visits").elim (.error s!"{r.sender} has not opted in") .ok
  let effects ← returning .uint64 (.uint (visits.toNat + 1))
  return effects.setLocal "visits" (.uint (visits + 1))

def callMethod (r : ApprovalRequest) : Except String ApprovalEffects := do
  let counter := (r.globalUint? "counter").getD 0
  if r.isMethod "add(uint64,uint64)uint64" then
    returning .uint64 (.uint ((← r.uintArg 1) + (← r.uintArg 2)))
  else if r.isMethod "hello(string)string" then
    returning .string (.string ("Hello, " ++ (← r.stringArg 1)))
  else if r.isMethod "greet(string)string" then
    returning .string (.string ("Greetings, " ++ (← r.stringArg 1)))
  else if r.isMethod "increment()uint64" then
    let effects ← returning .uint64 (.uint (counter.toNat + 1))
    return effects.setGlobal "counter" (.uint (counter + 1))
  else if r.isMethod "get_counter()uint64" then
    returning .uint64 (.uint counter.toNat)
  else if r.isMethod "double(uint64)uint64" then
    returning .uint64 (.uint ((← r.uintArg 1) * 2))
  else if r.isMethod "next_counter(uint64)uint64" then
    returning .uint64 (.uint ((← r.uintArg 1) + 1))
  else if r.isMethod "describe((uint64,string))string" then describe r
  else if r.isMethod "deposit(pay,uint64)void" then deposit r
  else if r.isMethod "opt_in()void" then return setLocal {} "visits" (.uint 0)
  else if r.isMethod "visit()uint64" then visit r
  else if r.isMethod "delete()void" then return {}
  else throw "err opcode executed"

/-- Only the owner may update or delete. A call without arguments and a close-out are accepted. -/
def approval : ApprovalProgram := fun r =>
  if r.isCreate then .ok (create r)
  else
    let call := if r.args.isEmpty then .ok {} else callMethod r
    match r.onComplete with
    | .updateApplication => if isOwner r then .ok {} else .error "only the owner may update"
    | .deleteApplication =>
      if !r.isMethod "delete()void" then .error "delete must call delete()void"
      else if !isOwner r then .error "only the owner may delete"
      else call
    | .optIn =>
      if !r.isMethod "opt_in()void" then .error "opt in must call opt_in()void" else call
    | .closeOut => .ok {}
    | .noOp | .clearState => call

end AppLedger.Sample.Counter
