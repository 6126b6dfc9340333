import AppLedger.Abi.Method
import AppLedger.LogicError
import AppLedger.Program.Compiler
import AppLedger.Signer

/-! What can go wrong when a client of an application works. -/

namespace AppLedger

/-- Why the fields of a struct do not describe the argument that they are for. -/
inductive StructFault
  | unknownArgument
  | notTuple (type : Abi.ArgType)
  | fieldCount (items fields : Nat)
  | fieldType (why : Abi.Invalid)
  | fieldMismatch (field : String) (declared item : Abi.Ty)

def StructFault.message : StructFault → String
  | .unknownArgument => "unknown argument"
  | .notTuple type => s!"{type} is not a tuple"
  | .fieldCount items fields => s!"the tuple has {items} elements, the hint names {fields}"
  | .fieldType why => (Abi.Error.invalid why).message
  | .fieldMismatch field declared item =>
    s!"field {field} is {declared} but the tuple element is {item}"

/-- A setting that is missing or contradicts another one. -/
inductive Misconfigured
  | noSigner
  | noSender
  | deployed (app : UInt64)
  | notDeployed (name : String)
  | overrideKind (key expected got : String)
  | overrideKey (key : String)
  | signing (why : SignError)
  | unsigned (places : List Nat)
  | keyTooLong (name : String)
  | duplicateState (name : String)
  | tooManyKeys (scope : String) (count max : Nat)
  | unknownDefault (method arg : String)
  | structFields (method hint arg : String) (fault : StructFault)
  | clearStateHandler

def placesText (places : List Nat) : String :=
  "[" ++ ", ".intercalate (places.map toString) ++ "]"

def Misconfigured.message : Misconfigured → String
  | .noSigner => "No signer provided and the client has no default signer"
  | .noSender => "No sender provided and none can be derived without a signer"
  | .deployed app => s!"Application {app.toNat} is already deployed"
  | .notDeployed name => s!"Application {name} is not deployed; create it or set application_id"
  | .overrideKind key expected got => s!"Override {key} expects {expected}, got {got}"
  | .overrideKey key => s!"Unknown override key {key}"
  | .signing why => s!"Failed to sign transactions: {why.message}"
  | .unsigned places => s!"Transactions at indexes {placesText places} were not signed"
  | .keyTooLong name =>
    s!"State key {name} is {name.utf8ByteSize} bytes long, the maximum is 64"
  | .duplicateState name => s!"State {name} is declared more than once"
  | .tooManyKeys scope count max =>
    s!"Application declares {count} {scope} state keys, the maximum is {max}"
  | .unknownDefault method arg => s!"Method {method} has a default for unknown argument {arg}"
  | .structFields method hint arg fault =>
    s!"Method {method} has an invalid struct hint {hint} for {arg}: {fault.message}"
  | .clearStateHandler => "ClearState cannot be handled by a method"

inductive CompilationFailure
  | compiler (why : CompilerError)
  | version (got : Option UInt8) (requested : UInt8)

def CompilationFailure.message : CompilationFailure → String
  | .compiler why => why.message
  | .version (some got) requested =>
    s!"Compiled bytecode targets version Some({got.toNat}) but {requested.toNat} was requested"
  | .version none requested =>
    s!"Compiled bytecode targets version None but {requested.toNat} was requested"

/-- An argument, a method or a group that cannot be used as asked. -/
inductive BadArgument
  | arity (method : String) (expected got : Nat)
  | mismatch (position : Nat) (method : String) (type : Abi.ArgType) (got : String)
  | voidReturn (position : Nat) (method : String) (void : String)
  | address (position : Nat) (method : String) (why : Address.Invalid)
  | transactionKind (position : Nat) (method : String) (kind : Abi.TransactionKind) (got : String)
  | references (count : Nat) (kind : String) (max : Nat)
  | allReferences (count : Nat)
  | unencodable (method : String) (why : Abi.Error)
  | noStructFields (arg method : String)
  | missingField (hint arg method field : String)
  | unknownField (hint arg method field : String)
  | noMethod (method app : String)
  | overloaded (method app : String)
  | clearStateMethod
  | pages (asked : UInt64)
  | programSize (size : Nat)
  | limit (exceeded : TransactionError)
  | noDefault (arg method : String)
  | defaultTakesArgs (method : String)
  | stateValue (value : StateValue) (type : Abi.ArgType)
  | fullGroup
  | grouped
  | emptyGroup

def BadArgument.message : BadArgument → String
  | .arity method expected got => s!"Method {method} expects {expected} arguments, got {got}"
  | .mismatch position method type got =>
    s!"Argument {position} of {method} must be {type}, got {got}"
  | .voidReturn position method void =>
    s!"Argument {position} of {method} is the return of void method {void}"
  | .address position method why => s!"Argument {position} of {method}: {why.message}"
  | .transactionKind position method kind got =>
    s!"Argument {position} of {method} must be a {kind} transaction, got {got}"
  | .references count kind max =>
    s!"Application call references {count} {kind}, the maximum is {max}"
  | .allReferences count =>
    s!"Application call has {count} references in total, the maximum is 8"
  | .unencodable method why => s!"Failed to encode arguments for {method}: {why.message}"
  | .noStructFields arg method =>
    s!"Argument {arg} of {method} is given as a struct but has no struct hint"
  | .missingField hint arg method field =>
    s!"Struct {hint} for argument {arg} of {method} is missing field {field}"
  | .unknownField hint arg method field =>
    s!"Struct {hint} for argument {arg} of {method} has no field {field}"
  | .noMethod method app => s!"Method {method} not found in application {app}"
  | .overloaded method app =>
    s!"Method name {method} is overloaded in application {app}; use the full signature"
  | .clearStateMethod => "ClearState calls cannot invoke a method; use clear_state"
  | .pages n => s!"{n.toNat} extra pages requested, the maximum is 3"
  | .programSize size => s!"Programs total {size} bytes, more than fits in 3 extra pages"
  | .limit exceeded => exceeded.message
  | .noDefault arg method => s!"Argument {arg} of {method} has no default value"
  | .defaultTakesArgs method => s!"Default argument method {method} must not take arguments"
  | .stateValue value type => s!"State value {value.text} cannot be used as {type}"
  | .fullGroup => "Atomic group cannot hold more than 16 transactions"
  | .grouped => "Transactions added to a group must not already be grouped"
  | .emptyGroup => "Cannot build an empty group"

/-- An answer of the node that lacks what was asked for. -/
inductive Unreadable
  | result (index : Nat)
  | returned (why : Abi.Undecodable)
  | noReturn (method : String)
  | noCreatedApp
  | noTransactions

def Unreadable.message : Unreadable → String
  | .result index => s!"No result for transaction {index} of the group"
  | .returned why => why.message
  | .noReturn method => s!"No return recorded for method {method}"
  | .noCreatedApp => "Node did not report the id of the created application"
  | .noTransactions => "Group result has no transactions"

/-- A group or an account that is in the wrong state. -/
inductive WrongState
  | alreadyBuilt
  | alreadySubmitted
  | notOptedIn (account : Address) (app : UInt64)
  | noKey (key scope : String)

def WrongState.message : WrongState → String
  | .alreadyBuilt => "Cannot add transactions to a group that has already been built"
  | .alreadySubmitted => "Group has already been submitted"
  | .notOptedIn account app => s!"Account {account} is not opted in to application {app.toNat}"
  | .noKey key scope => s!"Key {key} not found in {scope} state"

inductive ClientError
  | configuration (why : Misconfigured)
  | compilation (why : CompilationFailure)
  | argument (why : BadArgument)
  /-- The reason is in the words of the node. -/
  | submission (reason : String)
  | logic (error : LogicError)
  | timeout (id : String) (rounds : Nat)
  | abi (why : Abi.Error)
  | transaction (why : TransactionError)
  | node (why : NodeError)
  | decode (why : Unreadable)
  | state (why : WrongState)

namespace ClientError

def message : ClientError → String
  | .configuration why => s!"Configuration error: {why.message}"
  | .compilation why => s!"Compilation error: {why.message}"
  | .argument why => s!"Argument error: {why.message}"
  | .submission reason => s!"Submission error: {reason}"
  | .logic error => error.message
  | .timeout id rounds => s!"Timeout error: Transaction {id} unconfirmed after {rounds} rounds"
  | .abi why => s!"ABI error: {why.message}"
  | .transaction why => s!"Transact error: {why.message}"
  | .node why => s!"Transport error: {why.message}"
  | .decode why => s!"Decode error: {why.message}"
  | .state why => s!"App state error: {why.message}"

/-- A rejection by the node is a failed submission. -/
def ofNode : NodeError → ClientError
  | .rejected reason => .submission reason
  | why => .node why

/-- What the node says of a transaction that its pool has dropped. -/
def dropped (transaction reason : String) : ClientError :=
  .submission s!"Transaction {transaction} was rejected; pool error: {reason}"

end ClientError

end AppLedger
