import AppLedger.Http.Answer
import AppLedger.Http.Request

/-! A node, and the compiler that comes with it, over HTTP. -/

namespace AppLedger.Http

open Msgpack

variable {σ : Type}

/-- The status 404 says that something is not known, and 400 that a request is refused. -/
def nodeError : HttpError → NodeError
  | .status 404 body => .notFound (.other body)
  | .status 400 body => .rejected (errorText body)
  | why => .request why.message

def compilerError : HttpError → CompilerError
  | .status _ body => .rejected (errorText body)
  | .request reason => .unavailable (HttpError.message (.request reason))

/-- Sends a request and reads the body of the answer. -/
def ask {α : Type} (client : HttpClient σ) (request : HttpRequest)
    (read : String → Except BadAnswer α) : Effect NodeError σ α := do
  let body ← (client.send request).mapError nodeError
  Effect.ofExcept ((read body).mapError .decode)

def get (path : String) (query : List (String × String)) : HttpRequest where
  method := .get
  path
  query

def post (path : String) (query : List (String × String)) (body : Bytes) (type : String) :
    HttpRequest where
  method := .post
  path
  query
  body := some (body, type)

/-- The group as it is sent: the encodings of its members one after the other. -/
def submitBody (signed : List SignedTransaction) : Except TransactionError Bytes := do
  return (← signed.mapM SignedTransaction.encode).flatten

/-- The request to simulate a group. Its fields are in the order of their declaration. -/
def simulateValue (signed : List SignedTransaction) : Except TransactionError Value := do
  let group ← signed.mapM fun s => s.wire.map Value.ofFields
  return .ofFields [("txn-groups", .array [.ofFields [("txns", .array group)]]),
    ("allow-empty-signatures", .bool true)]

def simulateBody (signed : List SignedTransaction) : Except TransactionError Bytes :=
  (simulateValue signed).map Value.encode

/-- Why a group cannot be written as it is to be simulated. -/
def simulateError : TransactionError → NodeError
  | .boxApp app => .request (unknownBoxText app)
  | why => .request why.message

def submit (client : HttpClient σ) (signed : List SignedTransaction) :
    Effect NodeError σ String := do
  let body ← Effect.ofExcept ((submitBody signed).mapError fun why => .request why.message)
  ask client (post "/v2/transactions" [] body "application/x-binary") sentId

def accountState (client : HttpClient σ) (address : Address) (app : UInt64) :
    Effect NodeError σ AppState := do
  let path := s!"/v2/accounts/{address}/applications/{app.toNat}"
  match ← ask client (get path []) accountState? with
  | some state => return state
  | none => throw (.notFound (.optIn address app))

def simulate (client : HttpClient σ) (signed : List SignedTransaction) :
    Effect NodeError σ Simulation := do
  let body ← Effect.ofExcept ((simulateBody signed).mapError simulateError)
  let request := post "/v2/transactions/simulate" [("format", "json")] body "application/msgpack"
  ask client request simulation

def node (client : HttpClient σ) : Node σ where
  params := ask client (get "/v2/transactions/params" []) params
  submit := submit client
  pending id := ask client (get s!"/v2/transactions/pending/{id}" []) confirmation
  lastRound := ask client (get "/v2/status" []) lastRound
  waitForBlock round := ask client (get s!"/v2/status/wait-for-block-after/{round}" []) lastRound
  application app := ask client (get s!"/v2/applications/{app.toNat}" []) application
  account address := ask client (get s!"/v2/accounts/{address}" [("exclude", "all")]) account
  accountState := accountState client
  simulate := simulate client

/-- The version of a program is that which its source declares. -/
def compile (client : HttpClient σ) (source : String) : Effect CompilerError σ CompiledProgram := do
  let request := post "/v2/teal/compile" [("sourcemap", "true")] (Bytes.ofText source) "text/plain"
  let body ← (client.send request).mapError compilerError
  Effect.ofExcept ((compiledProgram body).mapError .badAnswer)

def compiler (client : HttpClient σ) : Compiler σ where
  compile source _ := compile client source

end AppLedger.Http
