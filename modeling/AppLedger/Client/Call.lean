import AppLedger.Client.Failure
import AppLedger.Client.State

/-! The calls that a client makes: their transactions, the arguments that are left to their
defaults, and the sending. -/

namespace AppLedger.Client

variable {σ : Type}

/-- Who signs, who sends, and the parameters of the network, for one operation. -/
structure Context where
  sender : Address
  signer : SignerHandle
  params : NetworkParams

/-- What a call does besides its arguments. -/
structure CallBody where
  app : UInt64
  onComplete : OnComplete
  approval : Option Bytes := none
  clear : Option Bytes := none
  globalSchema : Option StateSchema := none
  localSchema : Option StateSchema := none
  extraPages : Option UInt64 := none

def context (net : Network σ) (c : Client) (o : CallOptions) : ClientEffect σ Context := do
  let signer ← Effect.ofExcept (c.signerFor o.signer)
  let sender ← Effect.ofExcept (c.senderFor o.sender o.signer)
  let params ← c.paramsFor net o.params
  return { sender, signer, params }

/-- For how many rounds a transaction can be confirmed. -/
def validityWindow (genesisId : String) : UInt64 :=
  if isLocalGenesis genesisId then 1000 else 10

def header (x : Context) (o : CallOptions) : Header where
  sender := x.sender
  firstValid := x.params.lastRound
  lastValid := x.params.lastRound + validityWindow x.params.genesisId
  genesisHash := some x.params.genesisHash
  genesisId := some x.params.genesisId
  note := o.note
  rekeyTo := o.rekeyTo
  lease := o.lease

def nonEmpty {α : Type} (items : List α) : Option (List α) :=
  if items.isEmpty then none else some items

def callFields (x : Context) (body : CallBody) (args : List Bytes) (refs : References)
    (o : CallOptions) : AppCall where
  header := header x o
  app := body.app
  onComplete := body.onComplete
  approval := body.approval
  clear := body.clear
  globalSchema := body.globalSchema
  localSchema := body.localSchema
  extraPages := body.extraPages
  args := nonEmpty args
  accounts := nonEmpty refs.accounts
  apps := nonEmpty refs.apps
  assets := nonEmpty refs.assets
  boxes := nonEmpty refs.boxes

/-- The transaction of a call, within the limits of the network and with a fee. -/
def callTransaction (x : Context) (body : CallBody) (args : List Bytes) (refs : References)
    (o : CallOptions) : Except ClientError Member := do
  let fields := callFields x body args refs o
  fields.validate.mapError fun why => .argument (.limit why)
  let transaction ←
    ((Transaction.appCall fields).assignFee x.params.feeParams).mapError .transaction
  return { transaction, signer := x.signer }

/-- A call of a method whose arguments need nothing of the node. -/
def methodCall (x : Context) (body : CallBody) (spec : MethodSpec) (args : List MethodArg)
    (o : CallOptions) : Except ClientError MethodCall := do
  let args ←
    (MethodArg.orderAllFields spec.method spec.hints spec.method.args args).mapError .argument
  let resolved ← MethodArg.resolve spec.method args x.sender body.app o.references
  let call ← callTransaction x body resolved.args resolved.references o
  return { call, method := spec.method, before := resolved.transactions }

/-- Runs an effect on a group, and forgets the group after it. -/
def withGroup {α : Type} (g : AtomicGroup) (x : AtomicGroup.GroupEffect σ α) : ClientEffect σ α :=
  ExceptT.mk fun session =>
    let (result, _, session) := x.run.run (g, session)
    (result, session)

/-- Sends or simulates a group. -/
def send (net : Network σ) (c : Client) (g : AtomicGroup) (simulate : Bool)
    (maxRounds : Option Nat) : ClientEffect σ GroupResult := do
  let run := if simulate then AtomicGroup.simulate net else AtomicGroup.execute net maxRounds
  match ← (withGroup g run).observe with
  | .ok result => return result
  | .error why => throw (← c.explain net why)

/-- A group that holds nothing but a call. -/
def groupOf (call : MethodCall) : Except ClientError AtomicGroup :=
  match ({} : AtomicGroup).addMethodCall call with
  | (.ok (), g) => .ok g
  | (.error why, _) => .error why

def lastReturn (result : GroupResult) (method : String) : Except ClientError Abi.Return :=
  match result.returns.getLast? with
  | some r => .ok r
  | none => .error (.decode (.noReturn method))

/-- Calls a method that takes nothing, for what it returns. -/
def defaultOfMethod (net : Network σ) (c : Client) (x : Context) (name : String) :
    ClientEffect σ MethodArg := do
  let spec ← Effect.ofExcept ((c.app.method name).mapError .argument)
  unless spec.method.args.isEmpty do throw (.argument (.defaultTakesArgs name))
  let app ← Effect.ofExcept c.deployedId
  let call ← Effect.ofExcept (methodCall x { app, onComplete := .noOp } spec [] {})
  let group ← Effect.ofExcept (groupOf call)
  let result ← c.send net group spec.hints.readOnly none
  let r ← Effect.ofExcept (lastReturn result name)
  return .returned r

def defaultValue (net : Network σ) (c : Client) (x : Context) (type : Abi.ArgType) :
    DefaultArgument → ClientEffect σ MethodArg
  | .constant v => return .value v
  | .globalState key => do
    let state ← c.applicationState net
    Effect.ofExcept ((keyValue state key .global).bind (argOfState type))
  | .localState key => do
    let state ← c.accountState net (some x.sender)
    Effect.ofExcept ((keyValue state key .local).bind (argOfState type))
  | .method name => c.defaultOfMethod net x name

/-- An argument with its default in place. -/
def fillDefault (net : Network σ) (c : Client) (x : Context) (spec : MethodSpec)
    (declared : Abi.Arg) : MethodArg → ClientEffect σ MethodArg
  | .byDefault => do
    let name := declared.name.getD ""
    match spec.hints.default? name with
    | some source => c.defaultValue net x declared.type source
    | none => throw (.argument (.noDefault name spec.method.name))
  | arg => return arg

/-- Arguments that do not match the declared ones in number are left for the resolution to
refuse. -/
def fillDefaults (net : Network σ) (c : Client) (x : Context) (spec : MethodSpec)
    (args : List MethodArg) : ClientEffect σ (List MethodArg) :=
  if args.length ≠ spec.method.args.length then return args
  else (spec.method.args.zip args).mapM fun (declared, arg) => c.fillDefault net x spec declared arg

def resolvedCall (net : Network σ) (c : Client) (x : Context) (body : CallBody)
    (spec : MethodSpec) (args : List MethodArg) (o : CallOptions) : ClientEffect σ MethodCall := do
  let args ← c.fillDefaults net x spec args
  Effect.ofExcept (methodCall x body spec args o)

/-- The call that is to be added to a group. -/
def preparedCall (net : Network σ) (c : Client) (method : String) (args : List MethodArg)
    (onComplete : OnComplete) (o : CallOptions) : ClientEffect σ MethodCall := do
  if onComplete = .clearState then throw (.argument .clearStateMethod)
  let app ← Effect.ofExcept c.deployedId
  let spec ← Effect.ofExcept ((c.app.method method).mapError .argument)
  let x ← c.context net o
  c.resolvedCall net x { app, onComplete } spec args o

/-- Adds a call of a method, with the transactions among its arguments. -/
def addMethodCall (net : Network σ) (c : Client) (g : AtomicGroup) (method : String)
    (args : List MethodArg) (onComplete : OnComplete) (o : CallOptions) :
    ClientEffect σ AtomicGroup := do
  let call ← c.preparedCall net method args onComplete o
  match g.addMethodCall call with
  | (.ok (), g) => return g
  | (.error why, _) => throw why

/-- Adds any transaction. -/
def addTransaction (c : Client) (g : AtomicGroup) (transaction : Transaction)
    (signer : Option SignerHandle) : Except ClientError AtomicGroup := do
  let signer ← c.signerFor signer
  match g.addTransaction { transaction, signer } with
  | (.ok (), g) => return g
  | (.error why, _) => throw why

/-- Calls a method and yields what it returns. A call that only reads is not sent for good. -/
def call (net : Network σ) (c : Client) (method : String) (args : List MethodArg)
    (onComplete : OnComplete) (o : CallOptions) : ClientEffect σ Abi.Return := do
  let spec ← Effect.ofExcept ((c.app.method method).mapError .argument)
  let group ← c.addMethodCall net {} method args onComplete o
  let simulate := spec.hints.readOnly && onComplete = .noOp
  let result ← c.send net group simulate o.maxRounds
  Effect.ofExcept (lastReturn result method)

end AppLedger.Client
