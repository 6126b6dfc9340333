import AppLedger.Client.Call

/-! The life of an application, from its creation to its deletion, and the accounts that opt in
and out. -/

namespace AppLedger.Client

variable {σ : Type}

structure Creation where
  app : UInt64
  address : Address
  transaction : String
  deriving DecidableEq

/-- The pages beyond the first that hold so many bytes. -/
def requiredExtraPages (size : Nat) : Nat :=
  (size - pageSize + (pageSize - 1)) / pageSize

/-- The pages that are asked for, or else as many as are needed. -/
def extraPages (size : Nat) : Option UInt64 → Except BadArgument UInt64
  | some pages => if maxExtraPages < pages.toNat then .error (.pages pages) else .ok pages
  | none =>
    if maxExtraPages < requiredExtraPages size then .error (.programSize size)
    else .ok (UInt64.ofNat (requiredExtraPages size))

/-- What creates an application of the programs, in the pages that are asked for or needed. -/
def creation (c : Client) (approval clear : Bytes) (pages : Option UInt64) :
    Except BadArgument CallBody := do
  let pages ← extraPages (approval.length + clear.length) pages
  return {
    app := 0, onComplete := (c.app.createHandler.map Prod.snd).getD .noOp,
    approval := some approval, clear := some clear, globalSchema := some c.app.globalSchema,
    localSchema := some c.app.localSchema, extraPages := some pages }

/-- What gives an application other programs. -/
def replacement (app : UInt64) (approval clear : Bytes) : CallBody where
  app := app
  onComplete := .updateApplication
  approval := some approval
  clear := some clear

/-- The call of an application is the last member of its group. -/
def lastId (result : GroupResult) : Except ClientError String :=
  match result.ids.getLast? with
  | some id => .ok id
  | none => .error (.decode .noTransactions)

/-- The group of a call: of a method, whose arguments are left to their defaults, or a bare one. -/
def lifecycleGroup (net : Network σ) (c : Client) (x : Context) (body : CallBody)
    (handler : Option MethodSpec) (o : CallOptions) : ClientEffect σ AtomicGroup := do
  match handler with
  | some spec =>
    let args := spec.method.args.map fun _ => MethodArg.byDefault
    let call ← c.resolvedCall net x body spec args o
    Effect.ofExcept (groupOf call)
  | none =>
    let member ← Effect.ofExcept (callTransaction x body (o.args.getD []) o.references o)
    match ({} : AtomicGroup).addTransaction member with
    | (.ok (), g) => return g
    | (.error why, _) => throw why

def sendLifecycle (net : Network σ) (c : Client) (body : CallBody) (handler : Option MethodSpec)
    (o : CallOptions) : ClientEffect σ GroupResult := do
  let x ← c.context net o
  let group ← c.lifecycleGroup net x body handler o
  c.send net group false o.maxRounds

/-- Creates the application. The client that comes back is for the new application. -/
def create (net : Network σ) (c : Client) (pages : Option UInt64) (o : CallOptions) :
    ClientEffect σ (Creation × Client) := do
  if c.appId ≠ 0 then throw (.configuration (.deployed c.appId))
  let (approval, clear) ← c.compile net
  let body ← Effect.ofExcept ((c.creation approval clear pages).mapError .argument)
  let result ← c.sendLifecycle net body (c.app.createHandler.map Prod.fst) o
  match result.confirmations.getLast?.bind (·.createdApp) with
  | none => throw (.decode .noCreatedApp)
  | some app =>
    let address := Address.ofApp app
    let transaction ← Effect.ofExcept (lastId result)
    return ({ app, address, transaction }, { c with appId := app, address := some address })

/-- Gives the application its programs anew. -/
def update (net : Network σ) (c : Client) (o : CallOptions) : ClientEffect σ (String × Client) := do
  let app ← Effect.ofExcept c.deployedId
  let (approval, clear) ← c.compile net
  let body := replacement app approval clear
  let result ← c.sendLifecycle net body (c.app.handler .updateApplication) o
  let id ← Effect.ofExcept (lastId result)
  return (id, { c with address := some (.ofApp app) })

/-- Goes through the method that stands for the stage, if there is one. -/
def passStage (net : Network σ) (c : Client) (stage : OnComplete) (o : CallOptions) :
    ClientEffect σ String := do
  let app ← Effect.ofExcept c.deployedId
  let result ← c.sendLifecycle net { app, onComplete := stage } (c.app.handler stage) o
  Effect.ofExcept (lastId result)

def delete (net : Network σ) (c : Client) (o : CallOptions) : ClientEffect σ String :=
  c.passStage net .deleteApplication o

def optIn (net : Network σ) (c : Client) (o : CallOptions) : ClientEffect σ String :=
  c.passStage net .optIn o

def closeOut (net : Network σ) (c : Client) (o : CallOptions) : ClientEffect σ String :=
  c.passStage net .closeOut o

/-- Gives up the local state. No method stands for this stage, as the program cannot refuse it. -/
def clearState (net : Network σ) (c : Client) (o : CallOptions) : ClientEffect σ String := do
  let app ← Effect.ofExcept c.deployedId
  let result ← c.sendLifecycle net { app, onComplete := .clearState } none o
  Effect.ofExcept (lastId result)

/-- Pays an amount to the account of the application. -/
def fund (net : Network σ) (c : Client) (amount : UInt64) (o : CallOptions) :
    ClientEffect σ String := do
  let app ← Effect.ofExcept c.deployedId
  let x ← c.context net o
  let payment := Transaction.payment { header := header x o, receiver := .ofApp app, amount }
  let transaction ← Effect.ofExcept ((payment.assignFee x.params.feeParams).mapError .transaction)
  match ({} : AtomicGroup).addTransaction { transaction, signer := x.signer } with
  | (.error why, _) => throw why
  | (.ok (), g) =>
    let result ← withGroup g (AtomicGroup.execute net o.maxRounds)
    Effect.ofExcept (lastId result)

end AppLedger.Client
