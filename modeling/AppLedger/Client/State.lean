import AppLedger.Client

/-! What a client reads of the state of its application. -/

namespace AppLedger.Client

variable {σ : Type}

def applicationState (net : Network σ) (c : Client) : ClientEffect σ AppState := do
  let app ← Effect.ofExcept c.deployedId
  let info ← Session.ask (net.node.application app)
  return info.globalState

/-- The account of the application itself. -/
def applicationAccount (net : Network σ) (c : Client) : ClientEffect σ AccountInfo := do
  let app ← Effect.ofExcept c.deployedId
  Session.ask (net.node.account (.ofApp app))

/-- The state of an account, or else of the client's sender, in the application. -/
def accountState (net : Network σ) (c : Client) (account : Option Address) :
    ClientEffect σ AppState := do
  let app ← Effect.ofExcept c.deployedId
  let account ← match account with
    | some account => pure account
    | none => Effect.ofExcept (c.senderFor none none)
  (Session.onWorld (net.node.accountState account app)).mapError fun
    | .notFound _ => ClientError.state (.notOptedIn account app)
    | why => .ofNode why

/-- The value of a key, which the state is to have. -/
def keyValue (state : AppState) (key : String) (scope : Scope) : Except ClientError StateValue :=
  match state.get? (Bytes.ofText key) with
  | some v => .ok v
  | none => .error (.state (.noKey key scope.text))

/-- A value of the state as an argument of the given type. -/
def argOfState? (type : Abi.ArgType) (v : StateValue) : Option MethodArg :=
  match type, v with
  | .value (.uint _), .uint n => some (.value (.uint n.toNat))
  | .value .string, .bytes b => b.toText?.map fun s => .value (.string s)
  | .value .address, .bytes b =>
    (FixedBytes.ofBytes? b).map fun key => .value (.address (Address.text ⟨key⟩))
  | .reference .account, .bytes b => (FixedBytes.ofBytes? b).map fun key => .account ⟨key⟩
  | .value (.dynamic .byte), .bytes b => some (.value (.ofBytes b))
  | .value ty, .bytes b => (ty.decode b).toOption.map .value
  | .reference .application, .uint n => some (.application n)
  | .reference .asset, .uint n => some (.asset n)
  | _, _ => none

def argOfState (type : Abi.ArgType) (v : StateValue) : Except ClientError MethodArg :=
  match argOfState? type v with
  | some arg => .ok arg
  | none => .error (.argument (.stateValue v type))

end AppLedger.Client
