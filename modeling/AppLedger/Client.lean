import AppLedger.AtomicGroup.Execution
import AppLedger.Client.Argument

/-! Clients of an application: who signs, who sends, which application, and which parameters of
the network they go by. -/

namespace AppLedger

/-- Clients of one family share their compiled programs. The application number is 0 before the
application exists. -/
structure Client where
  app : Description
  family : Nat
  signer : Option SignerHandle := none
  sender : Option Address := none
  appId : UInt64 := 0
  address : Option Address := none
  params : Option NetworkParams := none

/-- Settings of a client that are to be replaced. -/
structure ClientOverrides where
  signer : Option SignerHandle := none
  sender : Option Address := none
  appId : Option UInt64 := none
  params : Option NetworkParams := none

inductive OverrideValue
  | signer (handle : SignerHandle)
  | sender (address : Address)
  | appId (app : UInt64)
  | params (network : NetworkParams)

def OverrideValue.kind : OverrideValue → String
  | .signer _ => "a signer"
  | .sender _ => "an address"
  | .appId _ => "an application id"
  | .params _ => "suggested params"

namespace ClientOverrides

def set (o : ClientOverrides) (key : String) (v : OverrideValue) :
    Except Misconfigured ClientOverrides :=
  match key, v with
  | "signer", .signer handle => .ok { o with signer := some handle }
  | "sender", .sender address => .ok { o with sender := some address }
  | "application_id", .appId app => .ok { o with appId := some app }
  | "suggested_params", .params network => .ok { o with params := some network }
  | "signer", v => .error (.overrideKind key "a signer" v.kind)
  | "sender", v => .error (.overrideKind key "an address" v.kind)
  | "application_id", v => .error (.overrideKind key "an application id" v.kind)
  | "suggested_params", v => .error (.overrideKind key "suggested params" v.kind)
  | _, _ => .error (.overrideKey key)

def ofNamed (entries : List (String × OverrideValue)) : Except Misconfigured ClientOverrides :=
  entries.foldlM (fun o e => o.set e.1 e.2) {}

end ClientOverrides

/-- Settings of one call. The arguments are for calls that call no method. -/
structure CallOptions where
  sender : Option Address := none
  signer : Option SignerHandle := none
  params : Option NetworkParams := none
  note : Option Bytes := none
  lease : Option (FixedBytes 32) := none
  rekeyTo : Option Address := none
  args : Option (List Bytes) := none
  accounts : Option (List Address) := none
  apps : Option (List UInt64) := none
  assets : Option (List UInt64) := none
  boxes : Option (List BoxRef) := none
  maxRounds : Option Nat := none

def CallOptions.references (o : CallOptions) : References where
  accounts := o.accounts.getD []
  apps := o.apps.getD []
  assets := o.assets.getD []
  boxes := o.boxes.getD []

namespace Client

/-- The effects of clients. -/
abbrev ClientEffect (σ α : Type) := Effect ClientError (Session σ) α

variable {σ : Type}

/-- A client whose family is new. -/
def new (app : Description) (signer : Option SignerHandle) (sender : Option Address)
    (appId : UInt64) (params : Option NetworkParams) : ClientEffect σ Client := do
  let family := (← get).caches.length
  modify fun s => { s with caches := s.caches ++ [{}] }
  let address := if appId = 0 then none else some (.ofApp appId)
  return { app, family, signer, sender, appId, address, params }

/-- The client with some settings replaced. The address of the application stays. -/
def prepare (c : Client) (o : ClientOverrides) : Client :=
  { c with signer := o.signer.or c.signer, sender := o.sender.or c.sender,
           appId := o.appId.getD c.appId, params := o.params.or c.params }

def signerFor (c : Client) (explicit : Option SignerHandle) : Except ClientError SignerHandle :=
  match explicit.or c.signer with
  | some handle => .ok handle
  | none => .error (.configuration .noSigner)

/-- Without a sender, the signer sends for itself. -/
def senderFor (c : Client) (explicit : Option Address) (signer : Option SignerHandle) :
    Except ClientError Address :=
  match explicit.or c.sender, c.signerFor signer with
  | some sender, _ => .ok sender
  | none, .ok handle => .ok handle.signer.address
  | none, .error _ => .error (.configuration .noSender)

/-- Without parameters, the node is asked. -/
def paramsFor (net : Network σ) (c : Client) (explicit : Option NetworkParams) :
    ClientEffect σ NetworkParams :=
  match explicit.or c.params with
  | some params => return params
  | none => Session.ask net.node.params

def deployedId (c : Client) : Except ClientError UInt64 :=
  if c.appId = 0 then .error (.configuration (.notDeployed c.app.name)) else .ok c.appId

end Client

end AppLedger
