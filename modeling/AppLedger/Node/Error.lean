import AppLedger.Address

/-! Why a node does not give the answer that it is asked for. -/

namespace AppLedger

/-- What is wrong with the body of an answer. -/
inductive BadAnswer
  | json
  | base64
  | genesisHash
  | stateType (type : Nat)
  | address (why : Address.Invalid)
  | noGroups
  deriving DecidableEq

def BadAnswer.message : BadAnswer → String
  | .json => "unexpected JSON"
  | .base64 => "malformed base64"
  | .genesisHash => "Genesis hash is not 32 bytes"
  | .stateType type => s!"Unknown TEAL value type {type}"
  | .address why => why.message
  | .noGroups => "Simulate response has no groups"

/-- What a node does not know. -/
inductive Absent
  | transaction (id : String)
  | application (app : UInt64)
  | optIn (account : Address) (app : UInt64)
  | other (text : String)
  deriving DecidableEq

def Absent.message : Absent → String
  | .transaction id => s!"transaction {id} not found"
  | .application app => s!"application {app.toNat} does not exist"
  | .optIn account app => s!"{account} has not opted in to application {app.toNat}"
  | .other text => text

/-- A rejection gives the reason in the words of the node. -/
inductive NodeError
  | notFound (what : Absent)
  | rejected (reason : String)
  | request (reason : String)
  | decode (why : BadAnswer)
  deriving DecidableEq

def NodeError.message : NodeError → String
  | .notFound what => s!"Not found: {what.message}"
  | .rejected reason => reason
  | .request reason => s!"Request failed: {reason}"
  | .decode why => s!"Failed to decode node response: {why.message}"

end AppLedger
