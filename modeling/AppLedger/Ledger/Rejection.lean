import AppLedger.Ed25519.Signature
import AppLedger.Transaction.Basic
import AppLedger.Transaction.Error

/-! Why a ledger refuses a transaction or a group. -/

namespace AppLedger

/-- Why nobody has agreed to a transaction who may. -/
inductive Unauthorized
  | authorizer (expected actual : Address)
  | encoding (why : TransactionError)
  | unsigned
  | manySignatures
  | badKey
  | badSignature
  | otherMultisig
  | threshold (valid needed : Nat)
  | delegated
  | otherProgram
  deriving DecidableEq

def Unauthorized.message : Unauthorized → String
  | .authorizer expected actual =>
    s!"should have been authorized by {expected} but was actually authorized by {actual}"
  | .encoding why => why.message
  | .unsigned => "transaction is not signed"
  | .manySignatures => "transaction carries more than one kind of signature"
  | .badKey => Ed25519.VerifyError.key.message
  | .badSignature => "signature validation failed"
  | .otherMultisig => "multisig account does not match the authorizer"
  | .threshold valid needed => s!"multisig has {valid} signatures, the threshold is {needed}"
  | .delegated => "delegated logic signatures are not supported"
  | .otherProgram => "logic signature program does not match the authorizer"

/-- Why a call of an application has no effect. -/
inductive CallFailure
  | createPrograms
  | createStage (onComplete : OnComplete)
  | noIds
  | noApp (app : UInt64)
  | notOptedIn (account : Address) (app : UInt64)
  | optedIn (account : Address) (app : UInt64)
  | updatePrograms
  | program (message : String) (app : UInt64) (pc : Nat)
  | tooManyUints (scope : String) (count max : Nat)
  | tooManyBytes (scope : String) (count max : Nat)
  | noLocalState (account : Address) (app : UInt64)
  deriving DecidableEq

def CallFailure.message : CallFailure → String
  | .createPrograms => "application create requires both programs"
  | .createStage onComplete => s!"cannot create an application with {onComplete}"
  | .noIds => "no application ids are left"
  | .noApp app => s!"application {app.toNat} does not exist"
  | .notOptedIn account app => s!"{account} is not opted in to app {app.toNat}"
  | .optedIn account app => s!"{account} has already opted in to app {app.toNat}"
  | .updatePrograms => "application update requires both programs"
  | .program message app pc =>
    s!"logic eval error: {message}. Details: app={app.toNat}, pc={pc}"
  | .tooManyUints scope count max =>
    s!"logic eval error: store integer count {count} exceeds {scope} schema integer count {max}"
  | .tooManyBytes scope count max =>
    s!"logic eval error: store bytes count {count} exceeds {scope} schema bytes count {max}"
  | .noLocalState account app =>
    s!"logic eval error: {account} is not opted in to app {app.toNat}"

inductive MemberRejection
  | replayed
  | dead (round first last : Nat)
  | genesisHash
  | genesisId
  | unauthorized (why : Unauthorized)
  | call (why : CallFailure)
  deriving DecidableEq

def MemberRejection.message : MemberRejection → String
  | .replayed => "transaction already in ledger"
  | .dead round first last => s!"txn dead: round {round} outside of {first}--{last}"
  | .genesisHash => "genesis hash mismatch"
  | .genesisId => "genesis id mismatch"
  | .unauthorized why => why.message
  | .call why => why.message

inductive GroupRejection
  | empty
  | tooLarge (size : Nat)
  | incomplete
  | transaction (why : TransactionError)
  | lowFee (paid required : Nat)
  | member (id : String) (why : MemberRejection)
  deriving DecidableEq

def GroupRejection.message : GroupRejection → String
  | .empty => "empty transaction group"
  | .tooLarge size => s!"group size {size} exceeds maximum 16"
  | .incomplete => "transactionGroup: incomplete group"
  | .transaction why => why.message
  | .lowFee paid required =>
    s!"txgroup had {paid} in fees, which is less than the minimum {required}"
  | .member id why => s!"transaction {id}: {why.message}"

end AppLedger
