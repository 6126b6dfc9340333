import AppLedger.Address

/-! What can go wrong when a transaction is checked, encoded, decoded or put into a group. -/

namespace AppLedger

/-- A limit of the network that a call exceeds. -/
inductive CallLimit
  | args (count : Nat)
  | argsSize (size : Nat)
  | references (kind : String) (count max : Nat)
  | allReferences (count : Nat)
  | extraPages (pages : Nat)
  | programSize (size budget pages : Nat)
  deriving DecidableEq

def CallLimit.message : CallLimit → String
  | .args count => s!"Application call has {count} arguments, the maximum is 16"
  | .argsSize size => s!"Application call arguments total {size} bytes, the maximum is 2048"
  | .references kind count max =>
    s!"Application call has {count} {kind} references, the maximum is {max}"
  | .allReferences count =>
    s!"Application call has {count} references in total, the maximum is 8"
  | .extraPages pages => s!"Extra program pages {pages} exceeds the maximum of 3"
  | .programSize size budget pages =>
    s!"Programs total {size} bytes, which exceeds {budget} bytes for {pages} extra pages"

/-- Bytes that are not a transaction. -/
inductive Malformed
  | bytes
  | appReference (index : Nat)
  deriving DecidableEq

inductive TransactionError
  | noBytes
  | notMap
  | noTransaction
  | limit (exceeded : CallLimit)
  | feeTooHigh (fee max : Nat)
  | emptyGroup
  | groupTooLarge
  | alreadyGrouped
  | multisigVersion (version : Nat)
  | multisigEmpty
  | multisigThreshold (threshold participants : Nat)
  | stranger (key : Address)
  | address (why : Address.Invalid)
  | boxApp (app : UInt64)
  | malformed (why : Malformed)
  deriving DecidableEq

def unknownBoxText (app : UInt64) : String :=
  s!"Box reference with app id {app.toNat} not found in app references"

def TransactionError.message : TransactionError → String
  | .noBytes => "Attempted to decode 0 bytes"
  | .notMap => "Expected signed transaction to be a map"
  | .noTransaction => "Signed transaction is missing the txn field"
  | .limit exceeded => exceeded.message
  | .feeTooHigh fee max => s!"Transaction fee {fee} µALGO is greater than max fee {max} µALGO"
  | .emptyGroup => "Transaction group size cannot be 0"
  | .groupTooLarge => "Transaction group size exceeds the max limit of 16"
  | .alreadyGrouped => "Transactions must not already be grouped"
  | .multisigVersion version => s!"Unsupported multisig version {version}"
  | .multisigEmpty => "Multisig account requires at least one participant"
  | .multisigThreshold threshold participants =>
    s!"Multisig threshold {threshold} must be between 1 and the participant count {participants}"
  | .stranger key => s!"{key} is not a participant of the multisig account"
  | .address why => why.message
  | .boxApp app => s!"Error ocurred during encoding: {unknownBoxText app}"
  | .malformed (.appReference index) =>
    s!"Error ocurred during decoding: Cannot find app reference index {index}"
  | .malformed .bytes => "Error ocurred during decoding"

end AppLedger
