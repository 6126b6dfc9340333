import AppLedger.LogicSig
import AppLedger.Transaction.Codec

/-! Transactions with what authorizes them, and the form in which they travel. -/

namespace AppLedger

open Msgpack Wire

/-- What authorizes a transaction. The address is that of the authorizing account, where it is not
the sender. -/
structure Authorization where
  signature : Option Signature := none
  multisig : Option Multisig := none
  logicSig : Option LogicSig := none
  authAddress : Option Address := none
  deriving DecidableEq

structure SignedTransaction extends Authorization where
  transaction : Transaction
  deriving DecidableEq

namespace Multisig

def subsignatureWire (s : Subsignature) : Value :=
  .ofFields (("pk", .bytes s.address.key.bytes) ::
    optional (fun signature => [("s", .bytes signature.bytes)]) s.signature)

def wire (m : Multisig) : Value :=
  .ofFields [("v", .ofNat m.version.toNat), ("thr", .ofNat m.threshold.toNat),
    ("subsig", .array (m.subsignatures.map subsignatureWire))]

def subsignatureOfWire? (v : Value) : Option Subsignature := do
  match ← v.fields? .all ["pk", "s"] with
  | [some pk, s] =>
    let address ← addressOfWire? pk
    let signature ← Value.optional? (Value.fixedBytes? 64) s
    return { address, signature }
  | _ => none

def ofWire? (v : Value) : Option Multisig := do
  match ← v.fields? .all ["v", "thr", "subsig"] with
  | [some version, some threshold, some subsignatures] =>
    return { version := ← version.uint8?, threshold := ← threshold.uint8?,
             subsignatures := ← subsignatures.listOrBytes? subsignatureOfWire? }
  | _ => none

end Multisig

namespace LogicSig

def wire (l : LogicSig) : Value :=
  .ofFields (("l", .bytes l.logic) :: (optional (Wire.list "arg" .bytes) l.args ++
    optional (fun signature => [("sig", .bytes signature.bytes)]) l.signature ++
    optional (fun multisig => [("msig", multisig.wire)]) l.multisig))

def ofWire? (v : Value) : Option LogicSig := do
  match ← v.fields? .all ["l", "arg", "sig", "msig"] with
  | [some logic, args, signature, multisig] =>
    return { logic := ← logic.bytes?,
             args := ← Value.optional? (Value.listOrBytes? Value.bytes?) args,
             signature := ← Value.optional? (Value.fixedBytes? 64) signature,
             multisig := ← Value.optional? Multisig.ofWire? multisig }
  | _ => none

end LogicSig

namespace Authorization

def ofWire? (v : Value) : Option Authorization := do
  match ← v.fields? .all ["sig", "msig", "lsig", "sgnr"] with
  | [signature, multisig, logicSig, authAddress] =>
    return { signature := ← Value.optional? (Value.fixedBytes? 64) signature,
             multisig := ← Value.optional? Multisig.ofWire? multisig,
             logicSig := ← Value.optional? LogicSig.ofWire? logicSig,
             authAddress := ← Value.optional? addressOfWire? authAddress }
  | _ => none

end Authorization

namespace SignedTransaction

/-- The account whose authority the transaction claims. -/
def authorizer (s : SignedTransaction) : Address :=
  s.authAddress.getD s.transaction.sender

def wire (s : SignedTransaction) : Except TransactionError WireFields := do
  let fields ← s.transaction.wire
  return ("txn", .ofFields fields) ::
    (optional (fun signature => [("sig", .bytes signature.bytes)]) s.signature ++
      optional (fun multisig => [("msig", multisig.wire)]) s.multisig ++
      optional (fun logicSig => [("lsig", logicSig.wire)]) s.logicSig ++
      optional (address "sgnr") s.authAddress)

def encode (s : SignedTransaction) : Except TransactionError Bytes :=
  s.wire.map canonicalBytes

/-- The first entry with the given text as its key. -/
def entry? (key : String) (entries : List (Value × Value)) : Option Value :=
  (entries.find? fun (k, _) => match k with
    | .text s => s = key
    | _ => false).map Prod.snd

/-- The transaction inside is encoded again and read by itself, but what is around it is read
first. -/
def decode (b : Bytes) : Except TransactionError SignedTransaction := do
  match Msgpack.decode? b with
  | none => throw (.malformed .bytes)
  | some (.map entries) =>
    match entry? "txn" entries with
    | none => throw .noTransaction
    | some inner =>
      match Authorization.ofWire? (.map entries) with
      | none => throw (.malformed .bytes)
      | some authorization =>
        return { authorization with transaction := ← Transaction.decode inner.encode }
  | some _ => throw .notMap

def id (s : SignedTransaction) : Except TransactionError String :=
  s.transaction.id

def estimateSize (s : SignedTransaction) : Except TransactionError Nat :=
  s.encode.map List.length

end SignedTransaction

end AppLedger
