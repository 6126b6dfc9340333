import AppLedger.Transaction.Limits
import AppLedger.Transaction.Wire

/-! The canonical bytes of a transaction, its identity, its size and its fee. -/

namespace AppLedger

open Msgpack

/-- The shortest encoding of a map with its keys in order, at every depth. -/
def canonicalBytes (fields : WireFields) : Bytes :=
  (Value.ofFields fields).sorted.encode

namespace Transaction

/-- What the signed bytes of a transaction start with. -/
def tag : Bytes := Bytes.ofText "TX"

def encodeRaw (t : Transaction) : Except TransactionError Bytes :=
  t.wire.map canonicalBytes

/-- The bytes that are hashed and signed. -/
def encode (t : Transaction) : Except TransactionError Bytes :=
  t.encodeRaw.map (tag ++ ·)

/-- The tag in front may be missing. -/
def decode (b : Bytes) : Except TransactionError Transaction :=
  if b.isEmpty then .error .noBytes
  else
    let body := if tag.isPrefixOf b then b.drop tag.length else b
    match Msgpack.decode? body with
    | some v => ofWire v
    | none => .error (.malformed .bytes)

def idRaw (t : Transaction) : Except TransactionError Digest :=
  t.encode.map digest

/-- The text of an identity. -/
def idText (d : Digest) : String :=
  Text.Base32.encode d.bytes

def id (t : Transaction) : Except TransactionError String :=
  t.idRaw.map idText

/-- What a plain signature adds to the bytes of a transaction. -/
def signatureSize : Nat := 75

/-- The size of the transaction with a plain signature. -/
def estimateSize (t : Transaction) : Except TransactionError Nat :=
  t.encodeRaw.map (·.length + signatureSize)

end Transaction

/-- How to find a fee: a price for each byte of the transaction, at least `minFee`, with `extraFee`
on top, and no more than `maxFee`. -/
structure FeeParams where
  feePerByte : UInt64 := 0
  minFee : UInt64 := 0
  extraFee : Option UInt64 := none
  maxFee : Option UInt64 := none

namespace Transaction

/-- The size is not asked for when it costs nothing. -/
def fee (t : Transaction) (params : FeeParams) : Except TransactionError Nat := do
  let bySize ←
    if params.feePerByte = 0 then .ok 0 else t.estimateSize.map (params.feePerByte.toNat * ·)
  return max bySize params.minFee.toNat + (params.extraFee.getD 0).toNat

def assignFee (t : Transaction) (params : FeeParams) : Except TransactionError Transaction := do
  let fee ← t.fee params
  match params.maxFee with
  | some max =>
    if max.toNat < fee then throw (.feeTooHigh fee max.toNat)
    return t.withFee (UInt64.ofNat fee)
  | none => return t.withFee (UInt64.ofNat fee)

end Transaction

end AppLedger
