import AppLedger.Transaction.Codec

/-! Groups of transactions, bound together by the hash of their identities. -/

namespace AppLedger.Transaction

open Msgpack

/-- The identity of a transaction that is not in a group yet. -/
def ungroupedId (t : Transaction) : Except TransactionError Digest :=
  if t.header.group.isSome then .error .alreadyGrouped else t.idRaw

/-- The bytes that the identity of a group is the hash of. -/
def groupPreimage (ids : List Digest) : Bytes :=
  Bytes.ofText "TG" ++ canonicalBytes [("txlist", .array (ids.map fun id => .bytes id.bytes))]

def groupId (ts : List Transaction) : Except TransactionError Digest := do
  if ts.isEmpty then throw .emptyGroup
  if maxGroupSize < ts.length then throw .groupTooLarge
  return digest (groupPreimage (← ts.mapM ungroupedId))

def assignGroup (ts : List Transaction) : Except TransactionError (List Transaction) := do
  let group ← groupId ts
  return ts.map (·.withGroup (some group))

end AppLedger.Transaction
