import AppLedger.Ledger.State
import AppLedger.Transaction.Signed

/-! Whether a transaction carries the agreement of the account that signs for its sender. -/

namespace AppLedger

def verifySignature (signer : Address) (message : Bytes) (signature : Signature) :
    Except Unauthorized Unit :=
  match Ed25519.verify signer.key message signature with
  | .ok () => .ok ()
  | .error .key => .error .badKey
  | .error .signature => .error .badSignature

namespace Multisig

/-- Every signature is to be valid. Yields how many there are. -/
def verifyEach (message : Bytes) : List Subsignature → Except Unauthorized Nat
  | [] => .ok 0
  | s :: rest =>
    match s.signature with
    | some signature => do
      verifySignature s.address message signature
      let valid ← verifyEach message rest
      return valid + 1
    | none => verifyEach message rest

def verify (m : Multisig) (authorizer : Address) (message : Bytes) : Except Unauthorized Unit := do
  if m.address ≠ authorizer then throw .otherMultisig
  let valid ← verifyEach message m.subsignatures
  if valid < m.threshold.toNat then throw (.threshold valid m.threshold.toNat)

end Multisig

/-- A program signs for its own account only. -/
def LogicSig.verify (l : LogicSig) (authorizer : Address) : Except Unauthorized Unit :=
  if l.isDelegated then .error .delegated
  else if l.address ≠ authorizer then .error .otherProgram
  else .ok ()

namespace SignedTransaction

def isUnsigned (s : SignedTransaction) : Bool :=
  s.signature.isNone && s.multisig.isNone && s.logicSig.isNone

/-- Whether the transaction is signed in one way, by the given account. -/
def verifySignatures (s : SignedTransaction) (authorizer : Address) : Except Unauthorized Unit := do
  let message ← s.transaction.encode.mapError .encoding
  match s.signature, s.multisig, s.logicSig with
  | some signature, none, none => verifySignature authorizer message signature
  | none, some multisig, none => multisig.verify authorizer message
  | none, none, some logicSig => logicSig.verify authorizer
  | none, none, none => throw .unsigned
  | _, _, _ => throw .manySignatures

/-- `expected` is the account that signs for the sender. -/
def verify (s : SignedTransaction) (expected : Address) : Except Unauthorized Unit :=
  if s.authorizer ≠ expected then .error (.authorizer expected s.authorizer)
  else s.verifySignatures s.authorizer

end SignedTransaction

end AppLedger
