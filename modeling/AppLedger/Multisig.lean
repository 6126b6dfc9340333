import AppLedger.Transaction.Error

/-! Accounts that several keys share, with the signatures collected so far. -/

namespace AppLedger

/-- A signature of 64 bytes. -/
abbrev Signature := FixedBytes 64

structure Subsignature where
  address : Address
  signature : Option Signature := none
  deriving DecidableEq

structure Multisig where
  version : UInt8
  threshold : UInt8
  subsignatures : List Subsignature
  deriving DecidableEq

namespace Multisig

def create (version threshold : UInt8) (participants : List Address) :
    Except TransactionError Multisig :=
  if version ≠ 1 then .error (.multisigVersion version.toNat)
  else if participants.isEmpty then .error .multisigEmpty
  else if threshold = 0 ∨ participants.length < threshold.toNat then
    .error (.multisigThreshold threshold.toNat participants.length)
  else .ok ⟨version, threshold, participants.map fun address => { address }⟩

def participants (m : Multisig) : List Address :=
  m.subsignatures.map (·.address)

/-- The bytes that the address is the hash of. -/
def preimage (m : Multisig) : Bytes :=
  Bytes.ofText "MultisigAddr" ++ m.version :: m.threshold ::
    m.participants.flatMap fun a => a.key.bytes

def address (m : Multisig) : Address :=
  ⟨digest m.preimage⟩

def signatureCount (m : Multisig) : Nat :=
  m.subsignatures.countP (·.signature.isSome)

end Multisig

end AppLedger
