import AppLedger.Multisig

/-! Signatures by a program: the program with its arguments, and a signature of the account that
lends it its authority, if there is one. -/

namespace AppLedger

structure LogicSig where
  logic : Bytes
  args : Option (List Bytes) := none
  signature : Option Signature := none
  multisig : Option Multisig := none
  deriving DecidableEq

namespace LogicSig

/-- The bytes that the address is the hash of, and that a lending account signs. -/
def preimage (l : LogicSig) : Bytes :=
  Bytes.ofText "Program" ++ l.logic

def address (l : LogicSig) : Address :=
  ⟨digest l.preimage⟩

def isDelegated (l : LogicSig) : Bool :=
  l.signature.isSome || l.multisig.isSome

end LogicSig

end AppLedger
