import AppLedger.Signer

/-! Transactions on their way into a group, with the signers that are to sign them. -/

namespace AppLedger

/-- A signer in use. Handles of one number are one signer. -/
structure SignerHandle where
  number : Nat
  signer : Signer
  deriving DecidableEq

structure Member where
  transaction : Transaction
  signer : SignerHandle
  deriving DecidableEq

end AppLedger
