import AppLedger.Ed25519.Signature
import AppLedger.Transaction.Signed

/-! What signs transactions: a key, keys of a shared account, or a program. A signer for a
transaction of another account notes its own address. -/

namespace AppLedger

/-- A secret key and the account of its public key. -/
structure KeyPair where
  secret : FixedBytes 32
  address : Address
  address_eq : address = ⟨Ed25519.publicKey secret⟩
  deriving DecidableEq

namespace KeyPair

def ofSecret (secret : FixedBytes 32) : KeyPair :=
  ⟨secret, ⟨Ed25519.publicKey secret⟩, rfl⟩

def sign (key : KeyPair) (message : Bytes) : Signature :=
  Ed25519.signWith key.secret key.address.key message

end KeyPair

inductive Signer
  | key (pair : KeyPair)
  | multisig (account : Multisig) (keys : List KeyPair)
  | logicSig (program : LogicSig)
  deriving DecidableEq

inductive SignError
  | index (i : Nat)
  | encoding (why : TransactionError)
  | threshold (account : Address) (needed held : Nat)
  deriving DecidableEq

def SignError.message : SignError → String
  | .index i => s!"Index {i} out of bounds for transactions"
  | .encoding why => why.message
  | .threshold account needed held =>
    s!"Multisig {account} requires {needed} signatures but only {held} keys are held"

namespace Signer

/-- A signer for a shared account. Its keys are those of participants. -/
def ofKeys (version threshold : UInt8) (participants : List Address) (keys : List KeyPair) :
    Except TransactionError Signer := do
  let account ← Multisig.create version threshold participants
  match keys.find? fun key => !participants.contains key.address with
  | some stranger => throw (.stranger stranger.address)
  | none => return .multisig account keys

def address : Signer → Address
  | .key pair => pair.address
  | .multisig account _ => account.address
  | .logicSig program => program.address

/-- Noted where the signer is not the sender. -/
def authFor (signer : Address) (t : Transaction) : Option Address :=
  if t.sender = signer then none else some signer

/-- Every participant whose key is held signs. -/
def signShared (account : Multisig) (keys : List KeyPair) (message : Bytes) : Multisig :=
  { account with
    subsignatures := account.subsignatures.map fun s =>
      match keys.find? (·.address = s.address) with
      | some pair => { s with signature := some (pair.sign message) }
      | none => s }

def sign (signer : Signer) (t : Transaction) : Except SignError SignedTransaction :=
  let authAddress := authFor signer.address t
  match signer with
  | .key pair => do
    let message ← t.encode.mapError .encoding
    return { transaction := t, signature := some (pair.sign message), authAddress }
  | .multisig account keys => do
    let message ← t.encode.mapError .encoding
    let signed := signShared account keys message
    if signed.signatureCount < account.threshold.toNat then
      throw (.threshold account.address account.threshold.toNat signed.signatureCount)
    return { transaction := t, multisig := some signed, authAddress }
  | .logicSig program => .ok { transaction := t, logicSig := some program, authAddress }

def pick (ts : List Transaction) (i : Nat) : Except SignError Transaction :=
  match ts[i]? with
  | some t => .ok t
  | none => .error (.index i)

/-- Signs the transactions at the given places. -/
def signAt (signer : Signer) (ts : List Transaction) (places : List Nat) :
    Except SignError (List SignedTransaction) := do
  let picked ← places.mapM (pick ts)
  picked.mapM signer.sign

end Signer

end AppLedger
