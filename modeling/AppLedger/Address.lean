import AppLedger.FixedBytes
import AppLedger.Hash.Sha512
import AppLedger.Text.Base32

/-! Addresses of accounts: 32 bytes, which are a public key or a hash, written in base32 with a
checksum. -/

namespace AppLedger

/-- A hash of 32 bytes. -/
abbrev Digest := FixedBytes 32

def digest (b : Bytes) : Digest :=
  ⟨Hash.sha512_256 b, Hash.length_sha512_256 b⟩

structure Address where
  key : FixedBytes 32
  deriving DecidableEq, Inhabited

namespace Address

inductive Invalid
  | length (size : Nat)
  | encoding (text : String)
  | checksum (text : String)
  deriving DecidableEq

def Invalid.message : Invalid → String
  | .length size => s!"Address must be exactly 58 characters, got {size}"
  | .encoding text => s!"Invalid base32 encoding for address {text}"
  | .checksum text => s!"Checksum is invalid for address {text}"

def zero : Address := ⟨FixedBytes.zero⟩

def isZero (a : Address) : Bool :=
  a.key.isZero

theorem isZero_iff (a : Address) : a.isZero = true ↔ a = zero := by
  obtain ⟨key⟩ := a
  rw [isZero, FixedBytes.isZero_iff, zero, mk.injEq]

def checksum (a : Address) : Bytes :=
  (digest a.key.bytes).bytes.drop 28

def text (a : Address) : String :=
  Text.Base32.encode (a.key.bytes ++ a.checksum)

instance : ToString Address := ⟨text⟩

/-- The key and the checksum of a text of 58 characters. -/
def ofText (s : String) : Except Invalid Address :=
  if s.utf8ByteSize ≠ 58 then .error (.length s.utf8ByteSize)
  else
    match Text.Base32.decode? s with
    | none => .error (.encoding s)
    | some b =>
      match FixedBytes.ofBytes? (b.take 32) with
      | none => .error (.encoding s)
      | some key =>
        let a : Address := ⟨key⟩
        if a.checksum = b.drop 32 then .ok a else .error (.checksum s)

/-- The account of an application, which is known before the application exists. -/
def ofApp (app : UInt64) : Address :=
  ⟨digest (Bytes.ofText "appID" ++ Bytes.ofNat 8 app.toNat)⟩

end Address

end AppLedger
