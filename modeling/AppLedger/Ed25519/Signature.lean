import AppLedger.Ed25519.Curve
import AppLedger.FixedBytes
import AppLedger.Hash.Sha512

/-! Ed25519 signatures. -/

namespace AppLedger.Ed25519

/-- The number modulo the order of the group. -/
def hashScalar (b : Bytes) : Nat :=
  littleEndian (Hash.sha512 b) % groupOrder

/-- The scalar of a secret key: a multiple of eight with its highest bit at a fixed place. -/
def secretScalar (secret : FixedBytes 32) : Nat :=
  let n := littleEndian ((Hash.sha512 secret.bytes).take 32)
  ((1 <<< 254) + n % (1 <<< 254) / 8 * 8) % groupOrder

theorem length_littleEndianBytes (width n : Nat) :
    (littleEndianBytes width n).length = width := by
  simp [littleEndianBytes]

theorem length_compress (p : Point) : p.compress.length = 32 :=
  length_littleEndianBytes _ _

def publicKey (secret : FixedBytes 32) : FixedBytes 32 :=
  ⟨(Point.mul (secretScalar secret) Point.base).compress, length_compress _⟩

/-- The signature, by a secret key whose public key is known. -/
def signWith (secret pub : FixedBytes 32) (message : Bytes) : FixedBytes 64 :=
  let nonce := hashScalar ((Hash.sha512 secret.bytes).drop 32 ++ message)
  let point := (Point.mul nonce Point.base).compress
  let challenge := hashScalar (point ++ pub.bytes ++ message)
  let answer := (nonce + challenge * secretScalar secret) % groupOrder
  ⟨point ++ littleEndianBytes 32 answer, by simp [point, length_compress, length_littleEndianBytes]⟩

def sign (secret : FixedBytes 32) (message : Bytes) : FixedBytes 64 :=
  signWith secret (publicKey secret) message

/-- A key whose bytes are not a point of the curve is refused. -/
inductive VerifyError
  | key
  | signature
  deriving DecidableEq

def VerifyError.message : VerifyError → String
  | .key => "signature error: Cannot decompress Edwards point"
  | .signature => "signature error: Verification equation was not satisfied"

/-- The number of the signature must be below the order of the group, and the equation is checked
without clearing the cofactor. -/
def verify (pub : FixedBytes 32) (message : Bytes) (signature : FixedBytes 64) :
    Except VerifyError Unit :=
  match Point.decompress? pub.bytes with
  | none => .error .key
  | some key =>
    let point := signature.bytes.take 32
    let answer := littleEndian (signature.bytes.drop 32)
    let challenge := hashScalar (point ++ pub.bytes ++ message)
    let expected := (Point.mul answer Point.base).add (Point.mul challenge key.neg)
    if answer < groupOrder ∧ expected.compress = point then .ok () else .error .signature

end AppLedger.Ed25519
