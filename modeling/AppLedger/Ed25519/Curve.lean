import AppLedger.Bytes

/-! The twisted Edwards curve of Ed25519, with points in extended coordinates over the integers
modulo 2^255 - 19. -/

namespace AppLedger.Ed25519

/-- The size of the field. -/
def fieldPrime : Nat := (1 <<< 255) - 19

/-- The order of the base point. -/
def groupOrder : Nat := (1 <<< 252) + 27742317777372353535851937790883648493

namespace Residue

def add (x y : Nat) : Nat := (x + y) % fieldPrime

def sub (x y : Nat) : Nat := (x + (fieldPrime - y % fieldPrime)) % fieldPrime

def mul (x y : Nat) : Nat := x * y % fieldPrime

/-- The power with an exponent of at most `bits` bits. -/
def pow (x : Nat) : (bits exponent : Nat) → Nat
  | 0, _ => 1
  | bits + 1, e =>
    let half := pow x bits (e / 2)
    let square := mul half half
    if e % 2 = 1 then mul square x else square

def inv (x : Nat) : Nat := pow x 255 (fieldPrime - 2)

end Residue

open Residue

/-- The constant d of the curve equation -x² + y² = 1 + d x² y². -/
def curveD : Nat :=
  37095705934669439343138083508754565189542113879843219016388785533085940283555

/-- A square root of -1. -/
def rootOfMinusOne : Nat :=
  19681161376707505956807079304988542015446066515923890162744021073123829784752

/-- The point (x / z, y / z), with t = x y / z. -/
structure Point where
  x : Nat
  y : Nat
  z : Nat
  t : Nat

namespace Point

def neutral : Point := ⟨0, 1, 1, 0⟩

def ofAffine (x y : Nat) : Point := ⟨x, y, 1, mul x y⟩

def base : Point :=
  ofAffine 15112221349535400772501151409588531511454012693041857206046113283949847762202
    46316835694926478169428394003475163141307993866256225615783033603165251855960

def add (p q : Point) : Point :=
  let a := mul (sub p.y p.x) (sub q.y q.x)
  let b := mul (Residue.add p.y p.x) (Residue.add q.y q.x)
  let c := mul (mul p.t (2 * curveD)) q.t
  let d := mul (2 * p.z) q.z
  let e := sub b a
  let f := sub d c
  let g := Residue.add d c
  let h := Residue.add b a
  ⟨mul e f, mul g h, mul f g, mul e h⟩

def double (p : Point) : Point :=
  let a := mul p.x p.x
  let b := mul p.y p.y
  let c := mul 2 (mul p.z p.z)
  let h := Residue.add a b
  let s := Residue.add p.x p.y
  let e := sub h (mul s s)
  let g := sub a b
  let f := Residue.add c g
  ⟨mul e f, mul g h, mul f g, mul e h⟩

def neg (p : Point) : Point :=
  ⟨sub 0 p.x, p.y, p.z, sub 0 p.t⟩

/-- The multiple by a number of at most `bits` bits. -/
def multiple (p : Point) : (bits n : Nat) → Point
  | 0, _ => neutral
  | bits + 1, n =>
    let twice := double (multiple p bits (n / 2))
    if n % 2 = 1 then add twice p else twice

def mul (n : Nat) (p : Point) : Point :=
  multiple p 256 n

end Point

/-- The number of a byte string with the least significant byte first. -/
def littleEndian (b : Bytes) : Nat :=
  Bytes.toNat b.reverse

def littleEndianBytes (width n : Nat) : Bytes :=
  (Bytes.ofNat width n).reverse

namespace Point

/-- The coordinate y, with the lowest bit of x as the highest bit. -/
def compress (p : Point) : Bytes :=
  let zInv := inv p.z
  let x := Residue.mul p.x zInv
  let y := Residue.mul p.y zInv
  littleEndianBytes 32 (y + (x % 2) <<< 255)

/-- A square root of u / v. -/
def sqrtRatio? (u v : Nat) : Option Nat :=
  let v3 := Residue.mul (Residue.mul v v) v
  let v7 := Residue.mul (Residue.mul v3 v3) v
  let r := Residue.mul (Residue.mul u v3) (pow (Residue.mul u v7) 252 ((fieldPrime - 5) / 8))
  let check := Residue.mul v (Residue.mul r r)
  if check = u then some r
  else if check = sub 0 u then some (Residue.mul r rootOfMinusOne)
  else none

/-- A coordinate y that is not below the prime of the field is reduced. -/
def decompress? (b : Bytes) : Option Point := do
  let n := littleEndian b
  let y := n % (1 <<< 255) % fieldPrime
  let y2 := Residue.mul y y
  let root ← sqrtRatio? (sub y2 1) (Residue.add (Residue.mul curveD y2) 1)
  let even := if root % 2 = 1 then sub 0 root else root
  return ofAffine (if n >>> 255 = 1 then sub 0 even else even) y

end Point

end AppLedger.Ed25519
