/-! Byte strings: the bytes of a text, hexadecimal digits, and numbers written
with the most significant byte first. -/

namespace AppLedger

abbrev Bytes := List UInt8

namespace Bytes

def ofText (s : String) : Bytes :=
  s.toByteArray.data.toList

/-- Absent when the bytes are not well-formed UTF-8. -/
def toText? (b : Bytes) : Option String :=
  String.fromUTF8? ⟨b.toArray⟩

/-- The low `width` bytes of a number, the most significant first. -/
def ofNat : (width n : Nat) → Bytes
  | 0, _ => []
  | width + 1, n => ofNat width (n / 256) ++ [UInt8.ofNat n]

def toNat (b : Bytes) : Nat :=
  b.foldl (fun n byte => n * 256 + byte.toNat) 0

def isZero (b : Bytes) : Bool :=
  b.all (· == 0)

@[simp] theorem length_ofNat (width n : Nat) : (ofNat width n).length = width := by
  induction width generalizing n with
  | zero => rfl
  | succ width ih => simp [ofNat, ih]

theorem toNat_append_singleton (b : Bytes) (byte : UInt8) :
    toNat (b ++ [byte]) = toNat b * 256 + byte.toNat := by
  simp [toNat]

theorem toNat_ofNat {width n : Nat} (h : n < 1 <<< (8 * width)) : toNat (ofNat width n) = n := by
  induction width generalizing n with
  | zero => simp at h; simp [ofNat, toNat, h]
  | succ width ih =>
    rw [Nat.mul_succ, Nat.shiftLeft_add] at h
    have hn : n / 256 < 1 <<< (8 * width) :=
      Nat.div_lt_of_lt_mul (by simp [Nat.shiftLeft_eq] at h ⊢; omega)
    rw [ofNat, toNat_append_singleton, ih hn]
    simp only [UInt8.toNat_ofNat']
    omega

def hexDigit (n : Nat) : Char :=
  if n < 10 then Char.ofNat (48 + n) else Char.ofNat (87 + n)

/-- Two lower-case digits for each byte. -/
def toHex (b : Bytes) : String :=
  String.ofList (b.flatMap fun byte => [hexDigit (byte.toNat / 16), hexDigit (byte.toNat % 16)])

def hexValue? (c : Char) : Option Nat :=
  if '0' ≤ c ∧ c ≤ '9' then some (c.toNat - 48)
  else if 'a' ≤ c ∧ c ≤ 'f' then some (c.toNat - 87)
  else if 'A' ≤ c ∧ c ≤ 'F' then some (c.toNat - 55)
  else none

def ofHexChars? : List Char → Option Bytes
  | [] => some []
  | [_] => none
  | hi :: lo :: rest => do
    let hi ← hexValue? hi
    let lo ← hexValue? lo
    let rest ← ofHexChars? rest
    return UInt8.ofNat (hi * 16 + lo) :: rest

def ofHex? (s : String) : Option Bytes :=
  ofHexChars? s.toList

end Bytes

end AppLedger
