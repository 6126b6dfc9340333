import AppLedger.Bytes

/-! Base32 text with upper-case letters and no padding. Reading ignores the bits
of the last digit that do not fill a byte. -/

namespace AppLedger.Text.Base32

def digit (n : Nat) : Char :=
  if n < 26 then Char.ofNat (65 + n) else Char.ofNat (24 + n)

def value? (c : Char) : Option Nat :=
  if 'A' ≤ c ∧ c ≤ 'Z' then some (c.toNat - 65)
  else if '2' ≤ c ∧ c ≤ '7' then some (c.toNat - 24)
  else none

/-- Writes the bytes after `held`, a number of `bits` bits (fewer than five)
that are still to be written. -/
def encodeFrom (held bits : Nat) : Bytes → List Char
  | [] => if bits = 0 then [] else [digit (held <<< (5 - bits))]
  | byte :: rest =>
    let held := held * 256 + byte.toNat
    let bits := bits + 8
    if bits < 10 then
      digit (held >>> (bits - 5)) :: encodeFrom (held % (1 <<< (bits - 5))) (bits - 5) rest
    else
      digit (held >>> (bits - 5)) :: digit ((held >>> (bits - 10)) % 32) ::
        encodeFrom (held % (1 <<< (bits - 10))) (bits - 10) rest

def encode (b : Bytes) : String :=
  String.ofList (encodeFrom 0 0 b)

/-- Reads the digits after `held`, a number of `bits` bits (fewer than eight)
that do not fill a byte yet. -/
def decodeFrom (held bits : Nat) : List Char → Option Bytes
  | [] => some []
  | c :: rest => do
    let value ← value? c
    let held := held * 32 + value
    let bits := bits + 5
    if bits < 8 then decodeFrom held bits rest
    else
      let rest ← decodeFrom (held % (1 <<< (bits - 8))) (bits - 8) rest
      return UInt8.ofNat (held >>> (bits - 8)) :: rest

def decode? (s : String) : Option Bytes :=
  decodeFrom 0 0 s.toList

end AppLedger.Text.Base32
