import AppLedger.Text.Base64

/-! Signed numbers in a run of base64 digits. A digit holds five bits, the lowest digits come
first, and the sixth bit says that the number goes on. The lowest bit of a number is its sign. -/

namespace AppLedger.Text.Vlq

inductive Invalid
  | digit
  | overflow
  | unfinished
  deriving DecidableEq

/-- The number whose bits, the sign among them, are those of `n`. -/
def signed (n : Nat) : Int :=
  if n % 2 = 1 then -(n / 2 : Nat) else (n / 2 : Nat)

def unsigned (i : Int) : Nat :=
  if i < 0 then i.natAbs * 2 + 1 else i.natAbs * 2

/-- A number starts no digit beyond this many bits. -/
def maxShift : Nat := 55

/-- Reads on after `value`, the lowest `shift` bits of a number that is not complete. -/
def decodeFrom (value shift : Nat) : List Char → Except Invalid (List Int)
  | [] => if shift = 0 then .ok [] else .error .unfinished
  | c :: rest =>
    match Base64.value? c with
    | none => .error .digit
    | some d =>
      if maxShift < shift then .error .overflow
      else
        let value := value + (d % 32) <<< shift
        if 32 ≤ d then decodeFrom value (shift + 5) rest
        else (decodeFrom 0 0 rest).map (signed value :: ·)

def decode (s : List Char) : Except Invalid (List Int) :=
  decodeFrom 0 0 s

def encodeNat (n : Nat) : List Char :=
  if n < 32 then [Base64.digit n] else Base64.digit (32 + n % 32) :: encodeNat (n / 32)

def encode (numbers : List Int) : List Char :=
  numbers.flatMap fun i => encodeNat (unsigned i)

end AppLedger.Text.Vlq
