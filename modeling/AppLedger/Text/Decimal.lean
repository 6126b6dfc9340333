/-! Numbers written with the ten ASCII digits. -/

namespace AppLedger.Text.Decimal

def chars (n : Nat) : List Char :=
  Nat.toDigits 10 n

/-- The number that a run of digits stands for, after `n`. -/
def valueFrom (n : Nat) (s : List Char) : Nat :=
  s.foldl (fun n c => n * 10 + (c.toNat - 48)) n

/-- Leading zeros are allowed, an empty text is not. -/
def read? (s : List Char) : Option Nat :=
  if s ≠ [] ∧ s.all Char.isDigit then some (valueFrom 0 s) else none

/-- Absent also when the number is not below `bound`. -/
def readBelow? (bound : Nat) (s : List Char) : Option Nat :=
  (read? s).filter (· < bound)

end AppLedger.Text.Decimal
