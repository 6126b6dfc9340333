/-! Finite doubles. Their magnitudes are counted in units of the least one, 2^-1074, so that each
is a whole number of units with at most 53 bits that matter. -/

namespace AppLedger.Json

structure Double where
  negative : Bool
  units : Nat

namespace Double

/-- The binary place of the number one. -/
def one : Nat := 1 <<< 1074

/-- The nearest whole number to a quotient, of two the even one. -/
def roundedQuotient (num den : Nat) : Nat :=
  let quotient := num / den
  let rest := num % den
  if 2 * rest < den ∨ 2 * rest = den ∧ quotient % 2 = 0 then quotient else quotient + 1

/-- The nearest number to a quotient among those with at most 53 bits that matter. -/
def nearest (num den : Nat) : Nat :=
  let excess := (num / den).log2 + 1 - 53
  roundedQuotient num (den <<< excess) <<< excess

def ofNat (n : Nat) : Nat :=
  nearest (n * one) 1

def mul (x y : Nat) : Nat :=
  nearest (x * y) one

def div (x y : Nat) : Nat :=
  nearest (x * one) y

def powerOfTen (k : Nat) : Nat :=
  ofNat (Nat.pow 10 k)

/-- Absent when it is infinite. -/
def finite? (x : Nat) : Option Nat :=
  if x < one <<< 1024 then some x else none

/-- A significand of 64 bits times a power of ten. Each of the two is rounded, and what they make
is rounded again. Powers below the least are reached by dividing in steps. -/
def ofDecimal? (significand : Nat) (exponent : Int) : Option Nat :=
  let x := ofNat significand
  let places := exponent.natAbs
  if significand = 0 then some 0
  else if 0 ≤ exponent then
    if places ≤ 308 then finite? (mul x (powerOfTen places)) else none
  else if places ≤ 308 then some (div x (powerOfTen places))
  else if places ≤ 616 then some (div (div x (powerOfTen 308)) (powerOfTen (places - 308)))
  else some 0

theorem roundedQuotient_one (n : Nat) : roundedQuotient n 1 = n := by
  simp [roundedQuotient, Nat.mod_one]

/-- A number with few enough bits is itself. -/
theorem nearest_one {n : Nat} (h : n < 1 <<< 53) : nearest n 1 = n := by
  have hlog : n.log2 < 53 := by
    rcases Nat.eq_zero_or_pos n with rfl | hn
    · simp
    · rwa [Nat.log2_lt (by omega), ← Nat.one_shiftLeft]
  have hexcess : n.log2 + 1 - 53 = 0 := by omega
  simp [nearest, hexcess, roundedQuotient_one]

end Double

end AppLedger.Json
