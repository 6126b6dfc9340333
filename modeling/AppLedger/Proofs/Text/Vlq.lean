import AppLedger.Text.Vlq
import Mathlib.Algebra.GroupWithZero.Nat

/-! Numbers are read back from their base64 digits, as long as the digits are not too many to be
taken. -/

namespace AppLedger.Text

theorem Base64.value?_digit {n : Nat} (h : n < 64) : value? (digit n) = some n := by
  have hall : ∀ n < 64, value? (digit n) = some n := by decide
  exact hall n h

namespace Vlq

theorem signed_unsigned (i : Int) : signed (unsigned i) = i := by
  rw [signed, unsigned]
  split <;> split <;> omega

theorem unsigned_lt {i : Int} {bound : Nat} (h : i.natAbs < bound) : unsigned i < bound * 2 := by
  rw [unsigned]
  split <;> omega

/-- The reader has the lowest `shift` bits of a number in `value`, and the writer has the number
`n` of all bits above them. -/
theorem decodeFrom_encodeNat {n value shift : Nat} (hfives : 5 ∣ shift) (hshift : shift ≤ maxShift)
    (hn : n < 2 ^ (maxShift + 5 - shift)) (rest : List Char) :
    decodeFrom value shift (encodeNat n ++ rest) =
      (decodeFrom 0 0 rest).map (signed (value + n <<< shift) :: ·) := by
  induction n using encodeNat.induct generalizing value shift with
  | case1 n hlt =>
    have hmod : n % 32 = n := Nat.mod_eq_of_lt hlt
    rw [encodeNat, if_pos hlt, List.singleton_append, decodeFrom]
    simp only [Base64.value?_digit (by omega : n < 64), if_neg (Nat.not_lt.mpr hshift),
      if_neg (Nat.not_le.mpr hlt), hmod]
  | case2 n hlt ih =>
    have hpow : 2 ^ (maxShift + 5 - shift) = 2 ^ (maxShift - shift) * 32 := by
      rw [← Nat.pow_add 2 _ 5, Nat.sub_add_comm hshift]
    -- Of the last digit that is taken no bit is left, so that a digit can follow this one.
    have hroom : shift + 5 ≤ maxShift := by
      have hne : maxShift - shift ≠ 0 := by
        intro hlast
        rw [hpow, hlast] at hn
        omega
      rw [maxShift] at hshift hne ⊢
      omega
    have hrest : n / 32 < 2 ^ (maxShift + 5 - (shift + 5)) := by
      rw [Nat.add_sub_add_right]
      exact Nat.div_lt_of_lt_mul (by rw [hpow] at hn; omega)
    have hbits : value + (n % 32) <<< shift + (n / 32) <<< (shift + 5) = value + n <<< shift := by
      have hsplit : n * 2 ^ shift = n % 32 * 2 ^ shift + n / 32 * (2 ^ shift * 32) := by
        rw [Nat.mul_comm (2 ^ shift), ← Nat.mul_assoc, ← Nat.add_mul, Nat.mod_add_div']
      rw [Nat.shiftLeft_eq, Nat.shiftLeft_eq, Nat.shiftLeft_eq, Nat.pow_add, hsplit, Nat.add_assoc]
    rw [encodeNat, if_neg hlt, List.cons_append, decodeFrom]
    have hdigit : (32 + n % 32) % 32 = n % 32 := by omega
    simp only [Base64.value?_digit (by omega : 32 + n % 32 < 64), if_neg (Nat.not_lt.mpr hshift),
      if_pos (by omega : 32 ≤ 32 + n % 32), hdigit]
    rw [ih (Nat.dvd_add hfives (Nat.dvd_refl 5)) hroom hrest, hbits]

theorem decode_encode_numbers {numbers : List Int} (h : ∀ i ∈ numbers, i.natAbs < 2 ^ 59) :
    decode (encode numbers) = .ok numbers := by
  induction numbers with
  | nil => rfl
  | cons i numbers ih =>
    rw [List.forall_mem_cons] at h
    have hi : unsigned i < 2 ^ (maxShift + 5 - 0) := unsigned_lt h.1
    have hrest : decodeFrom 0 0 (encode numbers) = .ok numbers := ih h.2
    have hencode : encode (i :: numbers) = encodeNat (unsigned i) ++ encode numbers := rfl
    rw [decode, hencode, decodeFrom_encodeNat (Nat.dvd_zero 5) (Nat.zero_le _) hi, hrest,
      Nat.zero_add, Nat.shiftLeft_zero, signed_unsigned]
    rfl

theorem not_mem_encode {c : Char} (h : Base64.value? c = none) (numbers : List Int) :
    c ∉ encode numbers := by
  have hnat (n : Nat) : c ∉ encodeNat n := by
    have hdigit {d : Nat} (hd : d < 64) : c ≠ Base64.digit d := by
      rintro rfl
      simp [Base64.value?_digit hd] at h
    induction n using encodeNat.induct with
    | case1 n hlt =>
      rw [encodeNat, if_pos hlt, List.mem_singleton]
      exact hdigit (by omega)
    | case2 n hlt ih =>
      rw [encodeNat, if_neg hlt, List.mem_cons, not_or]
      exact ⟨hdigit (by omega), ih⟩
  intro hmem
  obtain ⟨i, -, hi⟩ := List.mem_flatMap.mp hmem
  exact hnat _ hi

end Vlq

end AppLedger.Text
