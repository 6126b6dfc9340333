import AppLedger.Text.Decimal
import Mathlib.Data.List.Induction

/-! A number is read back from the digits that it is written with, of which the first is zero only
where there is no other. -/

namespace AppLedger.Text.Decimal

theorem valueFrom_eq (n : Nat) (s : List Char) : valueFrom n s = Nat.ofDigitChars 10 s n := by
  rw [Nat.ofDigitChars_eq_foldl, valueFrom]
  congr
  funext n c
  rw [Nat.mul_comm]
  rfl

theorem chars_ne_nil (n : Nat) : chars n ≠ [] :=
  Nat.toDigits_ne_nil

theorem chars_injective : Function.Injective chars := by
  intro m n h
  calc m = Nat.ofDigitChars 10 (chars m) 0 := Nat.ofDigitChars_ten_toDigits.symm
    _ = Nat.ofDigitChars 10 (chars n) 0 := by rw [h]
    _ = n := Nat.ofDigitChars_ten_toDigits

theorem toList_toString (n : Nat) : (toString n).toList = chars n := by
  simp [chars, Nat.repr]

theorem isDigit_of_mem_chars {n : Nat} {c : Char} (h : c ∈ chars n) : c.isDigit = true :=
  Nat.isDigit_of_mem_toDigits (by decide) (by decide) h

theorem valueFrom_zeros_append (zeros : Nat) (s : List Char) :
    valueFrom 0 (List.replicate zeros '0' ++ s) = valueFrom 0 s := by
  induction zeros with
  | zero => rfl
  | succ zeros ih => exact ih

theorem isDigit_of_mem_zeros_append {zeros n : Nat} {c : Char}
    (h : c ∈ List.replicate zeros '0' ++ chars n) : c.isDigit = true := by
  rcases List.mem_append.mp h with hzero | hdigit
  · rw [List.eq_of_mem_replicate hzero]
    rfl
  · exact isDigit_of_mem_chars hdigit

theorem read?_zeros_append (zeros n : Nat) :
    read? (List.replicate zeros '0' ++ chars n) = some n := by
  have hdigits : (List.replicate zeros '0' ++ chars n).all Char.isDigit = true :=
    List.all_eq_true.mpr fun _ => isDigit_of_mem_zeros_append
  have hne := List.append_ne_nil_of_right_ne_nil (List.replicate zeros '0') (chars_ne_nil n)
  rw [read?, if_pos ⟨hne, hdigits⟩, valueFrom_zeros_append, valueFrom_eq, chars,
    Nat.ofDigitChars_ten_toDigits]

theorem chars_of_isDigit {c : Char} (h : c.isDigit = true) :
    c.toNat - 48 < 10 ∧ chars (c.toNat - 48) = [c] := by
  simp only [Char.isDigit, Bool.and_eq_true, decide_eq_true_eq] at h
  have hlow : 48 ≤ c.toNat := h.1
  have hhigh : c.toNat ≤ 57 := h.2
  have hlt : c.toNat - 48 < 10 := by omega
  refine ⟨hlt, ?_⟩
  rw [chars, Nat.toDigits_of_lt_base hlt, List.singleton_inj, ← Char.toNat_inj,
    Nat.toNat_digitChar_of_lt_ten hlt]
  omega

theorem chars_append_digit {n : Nat} {c : Char} (hn : 0 < n) (hc : c.isDigit = true) :
    chars (n * 10 + (c.toNat - 48)) = chars n ++ [c] := by
  obtain ⟨hlt, hchars⟩ := chars_of_isDigit hc
  rw [← hchars, chars, chars, chars, Nat.toDigits_append_toDigits (by decide) hn hlt, Nat.mul_comm]

/-- A run of digits is the text of the number that it stands for, after zeros. -/
theorem exists_zeros_of_read? {s : List Char} {n : Nat} (h : read? s = some n) :
    ∃ zeros, s = List.replicate zeros '0' ++ chars n := by
  rw [read?] at h
  split at h
  case isFalse => exact absurd h nofun
  next hs =>
    obtain ⟨hne, hdigits⟩ := hs
    obtain rfl := Option.some.inj h
    clear h
    induction s using List.reverseRecOn with
    | nil => exact absurd rfl hne
    | append_singleton front c ih =>
      rw [List.all_append, List.all_cons, Bool.and_eq_true, List.all_nil, Bool.and_true] at hdigits
      have hvalue : valueFrom 0 (front ++ [c]) = valueFrom 0 front * 10 + (c.toNat - 48) := by
        rw [valueFrom, List.foldl_append]
        rfl
      rw [hvalue]
      by_cases hfront : front = []
      · subst hfront
        exact ⟨0, by simp [valueFrom, (chars_of_isDigit hdigits.2).2]⟩
      obtain ⟨zeros, hzeros⟩ := ih hfront hdigits.1
      by_cases hzero : valueFrom 0 front = 0
      · rw [hzero, Nat.zero_mul, Nat.zero_add, (chars_of_isDigit hdigits.2).2]
        refine ⟨zeros + 1, ?_⟩
        rw [hzero] at hzeros
        rw [hzeros, List.replicate_succ']
        rfl
      · refine ⟨zeros, ?_⟩
        rw [chars_append_digit (Nat.pos_of_ne_zero hzero) hdigits.2, ← List.append_assoc, ← hzeros]

theorem readBelow?_eq_some_iff {bound n : Nat} {s : List Char} :
    readBelow? bound s = some n ↔ n < bound ∧ ∃ zeros, s = List.replicate zeros '0' ++ chars n := by
  rw [readBelow?, Option.filter_eq_some_iff, decide_eq_true_iff, and_comm]
  refine and_congr_right fun _ => ⟨exists_zeros_of_read?, ?_⟩
  rintro ⟨zeros, rfl⟩
  exact read?_zeros_append zeros n

theorem readBelow?_chars {n bound : Nat} (h : n < bound) : readBelow? bound (chars n) = some n :=
  readBelow?_eq_some_iff.mpr ⟨h, 0, rfl⟩

/-! ## The first digit -/

theorem digitChar_bounds :
    ∀ d < 10, d ≠ 0 → '1' ≤ Nat.digitChar d ∧ Nat.digitChar d ≤ '9' := by
  decide

theorem head_chars {n : Nat} (h : n ≠ 0) :
    ∃ c rest, chars n = c :: rest ∧ '1' ≤ c ∧ c ≤ '9' := by
  induction n using Nat.strongRecOn with
  | ind n ih =>
    rw [chars, Nat.toDigits_eq_if (by decide)]
    by_cases hlt : n < 10
    · rw [if_pos hlt]
      exact ⟨_, [], rfl, digitChar_bounds n hlt h⟩
    · obtain ⟨c, rest, hchars, hbounds⟩ := ih (n / 10) (by omega) (by omega)
      rw [if_neg hlt, ← chars, hchars]
      exact ⟨c, _, rfl, hbounds⟩

end AppLedger.Text.Decimal
