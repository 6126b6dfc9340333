import AppLedger.Bytes.Order
import Mathlib.Tactic.SplitIfs

/-! Texts are in the order of their bytes. -/

namespace AppLedger.Bytes

theorem before_ofNat_cons {m n : Nat} (hm : m < 256) (hn : n < 256) (a b : Bytes) :
    before (UInt8.ofNat m :: a) (UInt8.ofNat n :: b) = true ↔
      m < n ∨ m = n ∧ before a b = true := by
  simp only [before, Bool.or_eq_true, Bool.and_eq_true, decide_eq_true_eq, beq_iff_eq,
    ← UInt8.toNat_inj, UInt8.toNat_ofNat_of_lt' hm, UInt8.toNat_ofNat_of_lt' hn]

theorem before_append_left (p a b : Bytes) : before (p ++ a) (p ++ b) = before a b := by
  induction p with
  | nil => rfl
  | cons x p ih => simp [before, ih]

/-- The first byte tells the number of bytes, and then the digits follow, the highest first. -/
theorem before_utf8EncodeChar {c d : Char} (h : c < d) (a b : Bytes) :
    before (String.utf8EncodeChar c ++ a) (String.utf8EncodeChar d ++ b) = true := by
  have hlt : c.val.toNat < d.val.toNat := h
  have hd : d.val.toNat < 0x110000 := by
    have := d.valid
    simp only [UInt32.isValidChar, Nat.isValidChar] at this
    omega
  -- each digit of six bits is taken off the one before it
  have hdigits (n : Nat) : n / 4096 = n / 64 / 64 ∧ n / 262144 = n / 64 / 64 / 64 := by
    simp only [Nat.div_div_eq_div_mul, and_self]
  simp only [String.utf8EncodeChar, hdigits]
  generalize c.val.toNat = m at *
  generalize d.val.toNat = n at *
  split_ifs
  all_goals
    simp only [List.cons_append, List.nil_append]
    repeat rw [before_ofNat_cons (by omega) (by omega)]
    omega

theorem before_flatMap {cs ds : List Char} (h : cs < ds) :
    before (cs.flatMap String.utf8EncodeChar) (ds.flatMap String.utf8EncodeChar) = true := by
  induction h with
  | @nil d ds =>
    obtain ⟨x, rest, hd⟩ := List.exists_cons_of_ne_nil (String.utf8EncodeChar_ne_nil (c := d))
    rw [List.flatMap_nil, List.flatMap_cons, hd]
    rfl
  | cons _ ih =>
    rw [List.flatMap_cons, List.flatMap_cons, before_append_left, ih]
  | rel hcd =>
    rw [List.flatMap_cons, List.flatMap_cons]
    exact before_utf8EncodeChar hcd _ _

theorem ofText_eq (s : String) : ofText s = s.toList.flatMap String.utf8EncodeChar := by
  rw [ofText, ← String.utf8Encode_toList, List.utf8Encode]
  simp

theorem before_ofText {s t : String} (h : s < t) : before (ofText s) (ofText t) = true := by
  rw [ofText_eq, ofText_eq]
  exact before_flatMap h

end AppLedger.Bytes
