import AppLedger.Text.Base32
import Mathlib.Data.String.Basic

/-! Base32 text is read back as the bytes that it was written for, and its length is that of the
bytes in units of five bits. -/

namespace AppLedger.Text.Base32

theorem value?_digit {n : Nat} (h : n < 32) : value? (digit n) = some n := by
  have hall : ∀ n < 32, value? (digit n) = some n := by decide
  exact hall n h

theorem utf8Size_of_value? {c : Char} {n : Nat} (h : value? c = some n) : c.utf8Size = 1 := by
  rw [Char.utf8Size_eq_one_iff]
  simp only [value?] at h
  split at h
  · next hc => exact UInt32.le_trans hc.2 (by decide)
  · split at h
    · next hc => exact UInt32.le_trans hc.2 (by decide)
    · simp at h

theorem decodeFrom_digit_of_lt {held bits n : Nat} (hn : n < 32) (hbits : bits < 3)
    (s : List Char) :
    decodeFrom held bits (digit n :: s) = decodeFrom (held * 32 + n) (bits + 5) s := by
  have hb : bits + 5 < 8 := by omega
  simp [decodeFrom, value?_digit hn, hb]

theorem decodeFrom_digit_of_le {held bits n : Nat} (hn : n < 32) (hbits : 3 ≤ bits)
    (s : List Char) :
    decodeFrom held bits (digit n :: s) =
      (decodeFrom ((held * 32 + n) % 2 ^ (bits - 3)) (bits - 3) s).map
        (UInt8.ofNat ((held * 32 + n) / 2 ^ (bits - 3)) :: ·) := by
  have hb : ¬ bits + 5 < 8 := by omega
  have he : bits + 5 - 8 = bits - 3 := by omega
  simp only [decodeFrom, value?_digit hn, hb, he, Option.bind_eq_bind, Option.bind_some, if_false,
    Nat.shiftLeft_eq, Nat.one_mul, Nat.shiftRight_eq_div_pow]
  exact (Option.map_eq_bind ..).symm

theorem encodeFrom_cons_of_lt {held bits : Nat} (hbits : bits < 2) (byte : UInt8) (b : Bytes) :
    encodeFrom held bits (byte :: b) =
      digit ((held * 256 + byte.toNat) / 2 ^ (bits + 3)) ::
        encodeFrom ((held * 256 + byte.toNat) % 2 ^ (bits + 3)) (bits + 3) b := by
  have hb : bits + 8 < 10 := by omega
  simp [encodeFrom, hb, Nat.shiftLeft_eq, Nat.shiftRight_eq_div_pow]

theorem encodeFrom_cons_of_le {held bits : Nat} (hbits : 2 ≤ bits) (byte : UInt8) (b : Bytes) :
    encodeFrom held bits (byte :: b) =
      digit ((held * 256 + byte.toNat) / 2 ^ (bits + 3)) ::
        digit ((held * 256 + byte.toNat) / 2 ^ (bits - 2) % 32) ::
          encodeFrom ((held * 256 + byte.toNat) % 2 ^ (bits - 2)) (bits - 2) b := by
  have hb : ¬ bits + 8 < 10 := by omega
  have he : bits + 8 - 10 = bits - 2 := by omega
  simp [encodeFrom, hb, he, Nat.shiftLeft_eq, Nat.shiftRight_eq_div_pow]

theorem ofNat_eq_of_toNat (byte : UInt8) {n : Nat} (h : n = byte.toNat) : UInt8.ofNat n = byte := by
  rw [h, UInt8.ofNat_toNat]

/-- At the end the writer fills up a digit, and the bits it has put in are left over. -/
theorem decodeFrom_encodeFrom_nil {bits held read : Nat} {byte : UInt8} (hpos : 0 < bits)
    (hbits : bits < 5) (hheld : held < 2 ^ bits) (hbyte : read * 2 ^ bits + held = byte.toNat) :
    decodeFrom read (8 - bits) (encodeFrom held bits []) = some [byte] := by
  have hs : 2 ^ bits * 2 ^ (5 - bits) = 32 := by
    rw [← Nat.pow_add, Nat.add_sub_cancel' (by omega)]
  have hlt : held * 2 ^ (5 - bits) < 32 := by
    rw [← hs]
    exact Nat.mul_lt_mul_of_pos_right hheld (Nat.two_pow_pos _)
  have hout : (read * 32 + held * 2 ^ (5 - bits)) / 2 ^ (8 - bits - 3) = byte.toNat := by
    rw [← hbyte, ← hs, ← Nat.mul_assoc, ← Nat.add_mul, show 8 - bits - 3 = 5 - bits by omega,
      Nat.mul_div_cancel _ (Nat.two_pow_pos _)]
  rw [encodeFrom, if_neg (by omega), Nat.shiftLeft_eq, decodeFrom_digit_of_le hlt (by omega)]
  simp [decodeFrom, hout]

/-- Where the writer holds some bits of a byte, the reader has the others: the byte comes out
before those that are still to be written. -/
theorem decodeFrom_encodeFrom (b : Bytes) :
    decodeFrom 0 0 (encodeFrom 0 0 b) = some b ∧
      ∀ (bits held read : Nat) (byte : UInt8), 0 < bits → bits < 5 → held < 2 ^ bits →
        read * 2 ^ bits + held = byte.toNat →
          decodeFrom read (8 - bits) (encodeFrom held bits b) = some (byte :: b) := by
  induction b with
  | nil => exact ⟨rfl, fun _ _ _ _ => decodeFrom_encodeFrom_nil⟩
  | cons next b ih =>
    have hn := next.toNat_lt
    refine ⟨?_, fun bits held read byte hpos hbits hheld hbyte => ?_⟩
    · have hh := ih.2 3 (next.toNat % 8) (next.toNat / 8) next (by omega) (by omega) (by omega)
        (by omega)
      rw [encodeFrom_cons_of_lt (by omega), decodeFrom_digit_of_lt (by omega) (by omega)]
      simpa using hh
    have hb := byte.toNat_lt
    have hc : bits = 1 ∨ bits = 2 ∨ bits = 3 ∨ bits = 4 := by omega
    rcases hc with rfl | rfl | rfl | rfl
    · have hh := ih.2 4 (next.toNat % 16) (next.toNat / 16) next (by omega) (by omega) (by omega)
        (by omega)
      rw [encodeFrom_cons_of_lt (by omega), decodeFrom_digit_of_le (by omega) (by omega)]
      simp only [Nat.reduceAdd, Nat.reduceSub, Nat.reducePow] at hheld hbyte hh ⊢
      rw [show (read * 32 + (held * 256 + next.toNat) / 16) % 16 = next.toNat / 16 by omega,
        show (held * 256 + next.toNat) % 16 = next.toNat % 16 by omega, hh, Option.map_some,
        ofNat_eq_of_toNat byte (by omega)]
    · rw [encodeFrom_cons_of_le (by omega), decodeFrom_digit_of_le (by omega) (by omega),
        decodeFrom_digit_of_le (by omega) (by omega)]
      simp only [Nat.reduceAdd, Nat.reduceSub, Nat.reducePow] at hheld hbyte ⊢
      rw [Nat.mod_one, Nat.mod_one, ih.1, Option.map_some, Option.map_some,
        ofNat_eq_of_toNat byte (by omega), ofNat_eq_of_toNat next (by omega)]
    · have hh := ih.2 1 (next.toNat % 2) (next.toNat / 2) next (by omega) (by omega) (by omega)
        (by omega)
      rw [encodeFrom_cons_of_le (by omega), decodeFrom_digit_of_le (by omega) (by omega),
        decodeFrom_digit_of_lt (by omega) (by omega)]
      simp only [Nat.reduceAdd, Nat.reduceSub, Nat.reducePow] at hheld hbyte hh ⊢
      rw [show (read * 32 + (held * 256 + next.toNat) / 64) % 4 * 32 +
          (held * 256 + next.toNat) / 2 % 32 = next.toNat / 2 by omega,
        show (held * 256 + next.toNat) % 2 = next.toNat % 2 by omega, hh, Option.map_some,
        ofNat_eq_of_toNat byte (by omega)]
    · have hh := ih.2 2 (next.toNat % 4) (next.toNat / 4) next (by omega) (by omega) (by omega)
        (by omega)
      rw [encodeFrom_cons_of_le (by omega), decodeFrom_digit_of_le (by omega) (by omega),
        decodeFrom_digit_of_lt (by omega) (by omega)]
      simp only [Nat.reduceAdd, Nat.reduceSub, Nat.reducePow] at hheld hbyte hh ⊢
      rw [show (read * 32 + (held * 256 + next.toNat) / 128) % 2 * 32 +
          (held * 256 + next.toNat) / 4 % 32 = next.toNat / 4 by omega,
        show (held * 256 + next.toNat) % 4 = next.toNat % 4 by omega, hh, Option.map_some,
        ofNat_eq_of_toNat byte (by omega)]

theorem decode?_encode (b : Bytes) : decode? (encode b) = some b := by
  simpa [decode?, encode] using (decodeFrom_encodeFrom b).1

theorem length_encodeFrom (b : Bytes) {held bits : Nat} (hbits : bits < 5) :
    (encodeFrom held bits b).length = (bits + 8 * b.length + 4) / 5 := by
  induction b generalizing held bits with
  | nil =>
    by_cases hz : bits = 0
    · simp [encodeFrom, hz]
    · simp only [encodeFrom, hz, if_false, List.length_cons, List.length_nil]
      omega
  | cons byte b ih =>
    by_cases hlt : bits < 2
    · rw [encodeFrom_cons_of_lt hlt, List.length_cons, ih (by omega), List.length_cons]
      omega
    · rw [encodeFrom_cons_of_le (by omega), List.length_cons, List.length_cons, ih (by omega),
        List.length_cons]
      omega

theorem length_of_decodeFrom {held bits : Nat} {s : List Char} {b : Bytes} (hbits : bits < 8)
    (h : decodeFrom held bits s = some b) : b.length = (bits + 5 * s.length) / 8 := by
  induction s generalizing held bits b with
  | nil =>
    obtain rfl : b = [] := by simpa [decodeFrom] using h.symm
    simp only [List.length_nil]
    omega
  | cons c s ih =>
    obtain ⟨n, hn, h⟩ := Option.bind_eq_some_iff.mp h
    by_cases hlt : bits + 5 < 8
    · simp only [hlt, if_true] at h
      rw [ih hlt h, List.length_cons]
      omega
    · simp only [hlt, if_false] at h
      obtain ⟨rest, hrest, h⟩ := Option.bind_eq_some_iff.mp h
      obtain rfl := Option.some.inj h
      rw [List.length_cons, ih (by omega) hrest, List.length_cons]
      omega

theorem utf8Len_of_decodeFrom {held bits : Nat} {s : List Char} {b : Bytes}
    (h : decodeFrom held bits s = some b) : String.utf8Len s = s.length := by
  induction s generalizing held bits b with
  | nil => rfl
  | cons c s ih =>
    obtain ⟨n, hn, h⟩ := Option.bind_eq_some_iff.mp h
    have hs : String.utf8Len s = s.length := by
      by_cases hlt : bits + 5 < 8
      · simp only [hlt, if_true] at h
        exact ih h
      · simp only [hlt, if_false] at h
        obtain ⟨rest, hrest, -⟩ := Option.bind_eq_some_iff.mp h
        exact ih hrest
    rw [String.utf8Len_cons, hs, utf8Size_of_value? hn, List.length_cons]

theorem isSome_value?_of_decodeFrom {held bits : Nat} {s : List Char} {b : Bytes}
    (h : decodeFrom held bits s = some b) : ∀ c ∈ s, (value? c).isSome := by
  induction s generalizing held bits b with
  | nil => exact nofun
  | cons c s ih =>
    obtain ⟨n, hn, h⟩ := Option.bind_eq_some_iff.mp h
    rw [List.forall_mem_cons]
    refine ⟨by rw [hn]; rfl, ?_⟩
    by_cases hlt : bits + 5 < 8
    · simp only [hlt, if_true] at h
      exact ih h
    · simp only [hlt, if_false] at h
      obtain ⟨rest, hrest, -⟩ := Option.bind_eq_some_iff.mp h
      exact ih hrest

theorem utf8ByteSize_of_decode? {s : String} {b : Bytes} (h : decode? s = some b) :
    s.utf8ByteSize = s.length := by
  rw [← String.length_toList, ← utf8Len_of_decodeFrom h, ← String.utf8ByteSize_ofList,
    String.ofList_toList]

/-- A digit is one byte of the text, so the length of the text alone gives that of the bytes. -/
theorem length_of_decode? {s : String} {b : Bytes} (h : decode? s = some b) :
    b.length = 5 * s.utf8ByteSize / 8 := by
  rw [length_of_decodeFrom (by decide) h, utf8ByteSize_of_decode? h, String.length_toList,
    Nat.zero_add]

end AppLedger.Text.Base32
