import AppLedger.Proofs.Bytes
import AppLedger.Proofs.Text.Base32

/-! Base32 text as a number. The bytes of a text are its number without the bits of the last digit
that do not fill a byte, and the text that is written for bytes has zeros there. -/

namespace AppLedger.Text.Base32

/-- The number that the digits stand for, those of `held` before them. -/
def numberFrom (held : Nat) (s : List Char) : Nat :=
  s.foldl (fun n c => n * 32 + (value? c).getD 0) held

def number (s : List Char) : Nat :=
  numberFrom 0 s

theorem number_append_singleton (s : List Char) (c : Char) :
    number (s ++ [c]) = number s * 32 + (value? c).getD 0 := by
  simp [number, numberFrom]

theorem value?_lt {c : Char} {n : Nat} (h : value? c = some n) : n < 32 := by
  rw [value?] at h
  split at h
  · next hc =>
    obtain rfl := Option.some.inj h
    have hle : c.toNat ≤ 'Z'.toNat := hc.2
    simp only [Char.reduceToNat] at hle
    omega
  · split at h
    · next hc =>
      obtain rfl := Option.some.inj h
      have hle : c.toNat ≤ '7'.toNat := hc.2
      simp only [Char.reduceToNat] at hle
      omega
    · simp at h

theorem digit_of_value? {c : Char} {n : Nat} (h : value? c = some n) : c = digit n := by
  rw [value?] at h
  split at h
  · next hc =>
    obtain rfl := Option.some.inj h
    have hge : 'A'.toNat ≤ c.toNat := hc.1
    have hle : c.toNat ≤ 'Z'.toNat := hc.2
    simp only [Char.reduceToNat] at hge hle
    rw [digit, if_pos (by omega), Nat.add_sub_cancel' hge, Char.ofNat_toNat]
  · split at h
    · next hc =>
      obtain rfl := Option.some.inj h
      have hge : '2'.toNat ≤ c.toNat := hc.1
      have hle : c.toNat ≤ '7'.toNat := hc.2
      simp only [Char.reduceToNat] at hge hle
      rw [digit, if_neg (by omega), Nat.add_sub_cancel' (by omega), Char.ofNat_toNat]
    · simp at h

/-- Digits of one number are the same where there are equally many. -/
theorem eq_of_number_eq {s t : List Char} (hs : ∀ c ∈ s, (value? c).isSome)
    (ht : ∀ c ∈ t, (value? c).isSome) (hlen : s.length = t.length) (h : number s = number t) :
    s = t := by
  induction s using List.reverseRecOn generalizing t with
  | nil => exact (List.length_eq_zero_iff.mp hlen.symm).symm
  | append_singleton s c ih =>
    cases t using List.reverseRecOn with
    | nil => simp at hlen
    | append_singleton t d =>
      obtain ⟨m, hm⟩ := Option.isSome_iff_exists.mp (hs c (by simp))
      obtain ⟨n, hn⟩ := Option.isSome_iff_exists.mp (ht d (by simp))
      have hmlt := value?_lt hm
      have hnlt := value?_lt hn
      rw [number_append_singleton, number_append_singleton, hm, hn, Option.getD_some,
        Option.getD_some] at h
      have hrest : s = t :=
        ih (fun c hc => hs c (by simp [hc])) (fun c hc => ht c (by simp [hc]))
          (by simpa using hlen) (by omega)
      obtain rfl : m = n := by omega
      rw [hrest, digit_of_value? hm, digit_of_value? hn]

/-- A number may be taken apart before it is put behind another one. -/
theorem split_number (high low bits width : Nat) :
    (high * 2 ^ width + low / 2 ^ bits) * 2 ^ bits + low % 2 ^ bits =
      high * 2 ^ (bits + width) + low := by
  rw [Nat.add_mul, Nat.add_assoc, Nat.div_add_mod', Nat.mul_assoc, ← Nat.pow_add,
    Nat.add_comm width]

/-! ## Reading -/

theorem isSome_decodeFrom {s : List Char} (h : ∀ c ∈ s, (value? c).isSome) (held bits : Nat) :
    (decodeFrom held bits s).isSome := by
  induction s generalizing held bits with
  | nil => rfl
  | cons c s ih =>
    rw [List.forall_mem_cons] at h
    obtain ⟨n, hn⟩ := Option.isSome_iff_exists.mp h.1
    simp only [decodeFrom, hn, Option.bind_eq_bind, Option.bind_some]
    split
    · exact ih h.2 _ _
    · obtain ⟨rest, hrest⟩ := Option.isSome_iff_exists.mp (ih h.2 _ _)
      rw [hrest]
      rfl

/-- The reader holds the bits that do not fill a byte yet: what it has read already is the number
`read`. -/
theorem numberFrom_of_decodeFrom {held bits : Nat} {s : List Char} {b : Bytes} (hbits : bits < 8)
    (hheld : held < 2 ^ bits) (h : decodeFrom held bits s = some b) (read : Nat) :
    numberFrom (read * 2 ^ bits + held) s / 2 ^ ((bits + 5 * s.length) % 8) =
      b.foldl (fun n byte => n * 256 + byte.toNat) read := by
  induction s generalizing held bits b read with
  | nil =>
    obtain rfl : b = [] := by simpa [decodeFrom] using h.symm
    rw [List.length_nil, Nat.mul_zero, Nat.add_zero, Nat.mod_eq_of_lt hbits]
    rw [numberFrom, List.foldl_nil, List.foldl_nil, Nat.mul_comm,
      Nat.mul_add_div (Nat.two_pow_pos _), Nat.div_eq_of_lt hheld, Nat.add_zero]
  | cons c s ih =>
    obtain ⟨n, hn, h⟩ := Option.bind_eq_some_iff.mp h
    have hlt := value?_lt hn
    have hpow : 2 ^ (bits + 5) = 2 ^ bits * 32 := Nat.pow_add 2 bits 5
    have hnext : held * 32 + n < 2 ^ (bits + 5) := by omega
    have hstep : numberFrom (read * 2 ^ bits + held) (c :: s) =
        numberFrom (read * 2 ^ (bits + 5) + (held * 32 + n)) s := by
      rw [numberFrom, List.foldl_cons, hn, Option.getD_some, numberFrom, hpow, ← Nat.mul_assoc,
        Nat.add_mul, Nat.add_assoc]
    have hindex : bits + 5 * (c :: s).length = bits + 5 + 5 * s.length := by
      rw [List.length_cons]
      omega
    rw [hstep, hindex]
    by_cases hb : bits + 5 < 8
    · simp only [hb, if_true] at h
      exact ih hb hnext h read
    · -- A byte is full, and `left` bits are held behind it.
      simp only [hb, if_false, Nat.shiftLeft_eq, Nat.one_mul, Nat.shiftRight_eq_div_pow] at h
      obtain ⟨rest, hrest, h⟩ := Option.bind_eq_some_iff.mp h
      obtain rfl := Option.some.inj h
      obtain ⟨left, rfl⟩ : ∃ left, bits = left + 3 := ⟨bits - 3, by omega⟩
      rw [show left + 3 + 5 - 8 = left by omega] at hrest ⊢
      have hout : (held * 32 + n) / 2 ^ left < 256 :=
        Nat.div_lt_of_lt_mul (hnext.trans_eq (Nat.pow_add 2 left 8))
      have hbyte : (UInt8.ofNat ((held * 32 + n) / 2 ^ left)).toNat = (held * 32 + n) / 2 ^ left :=
        UInt8.toNat_ofNat_of_lt hout
      have hsplit : (read * 256 + (held * 32 + n) / 2 ^ left) * 2 ^ left +
          (held * 32 + n) % 2 ^ left = read * 2 ^ (left + 8) + (held * 32 + n) :=
        split_number read (held * 32 + n) left 8
      have hi := ih (by omega) (Nat.mod_lt _ (Nat.two_pow_pos _)) hrest
        (read * 256 + (held * 32 + n) / 2 ^ left)
      rw [List.foldl_cons, hbyte, ← hi, hsplit, show left + 3 + 5 = left + 8 by omega]
      congr 2
      omega

/-- The bytes of a text are its number without the bits that do not fill a byte. -/
theorem decode?_eq_some_iff {s : String} {b : Bytes} :
    decode? s = some b ↔ (∀ c ∈ s.toList, (value? c).isSome) ∧ b.length = 5 * s.length / 8 ∧
      number s.toList / 2 ^ (5 * s.length % 8) = Bytes.toNat b := by
  have hread {b : Bytes} (h : decode? s = some b) : b.length = 5 * s.length / 8 ∧
      number s.toList / 2 ^ (5 * s.length % 8) = Bytes.toNat b := by
    have hlen := length_of_decode? h
    have hnumber := numberFrom_of_decodeFrom (by decide) (by decide) h 0
    rw [utf8ByteSize_of_decode? h] at hlen
    rw [String.length_toList, Nat.zero_add, Nat.zero_mul, Nat.zero_add] at hnumber
    exact ⟨hlen, hnumber⟩
  constructor
  · intro h
    exact ⟨isSome_value?_of_decodeFrom h, hread h⟩
  · rintro ⟨hdigits, hlen, hnumber⟩
    obtain ⟨b', hb'⟩ := Option.isSome_iff_exists.mp (isSome_decodeFrom hdigits 0 0)
    obtain ⟨hlen', hnumber'⟩ := hread hb'
    have heq : b' = b := by
      rw [← Bytes.ofNat_toNat b', ← Bytes.ofNat_toNat b, hlen, hlen', ← hnumber, ← hnumber']
    rw [← heq]
    exact hb'

/-! ## Writing -/

theorem numberFrom_digit {n : Nat} (h : n < 32) (held : Nat) (s : List Char) :
    numberFrom held (digit n :: s) = numberFrom (held * 32 + n) s := by
  rw [numberFrom, List.foldl_cons, value?_digit h, Option.getD_some]
  rfl

theorem numberFrom_encodeFrom_nil {held bits : Nat} (hbits : bits < 5) (hheld : held < 2 ^ bits)
    (written : Nat) :
    numberFrom written (encodeFrom held bits []) =
      (written * 2 ^ bits + held) * 2 ^ (4 * bits % 5) := by
  by_cases hz : bits = 0
  · subst hz
    obtain rfl : held = 0 := by omega
    simp [encodeFrom, numberFrom]
  · have hfill : 2 ^ bits * 2 ^ (5 - bits) = 32 := by
      rw [← Nat.pow_add, Nat.add_sub_cancel' (by omega)]
    have hlt : held * 2 ^ (5 - bits) < 32 := by
      rw [← hfill]
      exact Nat.mul_lt_mul_of_pos_right hheld (Nat.two_pow_pos _)
    rw [encodeFrom, if_neg hz, Nat.shiftLeft_eq, numberFrom_digit hlt,
      show 4 * bits % 5 = 5 - bits by omega, Nat.add_mul, Nat.mul_assoc, hfill]
    rfl

/-- The writer fills the last digit with zeros. What it has written already is the number
`written`. -/
theorem numberFrom_encodeFrom (b : Bytes) {held bits : Nat} (hbits : bits < 5)
    (hheld : held < 2 ^ bits) (written : Nat) :
    numberFrom written (encodeFrom held bits b) =
      b.foldl (fun n byte => n * 256 + byte.toNat) (written * 2 ^ bits + held) *
        2 ^ (4 * (bits + 8 * b.length) % 5) := by
  induction b generalizing held bits written with
  | nil => exact numberFrom_encodeFrom_nil hbits hheld written
  | cons byte b ih =>
    have hbyte := byte.toNat_lt
    have hpow : 2 ^ (bits + 8) = 2 ^ bits * 256 := Nat.pow_add 2 bits 8
    generalize hnext : held * 256 + byte.toNat = next
    have hlt : next < 2 ^ (bits + 8) := by omega
    have hfirst : next / 2 ^ (bits + 3) < 32 :=
      Nat.div_lt_of_lt_mul (hlt.trans_eq (Nat.pow_add 2 (bits + 3) 5))
    have hbegin : written * 2 ^ (bits + 8) + next =
        (written * 2 ^ bits + held) * 256 + byte.toNat := by
      rw [hpow, ← Nat.mul_assoc written, Nat.add_mul, Nat.add_assoc, hnext]
    by_cases hb : bits < 2
    · have hsplit : (written * 32 + next / 2 ^ (bits + 3)) * 2 ^ (bits + 3) +
          next % 2 ^ (bits + 3) = written * 2 ^ (bits + 8) + next :=
        split_number written next (bits + 3) 5
      rw [encodeFrom_cons_of_lt hb, hnext, numberFrom_digit hfirst,
        ih (by omega) (Nat.mod_lt _ (Nat.two_pow_pos _)), hsplit, hbegin, List.foldl_cons,
        List.length_cons]
      congr 2
      omega
    · -- Two digits are written, and `left` bits are held behind them.
      obtain ⟨left, rfl⟩ : ∃ left, bits = left + 2 := ⟨bits - 2, by omega⟩
      have hdigits : (written * 32 + next / 2 ^ (left + 2 + 3)) * 32 + next / 2 ^ left % 32 =
          written * 2 ^ 10 + next / 2 ^ left := by
        rw [show left + 2 + 3 = left + 5 from rfl, Nat.pow_add, ← Nat.div_div_eq_div_mul]
        exact split_number written (next / 2 ^ left) 5 5
      rw [encodeFrom_cons_of_le (by omega), hnext, numberFrom_digit hfirst,
        Nat.add_sub_cancel, numberFrom_digit (Nat.mod_lt _ (by decide)), hdigits,
        ih (by omega) (Nat.mod_lt _ (Nat.two_pow_pos _)), split_number written next left 10,
        show left + 10 = left + 2 + 8 from rfl, hbegin, List.foldl_cons, List.length_cons]
      congr 2
      omega

theorem number_encode (b : Bytes) :
    number (encode b).toList = Bytes.toNat b * 2 ^ (4 * (8 * b.length) % 5) := by
  have h := numberFrom_encodeFrom b (by decide : 0 < 5) (by decide : 0 < 2 ^ 0) 0
  rw [Nat.zero_mul, Nat.zero_add, Nat.zero_add] at h
  rw [encode, String.toList_ofList]
  exact h

end AppLedger.Text.Base32
