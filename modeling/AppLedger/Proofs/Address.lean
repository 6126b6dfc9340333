import AppLedger.Abi.Codec
import AppLedger.Address
import AppLedger.Proofs.Abi.AddressText
import AppLedger.Proofs.Outcome
import AppLedger.Proofs.Text.Base32Number

/-! The texts of an address. The two readers of such texts, that of addresses and that of values,
accept the same texts, which are four for each address: the bits of the last character that belong
to no byte are ignored. -/

namespace AppLedger.Address

open Text

/-! ## Two readers -/

/-- What the reader of values says instead. -/
def Invalid.inValue : Invalid → Abi.Invalid
  | .length _ => .addressLength
  | .encoding _ => .addressEncoding
  | .checksum text => .addressChecksum text

theorem checksum_eq (a : Address) : a.checksum = Abi.keyChecksum a.key.bytes := rfl

theorem length_of_decode? {s : String} {b : Bytes} (hsize : s.utf8ByteSize = 58)
    (h : Base32.decode? s = some b) : b.length = 36 := by
  rw [Base32.length_of_decode? h, hsize]

theorem addressKey_eq (s : String) :
    Abi.addressKey s = ((ofText s).map fun a => a.key.bytes).mapError Invalid.inValue := by
  rw [Abi.addressKey, ofText]
  by_cases hsize : s.utf8ByteSize ≠ 58
  · rw [if_pos hsize, if_pos hsize]
    rfl
  · rw [if_neg hsize, if_neg hsize]
    cases hdecode : Base32.decode? s with
    | none => rfl
    | some b =>
      have hlen := length_of_decode? (not_not.mp hsize) hdecode
      have hkey : (b.take 32).length = 32 := by
        rw [List.length_take]
        omega
      simp only [FixedBytes.ofBytes?, dif_pos hkey]
      have hchecksum : (⟨⟨b.take 32, hkey⟩⟩ : Address).checksum = b.drop 32 ↔
          b.drop 32 = Abi.keyChecksum (b.take 32) := eq_comm
      by_cases hvalid : b.drop 32 = Abi.keyChecksum (b.take 32)
      · rw [if_pos hvalid, if_pos (hchecksum.mpr hvalid)]
        rfl
      · rw [if_neg hvalid, if_neg fun h => hvalid (hchecksum.mp h)]
        rfl

theorem encode_address_eq (s : String) :
    Abi.Ty.address.encode (.address s) =
      ((ofText s).map fun a => a.key.bytes).mapError fun why => .invalid why.inValue := by
  rw [Abi.Ty.encode, Abi.Ty.encodeAddress, addressKey_eq]
  cases ofText s <;> rfl

theorem ofText_eq_ok_iff_addressKey {s : String} {a : Address} :
    ofText s = .ok a ↔ Abi.addressKey s = .ok a.key.bytes := by
  rw [addressKey_eq]
  cases ofText s with
  | error why => exact ⟨nofun, nofun⟩
  | ok a' =>
    obtain ⟨⟨key, hkey⟩⟩ := a
    obtain ⟨⟨key', hkey'⟩⟩ := a'
    simp [Except.map, Except.mapError]

theorem ofText_text_eq (a : Address) : ofText a.text = .ok a :=
  ofText_eq_ok_iff_addressKey.mpr (Abi.addressKey_addressText a.key.length_bytes)

/-- A text is read as an address if it is encoded as the key of that address, and only then; where
it is refused, both readers say the same of it. In both a text of 58 bytes holds the key and four
bytes more. The texts that are written for a key are the same, and are read as the address with this
key. -/
theorem ofText_agrees :
    (∀ (s : String) (a : Address),
        ofText s = .ok a ↔ Abi.Ty.address.encode (.address s) = .ok a.key.bytes) ∧
      (∀ (s : String) (why : Invalid), ofText s = .error why →
        Abi.Ty.address.encode (.address s) = .error (.invalid why.inValue)) ∧
      (∀ (s : String) (b : Bytes),
        s.utf8ByteSize = 58 → Base32.decode? s = some b → b.length = 32 + 4) ∧
      ∀ a : Address,
        Abi.Ty.address.decode a.key.bytes = .ok (.address a.text) ∧ ofText a.text = .ok a := by
  refine ⟨fun s a => ?_, fun s why h => ?_, fun s b => length_of_decode?,
    fun a => ⟨?_, ofText_text_eq a⟩⟩
  · rw [ofText_eq_ok_iff_addressKey, Abi.Ty.encode, Abi.Ty.encodeAddress, mapError_eq_ok]
  · rw [encode_address_eq, h]
    rfl
  · rw [Abi.Ty.decode, Abi.Ty.decodeAddress, if_pos a.key.length_bytes]
    rfl

/-! ## Spellings -/

theorem length_keyAndChecksum (a : Address) : (a.key.bytes ++ a.checksum).length = 36 := by
  rw [List.length_append, a.key.length_bytes, checksum_eq, Abi.length_keyChecksum]

theorem ofText_eq_ok_iff_number {s : String} {a : Address} :
    ofText s = .ok a ↔ s.length = 58 ∧ (∀ c ∈ s.toList, (Base32.value? c).isSome) ∧
      Base32.number s.toList / 4 = Bytes.toNat (a.key.bytes ++ a.checksum) := by
  rw [ofText_eq_ok_iff_addressKey, Abi.addressKey_eq_ok_iff]
  constructor
  · rintro ⟨hsize, -, hdecode⟩
    obtain ⟨hdigits, -, hnumber⟩ := Base32.decode?_eq_some_iff.mp hdecode
    rw [hsize] at hnumber
    exact ⟨hsize, hdigits, hnumber⟩
  · rintro ⟨hsize, hdigits, hnumber⟩
    refine ⟨hsize, a.key.length_bytes, Base32.decode?_eq_some_iff.mpr ⟨hdigits, ?_, ?_⟩⟩
    · rw [hsize]
      exact a.length_keyAndChecksum
    · rw [hsize]
      exact hnumber

theorem number_text (a : Address) :
    Base32.number a.text.toList = Bytes.toNat (a.key.bytes ++ a.checksum) * 4 := by
  rw [text, Base32.number_encode, length_keyAndChecksum]
  rfl

/-- The last of the 58 digits holds three bits of the checksum and two zeros. -/
theorem exists_toList_text (a : Address) :
    ∃ body high, high < 8 ∧ a.text.toList = body ++ [Base32.digit (4 * high)] := by
  have hnumber := a.number_text
  obtain ⟨hlen, hdigits, -⟩ := ofText_eq_ok_iff_number.mp a.ofText_text_eq
  cases hlist : a.text.toList using List.reverseRecOn with
  | nil => simp [← String.length_toList, hlist] at hlen
  | append_singleton body c =>
    obtain ⟨n, hn⟩ := Option.isSome_iff_exists.mp (hdigits c (by simp [hlist]))
    have hlt := Base32.value?_lt hn
    rw [hlist, Base32.number_append_singleton, hn, Option.getD_some] at hnumber
    refine ⟨body, n / 4, by omega, ?_⟩
    rw [show 4 * (n / 4) = n by omega, ← Base32.digit_of_value? hn]

theorem ofText_eq_ok_iff_spare {s : String} {a : Address} {body : List Char} {high : Nat}
    (hhigh : high < 8) (htext : a.text.toList = body ++ [Base32.digit (4 * high)]) :
    ofText s = .ok a ↔ ∃ spare < 4, s.toList = body ++ [Base32.digit (4 * high + spare)] := by
  obtain ⟨hlen, hdigits, -⟩ := ofText_eq_ok_iff_number.mp a.ofText_text_eq
  have hnumber := a.number_text
  rw [← String.length_toList, htext, List.length_append] at hlen
  rw [htext, List.forall_mem_append] at hdigits
  rw [htext, Base32.number_append_singleton, Base32.value?_digit (by omega), Option.getD_some]
    at hnumber
  have hrespelled {spare : Nat} (hspare : spare < 4) :
      Base32.number (body ++ [Base32.digit (4 * high + spare)]) =
        Bytes.toNat (a.key.bytes ++ a.checksum) * 4 + spare := by
    rw [Base32.number_append_singleton, Base32.value?_digit (by omega), Option.getD_some]
    omega
  have hlegal {spare : Nat} (hspare : spare < 4) :
      ∀ c ∈ body ++ [Base32.digit (4 * high + spare)], (Base32.value? c).isSome := by
    refine List.forall_mem_append.mpr ⟨hdigits.1, List.forall_mem_singleton.mpr ?_⟩
    rw [Base32.value?_digit (by omega)]
    rfl
  rw [ofText_eq_ok_iff_number]
  constructor
  · -- The bits that are left over say which of the four spellings it is.
    rintro ⟨hsize, hs, hvalue⟩
    generalize hspare : Base32.number s.toList % 4 = spare
    have hlt : spare < 4 := by omega
    refine ⟨spare, hlt, Base32.eq_of_number_eq hs (hlegal hlt) ?_ ?_⟩
    · rw [String.length_toList, hsize, List.length_append, ← hlen]
      rfl
    · rw [hrespelled hlt]
      omega
  · rintro ⟨spare, hspare, hs⟩
    rw [← String.length_toList, hs, hrespelled hspare]
    refine ⟨?_, hlegal hspare, by omega⟩
    rw [List.length_append, ← hlen]
    rfl

/-- The digits whose two lowest bits are zero. -/
theorem digit_mem_iff {high spare : Nat} (hhigh : high < 8) (hspare : spare < 4) :
    Base32.digit (4 * high + spare) ∈ "AEIMQUY4".toList ↔ spare = 0 := by
  have hall : ∀ high < 8, ∀ spare < 4,
      (Base32.digit (4 * high + spare) ∈ "AEIMQUY4".toList ↔ spare = 0) := by decide
  exact hall high hhigh spare hspare

/-- The texts that are read as an address are its text and three others, in which the last
character is one of the next three digits: it holds three bits of the address, and the two bits that
are left are ignored. So a text that is read is the text of the address if these are zero in its
last character. -/
theorem ofText_spellings (a : Address) :
    ∃ (body : List Char) (high : Nat), high < 8 ∧
      a.text.toList = body ++ [Base32.digit (4 * high)] ∧
      (∀ s : String, ofText s = .ok a ↔
        ∃ spare < 4, s.toList = body ++ [Base32.digit (4 * high + spare)]) ∧
      ∀ s : String, ofText s = .ok a →
        (a.text = s ↔ ∃ c ∈ "AEIMQUY4".toList, s.toList.getLast? = some c) := by
  obtain ⟨body, high, hhigh, htext⟩ := a.exists_toList_text
  refine ⟨body, high, hhigh, htext, fun s => ofText_eq_ok_iff_spare hhigh htext, fun s h => ?_⟩
  obtain ⟨spare, hspare, hs⟩ := (ofText_eq_ok_iff_spare hhigh htext).mp h
  have hlast : (∃ c ∈ "AEIMQUY4".toList, s.toList.getLast? = some c) ↔ spare = 0 := by
    rw [hs, List.getLast?_concat, ← digit_mem_iff hhigh hspare]
    simp only [Option.some.injEq, exists_eq_right']
  rw [hlast, ← String.toList_inj, htext, hs, List.append_cancel_left_eq, List.singleton_inj]
  constructor
  · intro hdigit
    have hvalue := congrArg Base32.value? hdigit
    rw [Base32.value?_digit (by omega), Base32.value?_digit (by omega), Option.some.injEq] at hvalue
    omega
  · rintro rfl
    rfl

/-- The zero address under its text and under the next spelling. -/
theorem ofText_two_spellings :
    let text := "AAAAAAAAAAAAAAAAAAAAAAAAAAAAAAAAAAAAAAAAAAAAAAAAAAAAY5HFKQ"
    let other := "AAAAAAAAAAAAAAAAAAAAAAAAAAAAAAAAAAAAAAAAAAAAAAAAAAAAY5HFKR"
    Address.zero.text = text ∧ text ≠ other ∧ ofText text = .ok .zero ∧ ofText other = .ok .zero := by
  intro text other
  have htext : Address.zero.text = text := by decide +kernel
  have hother : ofText other = .ok .zero := by decide +kernel
  refine ⟨htext, by decide, ?_, hother⟩
  rw [← htext]
  exact ofText_text_eq .zero

end AppLedger.Address
