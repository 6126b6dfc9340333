import AppLedger.Abi.AddressText
import AppLedger.Proofs.Text.Base32

/-! The text that is written for a key is read as that key, and any other text of the key can be
replaced by it. -/

namespace AppLedger.Abi

@[simp] theorem length_keyChecksum (key : Bytes) : (keyChecksum key).length = 4 := by
  simp [keyChecksum]

theorem length_addressText {key : Bytes} (h : key.length = 32) : (addressText key).length = 58 := by
  simp [addressText, Text.Base32.encode, Text.Base32.length_encodeFrom, h]

/-- The text of an address has 58 characters, which hold the bytes of the key and its checksum. -/
theorem addressKey_eq_ok_iff {text : String} {key : Bytes} :
    addressKey text = .ok key ↔ text.length = 58 ∧ key.length = 32 ∧
      Text.Base32.decode? text = some (key ++ keyChecksum key) := by
  constructor
  · intro h
    unfold addressKey at h
    split at h
    · simp at h
    · next hsize =>
      split at h
      · simp at h
      · next b hb =>
        have hlen := Text.Base32.length_of_decode? hb
        split at h
        · next hchecksum =>
          obtain rfl := Except.ok.inj h
          refine ⟨?_, ?_, ?_⟩
          · rw [← Text.Base32.utf8ByteSize_of_decode? hb]
            omega
          · rw [List.length_take]
            omega
          · rw [← hchecksum, List.take_append_drop, hb]
        · simp at h
  · rintro ⟨hlen, hkey, hdecode⟩
    have hsize := Text.Base32.utf8ByteSize_of_decode? hdecode
    have htake : (key ++ keyChecksum key).take 32 = key := List.take_left' hkey
    have hdrop : (key ++ keyChecksum key).drop 32 = keyChecksum key := List.drop_left' hkey
    simp [addressKey, hsize, hlen, hdecode, htake, hdrop]

theorem addressKey_addressText {key : Bytes} (h : key.length = 32) :
    addressKey (addressText key) = .ok key :=
  addressKey_eq_ok_iff.mpr ⟨length_addressText h, h, Text.Base32.decode?_encode _⟩

theorem length_of_addressKey {text : String} {key : Bytes} (h : addressKey text = .ok key) :
    key.length = 32 :=
  (addressKey_eq_ok_iff.mp h).2.1

/-- The text that is written for the key of an address, in place of another text of that key. -/
def canonicalText (text : String) : String :=
  match addressKey text with
  | .ok key => addressText key
  | .error _ => text

theorem canonicalText_of_addressKey {text : String} {key : Bytes} (h : addressKey text = .ok key) :
    canonicalText text = addressText key := by
  simp only [canonicalText, h]

end AppLedger.Abi
