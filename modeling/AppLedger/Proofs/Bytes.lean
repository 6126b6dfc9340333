import AppLedger.Bytes
import Mathlib.Data.List.Induction

/-! The bytes of a text are read as that text, and the number that bytes stand for is bounded by how
many they are. -/

namespace AppLedger.Bytes

@[simp] theorem length_ofText (s : String) : (ofText s).length = s.utf8ByteSize := by
  rw [ofText, Array.length_toList]
  exact String.size_toByteArray

@[simp] theorem toText?_ofText (s : String) : toText? (ofText s) = some s := by
  have hvalid : s.toByteArray.IsValidUTF8 := s.isValidUTF8
  have hbytes : (⟨(ofText s).toArray⟩ : ByteArray) = s.toByteArray := by
    rw [ofText, Array.toArray_toList]
  rw [toText?, hbytes, String.fromUTF8?, dif_pos hvalid]
  rfl

/-- A text that is read from bytes has these bytes. -/
theorem ofText_of_toText? {b : Bytes} {s : String} (h : toText? b = some s) : ofText s = b := by
  rw [toText?, String.fromUTF8?] at h
  split at h
  · obtain rfl := Option.some.inj h
    rw [ofText]
    rfl
  · simp at h

theorem toNat_lt (b : Bytes) : toNat b < 1 <<< (8 * b.length) := by
  induction b using List.reverseRecOn with
  | nil => decide
  | append_singleton b byte ih =>
    have hbyte := byte.toNat_lt
    rw [toNat_append_singleton, List.length_append, List.length_singleton, Nat.mul_add,
      Nat.shiftLeft_add]
    simp only [Nat.shiftLeft_eq] at ih ⊢
    omega

theorem ofNat_toNat (b : Bytes) : ofNat b.length (toNat b) = b := by
  induction b using List.reverseRecOn with
  | nil => rfl
  | append_singleton b byte ih =>
    have hbyte := byte.toNat_lt
    have hdiv : (toNat b * 256 + byte.toNat) / 256 = toNat b := by omega
    have hlow : UInt8.ofNat (toNat b * 256 + byte.toNat) = byte := by
      rw [← UInt8.toNat_inj, UInt8.toNat_ofNat']
      omega
    rw [toNat_append_singleton, List.length_append, List.length_singleton, ofNat, hdiv, ih, hlow]

end AppLedger.Bytes
