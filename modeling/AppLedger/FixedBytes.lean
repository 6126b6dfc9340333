import AppLedger.Bytes

/-! Byte strings of one length. -/

namespace AppLedger

structure FixedBytes (size : Nat) where
  bytes : Bytes
  length_bytes : bytes.length = size
  deriving DecidableEq

namespace FixedBytes

variable {size : Nat}

def ofBytes? (b : Bytes) : Option (FixedBytes size) :=
  if h : b.length = size then some ⟨b, h⟩ else none

def zero : FixedBytes size :=
  ⟨List.replicate size 0, List.length_replicate⟩

def isZero (b : FixedBytes size) : Bool :=
  b.bytes.isZero

instance : Inhabited (FixedBytes size) := ⟨zero⟩

theorem bytes_inj {b b' : FixedBytes size} : b.bytes = b'.bytes ↔ b = b' := by
  obtain ⟨bytes, h⟩ := b
  obtain ⟨bytes', h'⟩ := b'
  rw [mk.injEq]

theorem ofBytes?_bytes (b : FixedBytes size) : ofBytes? b.bytes = some b := by
  simp [ofBytes?, b.length_bytes]

theorem isZero_iff (b : FixedBytes size) : b.isZero = true ↔ b = zero := by
  obtain ⟨bytes, h⟩ := b
  simp only [isZero, Bytes.isZero, zero, mk.injEq, List.all_eq_true, beq_iff_eq,
    List.eq_replicate_iff, h, true_and]

end FixedBytes

end AppLedger
