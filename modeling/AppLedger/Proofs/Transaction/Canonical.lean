import AppLedger.Proofs.Msgpack.Ascending
import AppLedger.Proofs.Transaction.NormalWire
import AppLedger.Proofs.Transaction.RoundTrip

/-! A transaction has one encoding, which it shares with the transactions of the same normal form
only. Its keys are in order, and what is read from it is written in the same way again. -/

namespace AppLedger.Transaction

open Msgpack

variable {t u : Transaction} {b c : Bytes}

theorem encode_eq_of_norm (h : t.norm = u.norm) : t.encode = u.encode := by
  rw [← t.encode_norm, h, u.encode_norm]

theorem decode_bind_encode (hsized : t.Sized) (h : t.encode = .ok b) :
    decode b >>= encode = .ok b :=
  bind_eq_ok.mpr ⟨t.norm, decode_of_encode hsized h, t.encode_norm.trans h⟩

theorem exists_ascending_of_encode (hsized : t.Sized) (h : t.encode = .ok b) :
    ∃ v : Value, b = tag ++ v.encode ∧ decode? v.encode = some v ∧ v.Ascending := by
  have hlisted := listed_of_encode h
  rw [encode_of_listed hlisted] at h
  obtain rfl := Except.ok.inj h
  exact ⟨t.sortedWire, rfl, decode?_sortedWire hsized hlisted, Value.ascending_sorted _⟩

end AppLedger.Transaction
