import AppLedger.Proofs.Msgpack.Length
import AppLedger.Proofs.Transaction.SignedRoundTrip

/-! The sizes of transactions. With a plain signature around it a transaction is as long as its
estimated size says. -/

namespace AppLedger

open Msgpack Wire

namespace Transaction

variable {t : Transaction}

/-- The fields of the map, of a transaction whose boxes are listed. -/
def entries (t : Transaction) : WireFields :=
  entriesOf t.kind.names t.slots

theorem nodup_keys_entries (t : Transaction) : (keys t.entries).Nodup :=
  (keys_entriesOf_sublist _ _).nodup t.kind.nodup_names

theorem length_sortedWire (t : Transaction) :
    t.sortedWire.encode.length = (mapHeader t.entries.length).length + fieldsLength t.entries :=
  Value.length_encode_sorted t.nodup_keys_entries

theorem estimateSize_of_listed (h : t.BoxesListed) :
    t.estimateSize = .ok (t.sortedWire.encode.length + signatureSize) :=
  map_eq_ok.mpr ⟨_, encodeRaw_of_listed h, rfl⟩

end Transaction

namespace SignedTransaction

/-- Beside the map of the transaction there are the number of entries, two names of three letters,
and the signature after its size. -/
theorem length_canonicalBytes_signature (t : Transaction) (signature : Signature) :
    (canonicalBytes [("txn", .ofFields t.entries), ("sig", .bytes signature.bytes)]).length =
      t.sortedWire.encode.length + Transaction.signatureSize := by
  have htxn : (Value.text "txn").encode.length = 4 := by decide
  have hsig : (Value.text "sig").encode.length = 4 := by decide
  have hvalue : (Value.bytes signature.bytes).sorted.encode.length = 66 := by
    have hsorted : (Value.bytes signature.bytes).sorted = .bytes signature.bytes := rfl
    rw [hsorted, Value.encode, List.length_append, signature.length_bytes]
    rfl
  have hnodup : (keys [("txn", .ofFields t.entries), ("sig", .bytes signature.bytes)]).Nodup :=
    show ["txn", "sig"].Nodup by decide
  rw [canonicalBytes, Value.length_encode_sorted hnodup]
  simp only [fieldsLength, List.map_cons, List.map_nil, Prod.map, id_eq, entriesLength, htxn, hsig,
    hvalue]
  have hcount : (mapHeader 2).length = 1 := rfl
  have hinner : (Value.ofFields t.entries).sorted = t.sortedWire := rfl
  rw [hinner, List.length_cons, List.length_singleton, hcount, Transaction.signatureSize]
  omega

/-- A transaction with a plain signature and nothing else around it is as long as its size is
estimated: as its canonical bytes and the bytes that a signature adds. -/
theorem length_encode_signature {t : Transaction} {b : Bytes} (h : t.encode = .ok b)
    (signature : Signature) :
    let s : SignedTransaction := { signature := some signature, transaction := t }
    ∃ raw c, t.encodeRaw = .ok raw ∧ s.encode = .ok c ∧
      c.length = raw.length + Transaction.signatureSize ∧
      t.estimateSize = .ok c.length ∧ s.estimateSize = .ok c.length := by
  intro s
  have hlisted := Transaction.listed_of_encode h
  have hencode : s.encode = .ok (canonicalBytes
      [("txn", .ofFields t.entries), ("sig", .bytes signature.bytes)]) :=
    map_eq_ok.mpr ⟨_, wire_of_listed hlisted, rfl⟩
  have hlength := length_canonicalBytes_signature t signature
  refine ⟨_, _, Transaction.encodeRaw_of_listed hlisted, hencode, hlength, ?_,
    map_eq_ok.mpr ⟨_, hencode, rfl⟩⟩
  rw [hlength]
  exact Transaction.estimateSize_of_listed hlisted

/-- A call with so many fields that their number needs two bytes more, one of them a box. -/
theorem length_encode_signature_call :
    let header : Header :=
      { sender := ⟨⟨.replicate 32 1, rfl⟩⟩, fee := some 1000, firstValid := 1, lastValid := 1001
        genesisHash := some ⟨.replicate 32 2, rfl⟩, genesisId := some "net", note := some [1]
        rekeyTo := some ⟨⟨.replicate 32 3, rfl⟩⟩, lease := some ⟨.replicate 32 4, rfl⟩
        group := some ⟨.replicate 32 5, rfl⟩ }
    let t : Transaction :=
      .appCall
        { header, app := 7, onComplete := .optIn, args := some [[1, 2, 3, 4]]
          accounts := some [⟨⟨.replicate 32 6, rfl⟩⟩], apps := some [9], boxes := some [⟨9, [1]⟩] }
    let s : SignedTransaction :=
      { signature := some ⟨.replicate 64 8, rfl⟩, transaction := t }
    16 ≤ t.entries.length ∧ (∃ b, t.encode = .ok b) ∧
      ∃ raw c, t.encodeRaw = .ok raw ∧ s.encode = .ok c ∧ c.length = raw.length + 75 ∧
        t.estimateSize = .ok c.length ∧ s.estimateSize = .ok c.length := by
  intro header t s
  have hlisted : t.BoxesListed := by
    simp [t, Transaction.BoxesListed, AppCall.BoxesListed, BoxRef.Listed]
  obtain ⟨b, hb⟩ := Transaction.exists_encode hlisted
  exact ⟨by decide, ⟨b, hb⟩, length_encode_signature hb _⟩

end SignedTransaction

end AppLedger
