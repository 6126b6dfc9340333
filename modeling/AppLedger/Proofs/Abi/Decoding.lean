import AppLedger.Proofs.Abi.Encoding
import AppLedger.Proofs.Abi.Splitting
import AppLedger.Proofs.Bytes

/-! What the bytes look like that a value is read from. An array is read, and laid out, as a tuple
of so many items of one type. -/

namespace AppLedger.Abi.Ty

theorem decodeUint_eq_ok {size : BitSize} {b : Bytes} {v : Value} (h : decodeUint size b = .ok v) :
    b.length = size.width ∧ v = .uint (Bytes.toNat b) := by
  unfold decodeUint at h
  split at h
  · next hlen => exact ⟨hlen, (Except.ok.inj h).symm⟩
  · simp at h

theorem toNat_lt_of_length {size : BitSize} {b : Bytes} (h : b.length = size.width) :
    Bytes.toNat b < 1 <<< size.bits := by
  rw [← size.eight_mul_width, ← h]
  exact Bytes.toNat_lt b

theorem decodeAddress_eq_ok {b : Bytes} {v : Value} (h : decodeAddress b = .ok v) :
    b.length = 32 ∧ v = .address (addressText b) := by
  unfold decodeAddress at h
  split at h
  · next hlen => exact ⟨hlen, (Except.ok.inj h).symm⟩
  · simp at h

theorem decodeString_eq_ok {b : Bytes} {v : Value} (h : decodeString b = .ok v) :
    ∃ s, v = .string s ∧ s.utf8ByteSize < UInt16.size ∧
      b = Bytes.ofNat 2 s.utf8ByteSize ++ Bytes.ofText s := by
  match b, h with
  | hi :: lo :: content, h =>
    rw [decodeString] at h
    split at h
    · simp at h
    · next hlen =>
      split at h
      · next s hs =>
        obtain rfl := Bytes.ofText_of_toText? hs
        have hsize : s.utf8ByteSize = Bytes.toNat [hi, lo] := by
          rw [← Bytes.length_ofText]
          exact not_not.mp hlen
        refine ⟨s, (Except.ok.inj h).symm, ?_, ?_⟩
        · rw [hsize]
          exact Bytes.toNat_lt [hi, lo]
        · rw [hsize]
          exact congrArg (· ++ _) (Bytes.ofNat_toNat [hi, lo]).symm
      · simp at h

theorem decodeByte_eq_ok {b : Bytes} {v : Value} (h : decodeByte b = .ok v) :
    ∃ byte, b = [byte] ∧ v = .byte byte := by
  unfold decodeByte at h
  split at h
  · exact ⟨_, rfl, (Except.ok.inj h).symm⟩
  · simp at h

theorem decodeBool_eq_ok {b : Bytes} {v : Value} (h : decodeBool b = .ok v) :
    ∃ bit, b = boolBytes bit ∧ v = .bool bit := by
  unfold decodeBool at h
  split at h
  · split at h
    · next hbyte => exact ⟨true, by rw [hbyte]; rfl, (Except.ok.inj h).symm⟩
    · split at h
      · next hbyte => exact ⟨false, by rw [hbyte]; rfl, (Except.ok.inj h).symm⟩
      · simp at h
  · simp at h

theorem shapes_replicate (n : Nat) (item : Ty) :
    shapes (List.replicate n item) = List.replicate n item.shape := by
  induction n with
  | zero => rfl
  | succ n ih => rw [List.replicate_succ, shapes, ih, List.replicate_succ, shape]

theorem length_shapes (items : List Ty) : (shapes items).length = items.length := by
  induction items with
  | nil => rfl
  | cons item items ih => rw [shapes, List.length_cons, List.length_cons, ih]

theorem decodeItems_replicate {item : Ty} {n : Nat} {encs : List Bytes} (h : encs.length = n) :
    decodeItems (List.replicate n item) encs = encs.mapM item.decode := by
  induction encs generalizing n with
  | nil =>
    obtain rfl := h
    rfl
  | cons enc encs ih =>
    obtain rfl := h
    rw [List.length_cons, List.replicate_succ, decodeItems, ih rfl, List.mapM_cons]

theorem encodeCells_replicate (item : Ty) (vs : List Value) :
    encodeCells (List.replicate vs.length item) vs = arrayCells item vs := by
  induction vs with
  | nil => rfl
  | cons v vs ih =>
    rw [List.length_cons, List.replicate_succ, encodeCells, ih, arrayCells, arrayCells,
      List.mapM_cons]

theorem decode_tuple_replicate {item : Ty} {n : Nat} {b : Bytes} :
    (Ty.tuple (List.replicate n item)).decode b = do
      let encs ← Abi.splitItems (List.replicate n item.shape) b
      return .array (← encs.mapM item.decode) := by
  rw [decode, shapes_replicate]
  cases h : Abi.splitItems (List.replicate n item.shape) b with
  | error why => rfl
  | ok encs =>
    have hlen : encs.length = n := by rw [length_splitItems h, List.length_replicate]
    simp only [bind, Except.bind, decodeItems_replicate hlen]

theorem decode_static (item : Ty) (length : UInt64) (b : Bytes) :
    (Ty.static item length).decode b = (Ty.tuple (List.replicate length.toNat item)).decode b := by
  rw [decode_tuple_replicate, decode]

theorem decode_dynamic (item : Ty) (hi lo : UInt8) (b : Bytes) :
    (Ty.dynamic item).decode (hi :: lo :: b) =
      (Ty.tuple (List.replicate (Bytes.toNat [hi, lo]) item)).decode b := by
  rw [decode_tuple_replicate, decode]

theorem encode_tuple_replicate {item : Ty} {n : Nat} {vs : List Value} (h : vs.length = n) :
    (Ty.tuple (List.replicate n item)).encode (.array vs) = arrayCells item vs >>= layOut := by
  obtain rfl := h
  rw [encode, List.length_replicate, if_neg (by simp), encodeCells_replicate]

theorem encode_static {item : Ty} {length : UInt64} {vs : List Value}
    (h : vs.length = length.toNat) :
    (Ty.static item length).encode (.array vs) =
      (Ty.tuple (List.replicate length.toNat item)).encode (.array vs) := by
  rw [encode_tuple_replicate h, encode, if_neg (by simp [h])]
  rfl

theorem encode_dynamic {item : Ty} {vs : List Value} (h : vs.length < UInt16.size) :
    (Ty.dynamic item).encode (.array vs) = do
      let b ← (Ty.tuple (List.replicate vs.length item)).encode (.array vs)
      return Bytes.ofNat 2 vs.length ++ b := by
  rw [encode_tuple_replicate rfl, encode, if_neg (by omega)]
  simp only [arrayCells, bind_assoc]

/-- The values are read from the encodings, one by one, at the types. -/
inductive DecodesEach : List Ty → List Bytes → List Value → Prop
  | nil : DecodesEach [] [] []
  | cons {item : Ty} {items : List Ty} {enc : Bytes} {encs : List Bytes} {v : Value}
      {vs : List Value} (hv : item.decode enc = .ok v) (h : DecodesEach items encs vs) :
      DecodesEach (item :: items) (enc :: encs) (v :: vs)

theorem DecodesEach.length_eq {items : List Ty} {encs : List Bytes} {vs : List Value}
    (h : DecodesEach items encs vs) : vs.length = items.length := by
  induction h with
  | nil => rfl
  | cons _ _ ih => rw [List.length_cons, List.length_cons, ih]

theorem decodesEach_of_decodeItems {items : List Ty} {encs : List Bytes} {vs : List Value}
    (hlen : encs.length = items.length) (h : decodeItems items encs = .ok vs) :
    DecodesEach items encs vs := by
  induction items generalizing encs vs with
  | nil =>
    obtain rfl := List.length_eq_zero_iff.mp hlen
    obtain rfl : vs = [] := by simpa [decodeItems] using h.symm
    exact .nil
  | cons item items ih =>
    cases encs with
    | nil => simp at hlen
    | cons enc encs =>
      obtain ⟨v, hv, h⟩ := bind_eq_ok.mp h
      obtain ⟨vs, hvs, h⟩ := bind_eq_ok.mp h
      obtain rfl := Except.ok.inj h
      exact .cons hv (ih (by simpa using hlen) hvs)

theorem decode_tuple_eq_ok {items : List Ty} {b : Bytes} {v : Value}
    (h : (Ty.tuple items).decode b = .ok v) :
    ∃ encs vs, Abi.splitItems (shapes items) b = .ok encs ∧ DecodesEach items encs vs ∧
      v = .array vs := by
  rw [decode] at h
  obtain ⟨encs, hencs, h⟩ := bind_eq_ok.mp h
  obtain ⟨vs, hvs, h⟩ := bind_eq_ok.mp h
  have hlen : encs.length = items.length := by rw [length_splitItems hencs, length_shapes]
  exact ⟨encs, vs, hencs, decodesEach_of_decodeItems hlen hvs, (Except.ok.inj h).symm⟩

theorem decode_static_eq_ok {item : Ty} {length : UInt64} {b : Bytes} {v : Value}
    (h : (Ty.static item length).decode b = .ok v) :
    ∃ vs, v = .array vs ∧ vs.length = length.toNat ∧
      (Ty.tuple (List.replicate length.toNat item)).decode b = .ok (.array vs) := by
  rw [decode_static] at h
  obtain ⟨encs, vs, -, hdecodes, rfl⟩ := decode_tuple_eq_ok h
  exact ⟨vs, rfl, by rw [hdecodes.length_eq, List.length_replicate], h⟩

/-- The number of items stands before them. -/
theorem decode_dynamic_eq_ok {item : Ty} {b : Bytes} {v : Value}
    (h : (Ty.dynamic item).decode b = .ok v) :
    ∃ hi lo rest vs, b = hi :: lo :: rest ∧ v = .array vs ∧ vs.length = Bytes.toNat [hi, lo] ∧
      (Ty.tuple (List.replicate vs.length item)).decode rest = .ok (.array vs) := by
  match b, h with
  | hi :: lo :: rest, h =>
    rw [decode_dynamic] at h
    obtain ⟨encs, vs, -, hdecodes, rfl⟩ := decode_tuple_eq_ok h
    have hlen : vs.length = Bytes.toNat [hi, lo] := by
      rw [hdecodes.length_eq, List.length_replicate]
    exact ⟨hi, lo, rest, vs, rfl, rfl, hlen, by rw [hlen]; exact h⟩

end AppLedger.Abi.Ty
