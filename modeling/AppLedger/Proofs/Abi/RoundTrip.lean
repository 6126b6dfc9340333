import AppLedger.Proofs.Abi.Encoding
import AppLedger.Proofs.Bytes

/-! Decoding gives back the value that was encoded. Only the texts of its addresses can change:
each becomes the text that is written for its key. -/

namespace AppLedger.Abi

namespace Value

mutual

/-- The value with the text that is written for each address in it. -/
def canonical : Value → Value
  | .address text => .address (canonicalText text)
  | .array items => .array (canonicalItems items)
  | v => v

def canonicalItems : List Value → List Value
  | [] => []
  | v :: vs => v.canonical :: canonicalItems vs

end

mutual

/-- The texts of the addresses in a value. -/
def addresses : Value → List String
  | .address text => [text]
  | .array items => itemAddresses items
  | _ => []

def itemAddresses : List Value → List String
  | [] => []
  | v :: vs => v.addresses ++ itemAddresses vs

end

theorem canonicalItems_eq_map (vs : List Value) : canonicalItems vs = vs.map canonical := by
  induction vs with
  | nil => rfl
  | cons v vs ih => rw [canonicalItems, ih, List.map_cons]

mutual

theorem canonical_eq_self_iff :
    ∀ {v : Value}, v.canonical = v ↔ ∀ text ∈ v.addresses, canonicalText text = text
  | .bool _ | .uint _ | .string _ | .byte _ => by simp [canonical, addresses]
  | .address text => by simp [canonical, addresses]
  | .array items => by
    rw [canonical, Value.array.injEq, canonicalItems_eq_self_iff]
    rfl

theorem canonicalItems_eq_self_iff : ∀ {vs : List Value},
    canonicalItems vs = vs ↔ ∀ text ∈ itemAddresses vs, canonicalText text = text
  | [] => by simp [canonicalItems, itemAddresses]
  | v :: vs => by
    rw [canonicalItems, List.cons.injEq, canonical_eq_self_iff, canonicalItems_eq_self_iff,
      itemAddresses, List.forall_mem_append]

end

end Value

namespace Ty

/-- Decoding gives back the value, in which every address is the text of a key. -/
def Restores (ty : Ty) (v : Value) (b : Bytes) : Prop :=
  ty.decode b = .ok v.canonical ∧ ∀ text ∈ v.addresses, ∃ key, addressKey text = .ok key

theorem restores_uint {size : BitSize} {v : Value} {b : Bytes} (h : encodeUint size v = .ok b) :
    (Ty.uint size).Restores v b := by
  cases v with
  | uint n =>
    rw [encodeUint] at h
    split at h
    · next hn =>
      obtain rfl := Except.ok.inj h
      refine ⟨?_, by simp [Value.addresses]⟩
      rw [decode, decodeUint, if_pos (Bytes.length_ofNat ..), Bytes.toNat_ofNat (by rwa [size.eight_mul_width])]
      rfl
    · simp at h
  | _ => simp [encodeUint] at h

theorem restores_address {v : Value} {b : Bytes} (h : encodeAddress v = .ok b) :
    Ty.address.Restores v b := by
  obtain ⟨text, rfl, hkey⟩ := encodeAddress_eq_ok h
  refine ⟨?_, by simp [Value.addresses, hkey]⟩
  rw [decode, decodeAddress, if_pos (length_of_addressKey hkey), Value.canonical,
    canonicalText_of_addressKey hkey]

theorem restores_string {v : Value} {b : Bytes} (h : encodeString v = .ok b) :
    Ty.string.Restores v b := by
  cases v with
  | string s =>
    rw [encodeString] at h
    split at h
    · next hs =>
      obtain rfl := Except.ok.inj h
      refine ⟨?_, by simp [Value.addresses]⟩
      have hsize : Bytes.toNat (Bytes.ofNat 2 s.utf8ByteSize) = s.utf8ByteSize :=
        Bytes.toNat_ofNat hs
      have hlen : (Bytes.ofText s).length = s.utf8ByteSize := Bytes.length_ofText s
      simp only [Bytes.ofNat, List.nil_append, List.singleton_append] at hsize
      simp only [decode, decodeString, Bytes.ofNat, List.nil_append, List.cons_append, hsize, hlen,
        ne_eq, not_true_eq_false, if_false, Bytes.toText?_ofText, Value.canonical]
    · simp at h
  | _ => simp [encodeString] at h

theorem restores_byte {v : Value} {b : Bytes} (h : encodeByte v = .ok b) :
    Ty.byte.Restores v b := by
  obtain ⟨byte, rfl, rfl⟩ := encodeByte_eq_ok h
  refine ⟨?_, by simp [Value.addresses]⟩
  simp only [decode, decodeByte, Value.canonical]

theorem restores_bool {v : Value} {b : Bytes} (h : encodeBool v = .ok b) :
    Ty.bool.Restores v b := by
  obtain ⟨bit, rfl, rfl⟩ := encodeBool_eq_ok h
  refine ⟨?_, by simp [Value.addresses]⟩
  cases bit <;> simp [decode, decodeBool, boolBytes, Value.canonical]

theorem decodeItems_cells {items : List Ty}
    (hitems : ∀ item ∈ items, ∀ v b, item.encode v = .ok b → item.Restores v b)
    {vs : List Value} {cells : List Cell} (hlen : items.length = vs.length)
    (h : encodeCells items vs = .ok cells) :
    decodeItems items (cells.map Cell.bytes) = .ok (Value.canonicalItems vs) ∧
      ∀ text ∈ Value.itemAddresses vs, ∃ key, addressKey text = .ok key := by
  induction items generalizing vs cells with
  | nil =>
    obtain rfl := List.length_eq_zero_iff.mp hlen.symm
    exact ⟨rfl, by simp [Value.itemAddresses]⟩
  | cons item items ih =>
    cases vs with
    | nil => simp at hlen
    | cons v vs =>
      obtain ⟨c, hc, h⟩ := bind_eq_ok.mp h
      obtain ⟨rest, hrest, h⟩ := bind_eq_ok.mp h
      obtain rfl := Except.ok.inj h
      obtain ⟨hv, haddr⟩ := hitems item (by simp) v c.bytes (cell_eq_ok item.sized hc).2
      obtain ⟨hvs, haddrs⟩ :=
        ih (fun i hi => hitems i (by simp [hi])) (by simpa using hlen) hrest
      refine ⟨?_, ?_⟩
      · rw [List.map_cons, decodeItems, hv, hvs, Value.canonicalItems]
        rfl
      · intro text htext
        rcases List.mem_append.mp htext with ht | ht
        · exact haddr text ht
        · exact haddrs text ht

theorem decode_arrayCells {item : Ty} (hitem : ∀ v b, item.encode v = .ok b → item.Restores v b)
    {vs : List Value} {cells : List Cell} (h : arrayCells item vs = .ok cells) :
    (cells.map Cell.bytes).mapM item.decode = .ok (Value.canonicalItems vs) ∧
      ∀ text ∈ Value.itemAddresses vs, ∃ key, addressKey text = .ok key := by
  have hall := mapM_eq_ok.mp h
  clear h
  induction hall with
  | nil => exact ⟨rfl, by simp [Value.itemAddresses]⟩
  | cons hc _ ih =>
    obtain ⟨hv, haddr⟩ := hitem _ _ (cell_eq_ok item.sized hc).2
    refine ⟨?_, ?_⟩
    · rw [List.map_cons, List.mapM_cons, hv, ih.1, Value.canonicalItems]
      rfl
    · intro text htext
      rcases List.mem_append.mp htext with ht | ht
      · exact haddr text ht
      · exact ih.2 text ht

theorem restores_of_encode {ty : Ty} {v : Value} {b : Bytes} (h : ty.encode v = .ok b) :
    ty.Restores v b := by
  induction ty using Ty.induction generalizing v b with
  | uint size => exact restores_uint h
  | address => exact restores_address h
  | tuple items ih =>
    obtain ⟨vs, cells, rfl, hlen, hcells, hlay⟩ := encode_tuple_eq_ok h
    have hsplit := splitItems_layOut hlay
    rw [shapes_of_encodeCells (fun item _ => item.sized) hlen hcells] at hsplit
    obtain ⟨hdecode, haddr⟩ := decodeItems_cells (fun item hi _ _ => ih item hi) hlen hcells
    refine ⟨?_, haddr⟩
    rw [decode, hsplit]
    simp only [bind, Except.bind, hdecode]
    rfl
  | string => exact restores_string h
  | byte => exact restores_byte h
  | bool => exact restores_bool h
  | static item length ih =>
    obtain ⟨vs, cells, rfl, hlen, hcells, hlay⟩ := encode_static_eq_ok h
    have hsplit := splitItems_layOut hlay
    rw [shapes_of_arrayCells item.sized hcells, hlen] at hsplit
    obtain ⟨hdecode, haddr⟩ := decode_arrayCells (fun _ _ => ih) hcells
    refine ⟨?_, haddr⟩
    rw [decode, hsplit]
    simp only [bind, Except.bind, hdecode]
    rfl
  | dynamic item ih =>
    obtain ⟨vs, cells, rest, rfl, hlen, hcells, hlay, rfl⟩ := encode_dynamic_eq_ok h
    have hsplit := splitItems_layOut hlay
    rw [shapes_of_arrayCells item.sized hcells] at hsplit
    obtain ⟨hdecode, haddr⟩ := decode_arrayCells (fun _ _ => ih) hcells
    have hcount : Bytes.toNat (Bytes.ofNat 2 vs.length) = vs.length := Bytes.toNat_ofNat hlen
    simp only [Bytes.ofNat, List.nil_append, List.singleton_append] at hcount
    refine ⟨?_, haddr⟩
    simp only [Bytes.ofNat, List.nil_append, List.cons_append, decode, hcount, hsplit, bind,
      Except.bind, hdecode]
    rfl

/-- The value comes back with its addresses in the text that is written for their keys. -/
theorem decode_encode {ty : Ty} {v : Value} {b : Bytes} (h : ty.encode v = .ok b) :
    ty.decode b = .ok v.canonical ∧
      (∀ text ∈ v.addresses, ∃ key, key.length = 32 ∧ addressKey text = .ok key ∧
        canonicalText text = addressText key ∧ (canonicalText text).length = 58 ∧
        addressKey (canonicalText text) = .ok key) ∧
      (v.canonical = v ↔ ∀ text ∈ v.addresses, canonicalText text = text) := by
  obtain ⟨hdecode, haddr⟩ := restores_of_encode h
  refine ⟨hdecode, ?_, Value.canonical_eq_self_iff⟩
  intro text htext
  obtain ⟨key, hkey⟩ := haddr text htext
  have hlen := length_of_addressKey hkey
  refine ⟨key, hlen, hkey, canonicalText_of_addressKey hkey, ?_, ?_⟩
  · rw [canonicalText_of_addressKey hkey, length_addressText hlen]
  · rw [canonicalText_of_addressKey hkey, addressKey_addressText hlen]

/-- Booleans on both sides of an address, a run of nine of them inside an item of an array, an
array without items, and an address whose last digit holds two bits more than its key. -/
theorem decode_encode_packed :
    let text := "AAAAAAAAAAAAAAAAAAAAAAAAAAAAAAAAAAAAAAAAAAAAAAAAAAAAY5HFKR"
    let ty : Ty := .tuple [.bool, .string, .address, .bool, .bool,
      .dynamic (.tuple [.static .bool 9, .string]), .static .string 0]
    let v : Value := .array [.bool true, .string "é", .address text, .bool false, .bool true,
      .array [.array [.array (List.replicate 9 (.bool true)), .string "x"]], .array []]
    let b : Bytes := [128, 0, 40] ++ List.replicate 32 0 ++ [64, 0, 44, 0, 55, 0, 2, 195, 169,
      0, 1, 0, 2, 255, 128, 0, 4, 0, 1, 120]
    ty.encode v = .ok b ∧ ty.decode b = .ok v.canonical ∧ canonicalText text ≠ text := by
  intro text ty v b
  have hencode : ty.encode v = .ok b := by decide +kernel
  exact ⟨hencode, (decode_encode hencode).1, by decide +kernel⟩

end Ty

end AppLedger.Abi
