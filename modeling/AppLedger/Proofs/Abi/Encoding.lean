import AppLedger.Abi.Codec
import AppLedger.Proofs.Abi.AddressText
import AppLedger.Proofs.Abi.Layout
import AppLedger.Proofs.Abi.Ty

/-! What a value that can be encoded looks like, and the cells of its items. An encoding is as long
as the size of its type says, where the type has one. -/

namespace AppLedger.Abi.Ty

theorem length_encodeUint {size : BitSize} {v : Value} {b : Bytes}
    (h : encodeUint size v = .ok b) : b.length = size.width := by
  unfold encodeUint at h
  split at h
  · split at h
    · obtain rfl := Except.ok.inj h
      exact Bytes.length_ofNat ..
    · simp at h
  · simp at h

theorem encodeAddress_eq_ok {v : Value} {b : Bytes} (h : encodeAddress v = .ok b) :
    ∃ text, v = .address text ∧ addressKey text = .ok b := by
  unfold encodeAddress at h
  split at h
  · exact ⟨_, rfl, mapError_eq_ok.mp h⟩
  · simp at h

theorem encodeByte_eq_ok {v : Value} {b : Bytes} (h : encodeByte v = .ok b) :
    ∃ byte, v = .byte byte ∧ b = [byte] := by
  unfold encodeByte at h
  split at h
  · exact ⟨_, rfl, (Except.ok.inj h).symm⟩
  · simp at h

theorem encodeBool_eq_ok {v : Value} {b : Bytes} (h : encodeBool v = .ok b) :
    ∃ bit, v = .bool bit ∧ b = boolBytes bit := by
  unfold encodeBool at h
  split at h
  · exact ⟨_, rfl, (Except.ok.inj h).symm⟩
  · simp at h

theorem encode_tuple_eq_ok {items : List Ty} {v : Value} {b : Bytes}
    (h : (Ty.tuple items).encode v = .ok b) :
    ∃ vs cells, v = .array vs ∧ items.length = vs.length ∧ encodeCells items vs = .ok cells ∧
      layOut cells = .ok b := by
  cases v with
  | array vs =>
    rw [encode] at h
    split at h
    · exact absurd h throw_bind_ne_ok
    · next hlen =>
      obtain ⟨cells, hcells, h⟩ := bind_eq_ok.mp h
      exact ⟨vs, cells, rfl, by simpa using hlen, hcells, h⟩
  | _ => simp [encode] at h

/-- The cells of the items of an array. -/
def arrayCells (item : Ty) (vs : List Value) : Except Error (List Cell) :=
  vs.mapM fun v => item.cell v (item.encode v)

theorem encode_static_eq_ok {item : Ty} {length : UInt64} {v : Value} {b : Bytes}
    (h : (Ty.static item length).encode v = .ok b) :
    ∃ vs cells, v = .array vs ∧ vs.length = length.toNat ∧ arrayCells item vs = .ok cells ∧
      layOut cells = .ok b := by
  cases v with
  | array vs =>
    rw [encode] at h
    split at h
    · exact absurd h throw_bind_ne_ok
    · next hlen =>
      obtain ⟨cells, hcells, h⟩ := bind_eq_ok.mp h
      exact ⟨vs, cells, rfl, by simpa using hlen, hcells, h⟩
  | _ => simp [encode] at h

theorem encode_dynamic_eq_ok {item : Ty} {v : Value} {b : Bytes}
    (h : (Ty.dynamic item).encode v = .ok b) :
    ∃ vs cells rest, v = .array vs ∧ vs.length < UInt16.size ∧ arrayCells item vs = .ok cells ∧
      layOut cells = .ok rest ∧ b = Bytes.ofNat 2 vs.length ++ rest := by
  cases v with
  | array vs =>
    rw [encode] at h
    split at h
    · exact absurd h throw_bind_ne_ok
    · next hlen =>
      obtain ⟨cells, hcells, h⟩ := bind_eq_ok.mp h
      obtain ⟨rest, hrest, h⟩ := bind_eq_ok.mp h
      exact ⟨vs, cells, rest, rfl, by simpa using hlen, hcells, hrest, (Except.ok.inj h).symm⟩
  | _ => simp [encode] at h

/-- All encodings of the type have its size, if it has one. -/
def Sized (ty : Ty) : Prop :=
  ∀ v b, ty.encode v = .ok b → ∀ size, ty.size? = some size → b.length = size

/-- A cell holds the encoding of its item, and has the shape of the item's type. -/
theorem cell_eq_ok {ty : Ty} (hty : ty.Sized) {v : Value} {c : Cell}
    (h : ty.cell v (ty.encode v) = .ok c) : c.shape = ty.shape ∧ ty.encode v = .ok c.bytes := by
  unfold cell at h
  split at h
  · next hs =>
    obtain rfl := shape_eq_bit hs
    split at h
    · obtain rfl := Except.ok.inj h
      exact ⟨rfl, rfl⟩
    · simp at h
  · next size hs =>
    obtain ⟨bytes, hb, rfl⟩ := map_eq_ok.mp h
    refine ⟨?_, hb⟩
    rw [hs, Cell.shape, hty v bytes hb size (size?_of_shape hs)]
  · next hs =>
    obtain ⟨bytes, hb, rfl⟩ := map_eq_ok.mp h
    exact ⟨hs.symm, hb⟩

theorem shapes_of_encodeCells {items : List Ty} (hitems : ∀ item ∈ items, item.Sized)
    {vs : List Value} {cells : List Cell} (hlen : items.length = vs.length)
    (h : encodeCells items vs = .ok cells) : cells.map Cell.shape = shapes items := by
  induction items generalizing vs cells with
  | nil =>
    obtain rfl : cells = [] := by simpa [encodeCells] using h.symm
    rfl
  | cons item items ih =>
    cases vs with
    | nil => simp at hlen
    | cons v vs =>
      obtain ⟨c, hc, h⟩ := bind_eq_ok.mp h
      obtain ⟨rest, hrest, h⟩ := bind_eq_ok.mp h
      obtain rfl := Except.ok.inj h
      have hi := ih (fun i hi => hitems i (by simp [hi])) (by simpa using hlen) hrest
      rw [List.map_cons, hi, (cell_eq_ok (hitems item (by simp)) hc).1, shapes, shape]

theorem shapes_of_arrayCells {item : Ty} (hitem : item.Sized) {vs : List Value}
    {cells : List Cell} (h : arrayCells item vs = .ok cells) :
    cells.map Cell.shape = List.replicate vs.length item.shape := by
  have hall := mapM_eq_ok.mp h
  clear h
  induction hall with
  | nil => rfl
  | cons hc _ ih => rw [List.map_cons, ih, (cell_eq_ok hitem hc).1, List.length_cons,
      List.replicate_succ]

theorem sized (ty : Ty) : ty.Sized := by
  induction ty using Ty.induction with
  | uint size =>
    intro v b h n hn
    obtain rfl := Option.some.inj hn
    exact length_encodeUint h
  | address =>
    intro v b h n hn
    obtain rfl := Option.some.inj hn
    obtain ⟨text, -, hkey⟩ := encodeAddress_eq_ok h
    exact length_of_addressKey hkey
  | tuple items ih =>
    intro v b h n hn
    obtain ⟨vs, cells, rfl, hlen, hcells, hlay⟩ := encode_tuple_eq_ok h
    refine length_of_layOut hlay ?_
    rw [shapes_of_encodeCells ih hlen hcells]
    exact hn
  | string =>
    intro v b h n hn
    simp [size?] at hn
  | byte =>
    intro v b h n hn
    obtain rfl := Option.some.inj hn
    obtain ⟨byte, -, rfl⟩ := encodeByte_eq_ok h
    rfl
  | bool =>
    intro v b h n hn
    obtain rfl := Option.some.inj hn
    obtain ⟨bit, -, rfl⟩ := encodeBool_eq_ok h
    rfl
  | static item length ih =>
    intro v b h n hn
    obtain ⟨vs, cells, rfl, hlen, hcells, hlay⟩ := encode_static_eq_ok h
    refine length_of_layOut hlay ?_
    rw [shapes_of_arrayCells ih hcells, hlen]
    exact fixedSize?_of_static hn
  | dynamic item ih =>
    intro v b h n hn
    simp [size?] at hn

end AppLedger.Abi.Ty
