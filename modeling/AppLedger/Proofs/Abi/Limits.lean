import AppLedger.Proofs.Abi.Typing

/-! Which values can be encoded at a type: those of the type in which all that is said in two bytes
can be said so. An offset counts the head and the items behind it that come before. -/

namespace AppLedger.Abi

/-! ## Offsets -/

namespace Shape

/-- The size of what lies behind a head, of items of the sizes. -/
def tailsSize : List Shape → (sizes : List Nat) → Nat
  | .dynamic :: shapes, size :: sizes => size + tailsSize shapes sizes
  | _ :: shapes, _ :: sizes => tailsSize shapes sizes
  | _, _ => 0

def layoutSize (shapes : List Shape) (sizes : List Nat) : Nat :=
  headSize 0 shapes + tailsSize shapes sizes

/-- Where the item at the place starts if it lies behind the head: after the head and the items
behind it that come before. -/
def offset (shapes : List Shape) (sizes : List Nat) (i : Nat) : Nat :=
  headSize 0 shapes + tailsSize (shapes.take i) (sizes.take i)

def OffsetsFit (shapes : List Shape) (sizes : List Nat) : Prop :=
  ∀ i, shapes[i]? = some .dynamic → offset shapes sizes i ≤ 65535

end Shape

namespace Cell

def size (c : Cell) : Nat :=
  c.bytes.length

theorem tailsSize_cells (cells : List Cell) :
    Shape.tailsSize (cells.map shape) (cells.map size) = (cells.flatMap outside).length := by
  induction cells with
  | nil => rfl
  | cons c cells ih => cases c <;> simp [Shape.tailsSize, shape, size, bytes, outside, ih]

end Cell

namespace Slot

variable {position : Nat} {slots : List Slot}

theorem exists_heads_filled {bytes : Bytes} :
    (∃ h, heads position (.filled bytes :: slots) = .ok h) ↔ ∃ h, heads position slots = .ok h := by
  simp [heads, bind_eq_ok, pure, Except.pure]

theorem exists_heads_offset {tail : Bytes} :
    (∃ h, heads position (.offset tail :: slots) = .ok h) ↔
      position ≤ 65535 ∧ ∃ h, heads (position + tail.length) slots = .ok h := by
  have hsize : position < UInt16.size ↔ position ≤ 65535 := Nat.lt_succ_iff
  rw [← hsize]
  by_cases hp : position < UInt16.size
  · simp [heads, hp, bind_eq_ok, pure, Except.pure]
  · simp [heads, hp, throw, throwThe, MonadExceptOf.throw]

theorem exists_heads_ofBits {bits : List Bool} :
    (∃ h, heads position (ofBits bits ++ slots) = .ok h) ↔ ∃ h, heads position slots = .ok h := by
  constructor
  · rintro ⟨h, hh⟩
    obtain ⟨rest, hrest, -⟩ := heads_ofBits_append hh
    exact ⟨rest, hrest⟩
  · rintro ⟨h, hh⟩
    exact ⟨_, heads_ofBits bits hh⟩

/-- A head can be written if it can say where each item behind it starts. -/
theorem exists_heads_ofCells {cells : List Cell} {bits : List Bool} :
    (∃ h, heads position (ofCells bits cells) = .ok h) ↔
      ∀ i, (cells.map Cell.shape)[i]? = some .dynamic →
        position + ((cells.take i).flatMap Cell.outside).length ≤ 65535 := by
  induction cells generalizing bits position with
  | nil =>
    rw [ofCells, ← List.append_nil (ofBits bits), exists_heads_ofBits]
    simp [heads]
  | cons c cells ih =>
    rw [← Nat.and_forall_add_one]
    cases c with
    | bit b =>
      by_cases hfull : bits.length = 7
      · rw [ofCells, if_pos hfull, exists_heads_filled, ih]
        simp [Cell.shape, Cell.outside]
      · rw [ofCells, if_neg hfull, ih]
        simp [Cell.shape, Cell.outside]
    | fixed bytes =>
      rw [ofCells, exists_heads_ofBits, exists_heads_filled, ih]
      simp [Cell.shape, Cell.outside]
    | tail bytes =>
      rw [ofCells, exists_heads_ofBits, exists_heads_offset, ih]
      simp [Cell.shape, Cell.outside, Nat.add_assoc]

end Slot

theorem exists_layOut_iff {cells : List Cell} :
    (∃ b, layOut cells = .ok b) ↔
      Shape.OffsetsFit (cells.map Cell.shape) (cells.map Cell.size) := by
  have hlay : (∃ b, layOut cells = .ok b) ↔
      ∃ h, Slot.heads (Slot.headsSize (Slot.ofCells [] cells)) (Slot.ofCells [] cells) = .ok h := by
    simp [layOut, bind_eq_ok, pure, Except.pure]
  have hsize : Slot.headsSize (Slot.ofCells [] cells) =
      0 + Shape.headSize 0 (cells.map Cell.shape) := headsSize_ofCells (by decide)
  rw [hlay, Slot.exists_heads_ofCells, hsize, Nat.zero_add]
  simp only [Shape.OffsetsFit, Shape.offset, ← List.map_take, Cell.tailsSize_cells]

namespace Ty

/-! ## Sizes and limits -/

mutual

/-- The size of the encoding of a value of the type. -/
def encodedSize : Ty → Value → Nat
  | .uint size, _ => size.width
  | .address, _ => 32
  | .string, .string s => 2 + s.utf8ByteSize
  | .byte, _ | .bool, _ => 1
  | .tuple items, .array vs => Shape.layoutSize (shapes items) (itemSizes items vs)
  | .static item _, .array vs =>
    Shape.layoutSize (List.replicate vs.length item.shape) (vs.map item.encodedSize)
  | .dynamic item, .array vs =>
    2 + Shape.layoutSize (List.replicate vs.length item.shape) (vs.map item.encodedSize)
  | .string, _ | .tuple _, _ | .static _ _, _ | .dynamic _, _ => 0

def itemSizes : List Ty → List Value → List Nat
  | item :: items, v :: vs => item.encodedSize v :: itemSizes items vs
  | _, _ => []

end

mutual

/-- Each number that is said in two bytes is small enough at every level: the bytes of a text, the
items of a dynamic array, and the offset of an item behind a head. -/
def Limited : Ty → Value → Prop
  | .string, .string s => s.utf8ByteSize ≤ 65535
  | .tuple items, .array vs =>
    Shape.OffsetsFit (shapes items) (itemSizes items vs) ∧ LimitedItems items vs
  | .static item _, .array vs =>
    Shape.OffsetsFit (List.replicate vs.length item.shape) (vs.map item.encodedSize) ∧
      ∀ v ∈ vs, item.Limited v
  | .dynamic item, .array vs =>
    vs.length ≤ 65535 ∧
      Shape.OffsetsFit (List.replicate vs.length item.shape) (vs.map item.encodedSize) ∧
      ∀ v ∈ vs, item.Limited v
  | _, _ => True

def LimitedItems : List Ty → List Value → Prop
  | item :: items, v :: vs => item.Limited v ∧ LimitedItems items vs
  | _, _ => True

end

theorem itemSizes_replicate (item : Ty) (vs : List Value) :
    itemSizes (List.replicate vs.length item) vs = vs.map item.encodedSize := by
  induction vs with
  | nil => rfl
  | cons v vs ih => rw [List.length_cons, List.replicate_succ, itemSizes, ih, List.map_cons]

theorem limitedItems_replicate {item : Ty} {vs : List Value} :
    LimitedItems (List.replicate vs.length item) vs ↔ ∀ v ∈ vs, item.Limited v := by
  induction vs with
  | nil => simp [LimitedItems]
  | cons v vs ih => simp [List.replicate_succ, LimitedItems, ih]

/-- The size and the limits of an array are those of a tuple of so many of its items. -/
theorem encodedSize_static (item : Ty) (length : UInt64) (vs : List Value) :
    (Ty.static item length).encodedSize (.array vs) =
      (Ty.tuple (List.replicate vs.length item)).encodedSize (.array vs) := by
  simp only [encodedSize, itemSizes_replicate, shapes_replicate]

theorem encodedSize_dynamic (item : Ty) (vs : List Value) :
    (Ty.dynamic item).encodedSize (.array vs) =
      2 + (Ty.tuple (List.replicate vs.length item)).encodedSize (.array vs) := by
  simp only [encodedSize, itemSizes_replicate, shapes_replicate]

theorem limited_static {item : Ty} {length : UInt64} {vs : List Value} :
    (Ty.static item length).Limited (.array vs) ↔
      (Ty.tuple (List.replicate vs.length item)).Limited (.array vs) := by
  simp only [Limited, itemSizes_replicate, shapes_replicate, limitedItems_replicate]

theorem limited_dynamic {item : Ty} {vs : List Value} :
    (Ty.dynamic item).Limited (.array vs) ↔
      vs.length ≤ 65535 ∧ (Ty.tuple (List.replicate vs.length item)).Limited (.array vs) := by
  simp only [Limited, itemSizes_replicate, shapes_replicate, limitedItems_replicate]

/-! ## What can be encoded -/

/-- What can be encoded at the type are its values within the limits, in as many bytes as their size
says. -/
structure Delimited (ty : Ty) : Prop where
  sound : ∀ v b, ty.encode v = .ok b →
    ty.Inhabits v ∧ ty.Limited v ∧ b.length = ty.encodedSize v
  complete : ∀ v, ty.Inhabits v → ty.Limited v → ∃ b, ty.encode v = .ok b

theorem Delimited.exists_encode_iff {ty : Ty} (h : ty.Delimited) {v : Value} :
    (∃ b, ty.encode v = .ok b) ↔ ty.Inhabits v ∧ ty.Limited v := by
  constructor
  · rintro ⟨b, hb⟩
    obtain ⟨hinhabits, hlimited, -⟩ := h.sound v b hb
    exact ⟨hinhabits, hlimited⟩
  · rintro ⟨hinhabits, hlimited⟩
    exact h.complete v hinhabits hlimited

theorem delimited_uint (size : BitSize) : (Ty.uint size).Delimited where
  sound v b h := by
    refine ⟨?_, trivial, length_encodeUint h⟩
    rw [encode] at h
    cases v with
    | uint n =>
      by_cases hn : n < 1 <<< size.bits
      · exact .uint (Nat.one_shiftLeft _ ▸ hn)
      · simp [encodeUint, hn] at h
    | _ => simp [encodeUint] at h
  complete v hinhabits _ := by
    cases hinhabits with
    | @uint _ n hn =>
      rw [← Nat.one_shiftLeft] at hn
      exact ⟨Bytes.ofNat size.width n, by rw [encode, encodeUint, if_pos hn]⟩

theorem delimited_address : Ty.address.Delimited where
  sound v b h := by
    obtain ⟨text, rfl, hkey⟩ := encodeAddress_eq_ok h
    exact ⟨.address hkey, trivial, length_of_addressKey hkey⟩
  complete v hinhabits _ := by
    cases hinhabits with
    | address hkey => exact ⟨_, mapError_eq_ok.mpr hkey⟩

theorem delimited_string : Ty.string.Delimited where
  sound v b h := by
    rw [encode] at h
    cases v with
    | string s =>
      by_cases hs : s.utf8ByteSize < UInt16.size
      · rw [encodeString, if_pos hs] at h
        obtain rfl := Except.ok.inj h
        refine ⟨.string s, ?_, ?_⟩
        · rw [Limited]
          exact Nat.le_of_lt_succ hs
        · rw [List.length_append, Bytes.length_ofNat, Bytes.length_ofText, encodedSize]
      · simp [encodeString, hs] at h
    | _ => simp [encodeString] at h
  complete v hinhabits hlimited := by
    cases hinhabits with
    | string s =>
      rw [Limited] at hlimited
      exact ⟨Bytes.ofNat 2 s.utf8ByteSize ++ Bytes.ofText s, by
        rw [encode, encodeString, if_pos (Nat.lt_succ_of_le hlimited)]⟩

theorem delimited_byte : Ty.byte.Delimited where
  sound v b h := by
    obtain ⟨byte, rfl, rfl⟩ := encodeByte_eq_ok h
    exact ⟨.byte byte, trivial, rfl⟩
  complete v hinhabits _ := by
    cases hinhabits with
    | byte byte => exact ⟨[byte], rfl⟩

theorem delimited_bool : Ty.bool.Delimited where
  sound v b h := by
    obtain ⟨bit, rfl, rfl⟩ := encodeBool_eq_ok h
    exact ⟨.bool bit, trivial, rfl⟩
  complete v hinhabits _ := by
    cases hinhabits with
    | bool bit => exact ⟨boolBytes bit, rfl⟩

/-! ### Tuples -/

theorem exists_cell {ty : Ty} {v : Value} :
    (∃ c, ty.cell v (ty.encode v) = .ok c) ↔ ∃ b, ty.encode v = .ok b := by
  constructor
  · rintro ⟨c, hc⟩
    exact ⟨_, (cell_eq_ok ty.sized hc).2⟩
  · rintro ⟨b, hb⟩
    unfold cell
    split
    · next hs =>
      obtain rfl := shape_eq_bit hs
      obtain ⟨bit, rfl, -⟩ := encodeBool_eq_ok hb
      exact ⟨_, rfl⟩
    · exact ⟨.fixed b, by rw [hb]; rfl⟩
    · exact ⟨.tail b, by rw [hb]; rfl⟩

theorem exists_encodeCells {items : List Ty} (hitems : ∀ item ∈ items, item.Delimited)
    {vs : List Value} (hlen : items.length = vs.length) :
    (∃ cells, encodeCells items vs = .ok cells) ↔
      List.Forall₂ Inhabits items vs ∧ LimitedItems items vs := by
  induction items generalizing vs with
  | nil =>
    obtain rfl := List.length_eq_zero_iff.mp hlen.symm
    simp [encodeCells, LimitedItems]
  | cons item items ih =>
    cases vs with
    | nil => simp at hlen
    | cons v vs =>
      rw [List.forall_mem_cons] at hitems
      have hrest := ih hitems.2 (Nat.succ.inj hlen)
      have hcells : (∃ cells, encodeCells (item :: items) (v :: vs) = .ok cells) ↔
          (∃ c, item.cell v (item.encode v) = .ok c) ∧ ∃ cells, encodeCells items vs = .ok cells := by
        simp [encodeCells, bind_eq_ok, pure, Except.pure]
      rw [hcells, exists_cell, hitems.1.exists_encode_iff, hrest, List.forall₂_cons, LimitedItems,
        and_and_and_comm]

theorem map_size_encodeCells {items : List Ty} (hitems : ∀ item ∈ items, item.Delimited)
    {vs : List Value} {cells : List Cell} (h : encodeCells items vs = .ok cells) :
    cells.map Cell.size = itemSizes items vs := by
  induction items generalizing vs cells with
  | nil =>
    obtain rfl : cells = [] := by simpa [encodeCells] using h.symm
    rfl
  | cons item items ih =>
    cases vs with
    | nil =>
      obtain rfl : cells = [] := by simpa [encodeCells] using h.symm
      rfl
    | cons v vs =>
      rw [List.forall_mem_cons] at hitems
      obtain ⟨c, hc, h⟩ := bind_eq_ok.mp h
      obtain ⟨rest, hrest, h⟩ := bind_eq_ok.mp h
      obtain rfl := Except.ok.inj h
      obtain ⟨-, -, hsize⟩ := hitems.1.sound v _ (cell_eq_ok item.sized hc).2
      rw [List.map_cons, Cell.size, hsize, ih hitems.2 hrest, itemSizes]

theorem delimited_tuple {items : List Ty} (hitems : ∀ item ∈ items, item.Delimited) :
    (Ty.tuple items).Delimited where
  sound v b h := by
    obtain ⟨vs, cells, rfl, hlen, hcells, hlay⟩ := encode_tuple_eq_ok h
    have hshapes := shapes_of_encodeCells (fun item _ => item.sized) hlen hcells
    have hsizes := map_size_encodeCells hitems hcells
    obtain ⟨hinhabits, hlimited⟩ := (exists_encodeCells hitems hlen).mp ⟨cells, hcells⟩
    have hfit := exists_layOut_iff.mp ⟨b, hlay⟩
    have hlength := length_layOut hlay
    rw [← Cell.tailsSize_cells, hshapes, hsizes] at hlength
    rw [hshapes, hsizes] at hfit
    exact ⟨.tuple hinhabits, ⟨hfit, hlimited⟩, hlength⟩
  complete v hinhabits hlimited := by
    cases hinhabits with
    | tuple hinhabits =>
      have hlen := hinhabits.length_eq
      obtain ⟨hfit, hlimited⟩ := hlimited
      obtain ⟨cells, hcells⟩ := (exists_encodeCells hitems hlen).mpr ⟨hinhabits, hlimited⟩
      rw [← shapes_of_encodeCells (fun item _ => item.sized) hlen hcells,
        ← map_size_encodeCells hitems hcells] at hfit
      obtain ⟨b, hlay⟩ := exists_layOut_iff.mpr hfit
      refine ⟨b, ?_⟩
      rw [encode, if_neg (not_not.mpr hlen), hcells]
      exact hlay

/-! ### Arrays -/

theorem inhabits_tuple_replicate {item : Ty} {vs : List Value} :
    (Ty.tuple (List.replicate vs.length item)).Inhabits (.array vs) ↔
      ∀ v ∈ vs, item.Inhabits v := by
  constructor
  · rintro ⟨⟩
    exact inhabits_replicate ‹_›
  · intro h
    refine .tuple ?_
    induction vs with
    | nil => exact .nil
    | cons v vs ih =>
      rw [List.forall_mem_cons] at h
      exact .cons h.1 (ih h.2)

theorem delimited_replicate {item : Ty} (hitem : item.Delimited) (n : Nat) :
    (Ty.tuple (List.replicate n item)).Delimited :=
  delimited_tuple fun _ hmem => List.eq_of_mem_replicate hmem ▸ hitem

theorem delimited_static {item : Ty} (hitem : item.Delimited) (length : UInt64) :
    (Ty.static item length).Delimited where
  sound v b h := by
    obtain ⟨vs, cells, rfl, hlen, -⟩ := encode_static_eq_ok h
    rw [encode_static hlen, ← hlen] at h
    obtain ⟨hinhabits, hlimited, hlength⟩ := (delimited_replicate hitem _).sound _ b h
    rw [encodedSize_static, limited_static]
    exact ⟨.static hlen (inhabits_tuple_replicate.mp hinhabits), hlimited, hlength⟩
  complete v hinhabits hlimited := by
    cases hinhabits with
    | static hlen hinhabits =>
      rw [limited_static] at hlimited
      rw [encode_static hlen, ← hlen]
      exact (delimited_replicate hitem _).complete _ (inhabits_tuple_replicate.mpr hinhabits) hlimited

theorem delimited_dynamic {item : Ty} (hitem : item.Delimited) : (Ty.dynamic item).Delimited where
  sound v b h := by
    obtain ⟨vs, cells, rest, rfl, hlen, -⟩ := encode_dynamic_eq_ok h
    rw [encode_dynamic hlen] at h
    obtain ⟨rest, hrest, h⟩ := bind_eq_ok.mp h
    obtain rfl := Except.ok.inj h
    obtain ⟨hinhabits, hlimited, hlength⟩ := (delimited_replicate hitem _).sound _ rest hrest
    rw [List.length_append, Bytes.length_ofNat, hlength, encodedSize_dynamic, limited_dynamic]
    exact ⟨.dynamic (inhabits_tuple_replicate.mp hinhabits), ⟨Nat.le_of_lt_succ hlen, hlimited⟩, rfl⟩
  complete v hinhabits hlimited := by
    cases hinhabits with
    | @dynamic _ vs hinhabits =>
      obtain ⟨hlen, hlimited⟩ := limited_dynamic.mp hlimited
      obtain ⟨rest, hrest⟩ := (delimited_replicate hitem _).complete _
        (inhabits_tuple_replicate.mpr hinhabits) hlimited
      refine ⟨Bytes.ofNat 2 vs.length ++ rest, ?_⟩
      rw [encode_dynamic (Nat.lt_succ_of_le hlen), hrest]
      rfl

theorem delimited (ty : Ty) : ty.Delimited := by
  induction ty using Ty.induction with
  | uint size => exact delimited_uint size
  | address => exact delimited_address
  | tuple items ih => exact delimited_tuple ih
  | string => exact delimited_string
  | byte => exact delimited_byte
  | bool => exact delimited_bool
  | static item length ih => exact delimited_static ih length
  | dynamic item ih => exact delimited_dynamic ih

theorem inhabits_address_iff {text : String} :
    Ty.address.Inhabits (.address text) ↔ text.length = 58 ∧ ∃ key, key.length = 32 ∧
      Text.Base32.decode? text = some (key ++ keyChecksum key) := by
  constructor
  · intro h
    cases h with
    | address hkey =>
      obtain ⟨hlen, hkey⟩ := addressKey_eq_ok_iff.mp hkey
      exact ⟨hlen, _, hkey⟩
  · rintro ⟨hlen, key, hkey⟩
    exact .address (addressKey_eq_ok_iff.mpr ⟨hlen, hkey⟩)

/-- The values that can be encoded at a type are those of the type that are within the limits at
every level. The offsets there are those of the encoding, since it has the size that they are
computed from, and at a static type that size is one of the type. -/
theorem encodable_iff (ty : Ty) :
    (∀ v, (∃ b, ty.encode v = .ok b) ↔ ty.Inhabits v ∧ ty.Limited v) ∧
      (∀ v b, ty.encode v = .ok b → b.length = ty.encodedSize v ∧
        (ty.isDynamic = false → ty.size? = some b.length)) ∧
      ∀ text, Ty.address.Inhabits (.address text) ↔ text.length = 58 ∧ ∃ key, key.length = 32 ∧
        Text.Base32.decode? text = some (key ++ keyChecksum key) := by
  refine ⟨fun v => ty.delimited.exists_encode_iff, fun v b h => ⟨?_, fun hstatic => ?_⟩,
    fun text => inhabits_address_iff⟩
  · exact (ty.delimited.sound v b h).2.2
  · have hsize : ty.size? ≠ none := by
      rw [ne_eq, size?_eq_none_iff, hstatic]
      exact Bool.false_ne_true
    obtain ⟨size, hsize⟩ := Option.ne_none_iff_exists'.mp hsize
    rw [hsize, ty.sized v b h size hsize]

/-- A text of letters, two booleans in one byte and an empty text: the offset of the empty text is
five more than the size of the other one. -/
def spread (n : Nat) : Value :=
  .array [.string (String.ofList (List.replicate n 'a')), .bool true, .bool false, .string ""]

theorem limited_spread {n : Nat} :
    (Ty.tuple [.string, .bool, .bool, .string]).Limited (spread n) ↔ n ≤ 65528 := by
  have hsize : (String.ofList (List.replicate n 'a')).utf8ByteSize = n := by
    rw [String.utf8ByteSize_ofList]
    induction n with
    | zero => rfl
    | succ n ih => rw [List.replicate_succ, String.utf8Len_cons, ih]; rfl
  have hshapes : shapes [.string, .bool, .bool, .string] = [.dynamic, .bit, .bit, .dynamic] := rfl
  simp only [spread, Limited, LimitedItems, itemSizes, encodedSize, hsize, hshapes]
  constructor
  · rintro ⟨hfit, -⟩
    have hle := hfit 3 rfl
    change 5 + (2 + n) ≤ 65535 at hle
    omega
  · intro hn
    refine ⟨fun i hi => ?_, by omega, trivial, trivial, Nat.zero_le _, trivial⟩
    match i, hi with
    | 0, _ => exact (by decide : 5 ≤ 65535)
    | 3, _ =>
      change 5 + (2 + n) ≤ 65535
      omega

theorem encodable_iff_spread :
    let ty : Ty := .tuple [.string, .bool, .bool, .string]
    let flat : Ty := .tuple [.static .bool 9, .bool, .byte, .bool]
    let v : Value := .array [.array (List.replicate 9 (.bool true)), .bool true, .byte 7, .bool true]
    let b : Bytes := [0xFF, 0x80, 0x80, 7, 0x80]
    (∃ b, ty.encode (spread 65528) = .ok b) ∧ ¬ (∃ b, ty.encode (spread 65529) = .ok b) ∧
      flat.encode v = .ok b ∧ flat.isDynamic = false ∧ flat.size? = some b.length := by
  intro ty flat v b
  have hinhabits : ∀ n, ty.Inhabits (spread n) := fun n =>
    .tuple (.cons (.string _) (.cons (.bool _) (.cons (.bool _) (.cons (.string _) .nil))))
  have hflat : flat.encode v = .ok b := rfl
  refine ⟨((encodable_iff ty).1 _).mpr ⟨hinhabits _, limited_spread.mpr (by decide)⟩, fun h => ?_,
    hflat, rfl, ((encodable_iff flat).2.1 v b hflat).2 rfl⟩
  have hle := limited_spread.mp (((encodable_iff ty).1 _).mp h).2
  exact absurd hle (by decide)

end Ty

end AppLedger.Abi
