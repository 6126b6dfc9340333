import AppLedger.Proofs.Abi.Decoding

/-! Which bits of the bytes of a static type say something, and that the value read from the bytes
is encoded as these bits with all others zero. Only the last byte of a run of booleans has bits that
say nothing. -/

namespace AppLedger.Abi

/-- The bytes with all bits zero that the mask does not have. -/
def masked (b mask : Bytes) : Bytes :=
  List.zipWith (· &&& ·) b mask

/-- The byte whose first `count` bits are set. -/
def leadMask (count : Nat) : UInt8 :=
  UInt8.ofNat (256 - 2 ^ (8 - count))

/-- The mask of the byte that a run of booleans has begun, if it has `used` bits of one. -/
def runMask (used : Nat) : Bytes :=
  if used = 0 then [] else [leadMask used]

/-- The mask of a head, from those of its items, where a boolean has none of its own. A run of
booleans has `used` bits of a byte before. -/
def headMask : (used : Nat) → List (Option Bytes) → Bytes
  | used, [] => runMask used
  | used, none :: masks =>
    if used = 7 then leadMask 8 :: headMask 0 masks else headMask (used + 1) masks
  | used, some mask :: masks => runMask used ++ (mask ++ headMask 0 masks)

theorem packBits_take_unpackBits :
    ∀ (byte : Fin 256) (count : Fin 9),
      packBits ((unpackBits (.ofFin byte)).take count) = .ofFin byte &&& leadMask count := by
  decide +kernel

theorem masked_append {b b' mask mask' : Bytes} (h : b.length = mask.length) :
    masked (b ++ b') (mask ++ mask') = masked b mask ++ masked b' mask' :=
  List.zipWith_append h

theorem length_of_unpackBits {byte : UInt8} {bits left : List Bool}
    (h : unpackBits byte = bits ++ left) : bits.length + left.length = 8 := by
  rw [← List.length_append, ← h]
  rfl

/-- Of a byte whose first bits are held, these are written. -/
theorem packBits_of_unpackBits {byte : UInt8} {bits left : List Bool}
    (h : unpackBits byte = bits ++ left) : packBits bits = byte &&& leadMask bits.length := by
  have hlen := length_of_unpackBits h
  have hpack := packBits_take_unpackBits byte.toFin ⟨bits.length, by omega⟩
  rwa [UInt8.ofFin_toFin, h, List.take_left] at hpack

theorem masked_of_held {bits left : List Bool} {lead : Bytes} (h : Held bits lead left) :
    lead.length = (runMask bits.length).length ∧
      masked lead (runMask bits.length) = Slot.leadBytes bits := by
  rcases h with ⟨rfl, rfl, -⟩ | ⟨hne, byte, rfl, hbyte⟩
  · exact ⟨rfl, rfl⟩
  · have hlen : bits.length ≠ 0 := by simpa using hne
    simp [runMask, masked, Slot.leadBytes, hlen, hne, packBits_of_unpackBits hbyte]

theorem boolBytes_inj {b b' : Bool} (h : boolBytes b = boolBytes b') : b = b' := by
  cases b <;> cases b' <;> simp [boolBytes] at h ⊢

/-- The cells say what the parts of a head say, in the bits that say something. -/
inductive Restates : List (Option Bytes) → List Part → List Cell → Prop
  | nil : Restates [] [] []
  | bit {masks : List (Option Bytes)} {parts : List Part} {cells : List Cell} (b : Bool)
      (h : Restates masks parts cells) :
      Restates (none :: masks) (.here (boolBytes b) :: parts) (.bit b :: cells)
  | fixed {masks : List (Option Bytes)} {parts : List Part} {cells : List Cell}
      {bytes mask : Bytes} (hlen : bytes.length = mask.length) (h : Restates masks parts cells) :
      Restates (some mask :: masks) (.here bytes :: parts) (.fixed (masked bytes mask) :: cells)

namespace Restates

theorem outside_eq_nil {masks : List (Option Bytes)} {parts : List Part} {cells : List Cell}
    (h : Restates masks parts cells) : cells.flatMap Cell.outside = [] := by
  induction h with
  | nil => rfl
  | bit _ _ ih | fixed _ _ ih => rw [List.flatMap_cons, ih]; rfl

theorem bit_inv {b : Bool} {masks : List (Option Bytes)} {parts : List Part} {cells : List Cell}
    {shapes : List Shape} (h : Restates masks (.here (boolBytes b) :: parts) cells)
    (hshapes : cells.map Cell.shape = .bit :: shapes) :
    ∃ masks' cells', masks = none :: masks' ∧ cells = .bit b :: cells' ∧
      Restates masks' parts cells' ∧ cells'.map Cell.shape = shapes := by
  generalize hhere : Part.here (boolBytes b) = part at h
  cases h with
  | bit b' h =>
    obtain rfl := boolBytes_inj (Part.here.inj hhere)
    exact ⟨_, _, rfl, rfl, h, (List.cons.inj hshapes).2⟩
  | fixed hlen h => simp [Cell.shape] at hshapes

theorem fixed_inv {bytes : Bytes} {masks : List (Option Bytes)} {parts : List Part}
    {cells : List Cell} {size : Nat} {shapes : List Shape}
    (h : Restates masks (.here bytes :: parts) cells)
    (hshapes : cells.map Cell.shape = .fixed size :: shapes) :
    ∃ mask masks' cells', masks = some mask :: masks' ∧ cells = .fixed (masked bytes mask) :: cells' ∧
      bytes.length = mask.length ∧ Restates masks' parts cells' ∧
      cells'.map Cell.shape = shapes := by
  cases h with
  | bit b h => simp [Cell.shape] at hshapes
  | fixed hlen h => exact ⟨_, _, _, rfl, rfl, hlen, h, (List.cons.inj hshapes).2⟩

end Restates

/-- A head whose items all stand in it is written again from its items, with only the bits of the
mask. The writer holds the bits that the reader has used of the byte `lead`. -/
theorem heads_of_isHead {left : List Bool} {shapes : List Shape} {head : Bytes} {parts : List Part}
    (h : IsHead left shapes head parts) {masks : List (Option Bytes)} {cells : List Cell}
    (hcells : Restates masks parts cells) (hshapes : cells.map Cell.shape = shapes)
    (bits : List Bool) {lead : Bytes} (hbits : bits.length < 8) (hheld : Held bits lead left)
    (position : Nat) :
    (lead ++ head).length = (headMask bits.length masks).length ∧
      Slot.heads position (Slot.ofCells bits cells) =
        .ok (masked (lead ++ head) (headMask bits.length masks)) := by
  induction h generalizing masks cells bits lead with
  | nil left =>
    obtain rfl := List.map_eq_nil_iff.mp hshapes
    cases hcells
    obtain ⟨hlen, hlead⟩ := masked_of_held hheld
    have hheads : Slot.heads position (Slot.ofBits bits ++ []) = .ok (Slot.leadBytes bits ++ []) :=
      Slot.heads_ofBits bits rfl
    rw [List.append_nil] at hheads ⊢
    exact ⟨hlen, by rw [Slot.ofCells, hheads, headMask, hlead, List.append_nil]⟩
  | @held bit left shapes head parts _ ih =>
    obtain ⟨masks, cells, rfl, rfl, hcells, hshapes⟩ := hcells.bit_inv hshapes
    rcases hheld with ⟨-, -, hleft⟩ | ⟨hne, byte, rfl, hbyte⟩
    · simp at hleft
    have hbyte' : unpackBits byte = (bits ++ [bit]) ++ left := by simpa using hbyte
    by_cases hfull : bits.length = 7
    · have hleft : left = [] := by
        have h := congrArg List.length hbyte
        simp [unpackBits, hfull] at h
        exact List.length_eq_zero_iff.mp (by omega)
      obtain ⟨hlen, hheads⟩ :=
        ih hcells hshapes [] (by decide) (.inl ⟨rfl, rfl, hleft⟩)
      have hpack : packBits (bits ++ [bit]) = byte &&& leadMask 8 := by
        simpa [hfull] using packBits_of_unpackBits hbyte'
      simp only [List.nil_append, List.length_nil] at hlen hheads
      simp [Slot.ofCells, Slot.heads, headMask, hfull, hheads, hlen, hpack, masked, bind,
        Except.bind, pure, Except.pure]
    · have hnext := ih hcells hshapes (bits ++ [bit]) (by simp; omega)
        (.inr ⟨by simp, byte, rfl, hbyte'⟩)
      simpa [Slot.ofCells, headMask, hfull] using hnext
  | @packed byte shapes head parts _ ih =>
    obtain ⟨masks, cells, rfl, rfl, hcells, hshapes⟩ := hcells.bit_inv hshapes
    rcases hheld with ⟨rfl, rfl, -⟩ | ⟨-, byte, rfl, hbyte⟩
    · have hnext := ih hcells hshapes [(unpackBits byte).headD false] (by simp)
        (.inr ⟨by simp, byte, rfl, rfl⟩)
      simpa [Slot.ofCells, headMask] using hnext
    · have height := length_of_unpackBits hbyte
      rw [List.length_nil] at height
      omega
  | @fixed left shapes head parts bytes _ ih =>
    obtain ⟨mask, masks, cells, rfl, rfl, hitem, hcells, hshapes⟩ := hcells.fixed_inv hshapes
    obtain ⟨hlen, hheads⟩ :=
      ih hcells hshapes [] (by decide) (.inl ⟨rfl, rfl, rfl⟩)
    obtain ⟨hleadLen, hlead⟩ := masked_of_held hheld
    simp only [List.nil_append, List.length_nil] at hlen hheads
    refine ⟨by simp only [headMask, List.length_append, hleadLen, hitem, hlen], ?_⟩
    rw [Slot.ofCells, headMask, masked_append hleadLen, hlead, masked_append hitem]
    exact Slot.heads_ofBits bits (Slot.heads_filled _ hheads)
  | dynamic hi lo _ ih => cases hcells

theorem layOut_of_isHead {shapes : List Shape} {b : Bytes} {parts : List Part}
    (h : IsHead [] shapes b parts) {masks : List (Option Bytes)} {cells : List Cell}
    (hcells : Restates masks parts cells) (hshapes : cells.map Cell.shape = shapes) :
    b.length = (headMask 0 masks).length ∧ layOut cells = .ok (masked b (headMask 0 masks)) := by
  obtain ⟨hlen, hheads⟩ := heads_of_isHead h hcells hshapes [] (by decide)
    (.inl ⟨rfl, rfl, rfl⟩) (Slot.headsSize (Slot.ofCells [] cells))
  refine ⟨hlen, ?_⟩
  rw [layOut, hheads]
  simp [bind, Except.bind, pure, Except.pure, Slot.tails_ofCells, hcells.outside_eq_nil]

theorem masked_full (b : Bytes) : masked b (List.replicate b.length 0xFF) = b := by
  have hbyte : ∀ byte : UInt8, byte &&& 0xFF = byte := fun _ => UInt8.and_neg_one
  induction b with
  | nil => rfl
  | cons byte b ih =>
    rw [masked, List.length_cons, List.replicate_succ, List.zipWith_cons_cons, hbyte, ← masked, ih]

namespace Ty

/-- The mask of an item of a tuple, if it has one of its own. -/
def itemMask : Ty → (mask : Bytes) → Option Bytes
  | .bool, _ => none
  | _, mask => some mask

mutual

/-- The bits that say something, of the bytes of a static type. -/
def usedBits : Ty → Bytes
  | .uint size => List.replicate size.width 0xFF
  | .address => List.replicate 32 0xFF
  | .byte => [0xFF]
  | .bool => [0x80]
  | .tuple items => headMask 0 (itemMasks items)
  | .static item length => headMask 0 (List.replicate length.toNat (item.itemMask item.usedBits))
  | .string | .dynamic _ => []

def itemMasks : List Ty → List (Option Bytes)
  | [] => []
  | item :: items => item.itemMask item.usedBits :: itemMasks items

end

theorem itemMasks_replicate (n : Nat) (item : Ty) :
    itemMasks (List.replicate n item) = List.replicate n (item.itemMask item.usedBits) := by
  induction n with
  | zero => rfl
  | succ n ih => rw [List.replicate_succ, itemMasks, ih, List.replicate_succ]

/-- What is read from bytes is encoded as the bits of them that say something. -/
def Exact (ty : Ty) : Prop :=
  ∀ b v, ty.decode b = .ok v →
    b.length = ty.usedBits.length ∧ ty.encode v = .ok (masked b ty.usedBits)

theorem exact_uint (size : BitSize) : (Ty.uint size).Exact := by
  intro b v h
  rw [decode] at h
  obtain ⟨hlen, rfl⟩ := decodeUint_eq_ok h
  refine ⟨by rw [usedBits, List.length_replicate, hlen], ?_⟩
  rw [encode, encodeUint, if_pos (toNat_lt_of_length hlen), usedBits, ← hlen, Bytes.ofNat_toNat,
    masked_full]

theorem exact_address : Ty.address.Exact := by
  intro b v h
  rw [decode] at h
  obtain ⟨hlen, rfl⟩ := decodeAddress_eq_ok h
  refine ⟨hlen, ?_⟩
  rw [encode, encodeAddress, addressKey_addressText hlen, usedBits, ← hlen, masked_full]
  rfl

theorem exact_byte : Ty.byte.Exact := by
  intro b v h
  rw [decode] at h
  obtain ⟨byte, rfl, rfl⟩ := decodeByte_eq_ok h
  exact ⟨rfl, congrArg Except.ok (masked_full [byte]).symm⟩

theorem exact_bool : Ty.bool.Exact := by
  intro b v h
  rw [decode] at h
  obtain ⟨bit, rfl, rfl⟩ := decodeBool_eq_ok h
  cases bit <;> exact ⟨rfl, rfl⟩

/-- An item that is a bit of a head is the bit, and any other is written again in full. -/
theorem restates_of_decodesEach {items : List Ty} (hitems : ∀ item ∈ items, item.Exact)
    (hstatic : ∀ item ∈ items, item.isDynamic = false) {encs : List Bytes} {vs : List Value}
    (h : DecodesEach items encs vs) :
    ∃ cells, encodeCells items vs = .ok cells ∧
      Restates (itemMasks items) (encs.map .here) cells := by
  induction h with
  | nil => exact ⟨[], rfl, .nil⟩
  | @cons item items enc encs v vs hv _ ih =>
    rw [List.forall_mem_cons] at hitems hstatic
    obtain ⟨cells, hcells, hrestates⟩ := ih hitems.2 hstatic.2
    obtain ⟨hlen, henc⟩ := hitems.1 enc v hv
    by_cases hbool : item = .bool
    · subst hbool
      rw [decode] at hv
      obtain ⟨bit, rfl, rfl⟩ := decodeBool_eq_ok hv
      refine ⟨.bit bit :: cells, ?_, .bit bit hrestates⟩
      rw [encodeCells, hcells]
      rfl
    · have hmask : item.itemMask item.usedBits = some item.usedBits := by
        cases item <;> first | rfl | exact absurd rfl hbool
      obtain ⟨size, hshape⟩ := exists_shape_eq_fixed hbool hstatic.1
      have hcell : item.cell v (item.encode v) = .ok (.fixed (masked enc item.usedBits)) := by
        simp only [cell, hshape, henc, Except.map]
      refine ⟨.fixed (masked enc item.usedBits) :: cells, ?_, ?_⟩
      · rw [encodeCells, hcells, hcell]
        rfl
      · rw [itemMasks, hmask]
        exact .fixed hlen hrestates

theorem exact_tuple {items : List Ty} (hitems : ∀ item ∈ items, item.Exact)
    (hstatic : ∀ item ∈ items, item.isDynamic = false) : (Ty.tuple items).Exact := by
  intro b v h
  obtain ⟨encs, vs, hsplit, hdecodes, rfl⟩ := decode_tuple_eq_ok h
  obtain ⟨parts, head, rest, rfl, -, hhead, hrest, hencs⟩ := splitItems_eq_ok hsplit
  obtain rfl := parts_of_encodings hhead (dynamic_not_mem_shapes hstatic) hencs
  obtain rfl := hrest (Part.firstStart?_here encs)
  obtain ⟨cells, hcells, hrestates⟩ := restates_of_decodesEach hitems hstatic hdecodes
  have hlen := hdecodes.length_eq
  obtain ⟨hsize, hlay⟩ := layOut_of_isHead hhead hrestates
    (shapes_of_encodeCells (fun item _ => item.sized) hlen.symm hcells)
  rw [List.append_nil, usedBits]
  refine ⟨hsize, ?_⟩
  rw [encode, if_neg (by simp [hlen]), hcells]
  exact hlay

theorem exact_of_static {ty : Ty} (h : ty.isDynamic = false) : ty.Exact := by
  induction ty using Ty.induction with
  | uint size => exact exact_uint size
  | address => exact exact_address
  | tuple items ih =>
    have hstatic := isDynamic_tuple_eq_false_iff.mp h
    exact exact_tuple (fun item hmem => ih item hmem (hstatic item hmem)) hstatic
  | byte => exact exact_byte
  | bool => exact exact_bool
  | static item length ih =>
    intro b v hv
    obtain ⟨vs, rfl, hlen, hv⟩ := decode_static_eq_ok hv
    have hexact : (Ty.tuple (List.replicate length.toNat item)).Exact :=
      exact_tuple (fun _ hmem => List.eq_of_mem_replicate hmem ▸ ih h)
        (fun _ hmem => List.eq_of_mem_replicate hmem ▸ h)
    have hused : (Ty.static item length).usedBits =
        (Ty.tuple (List.replicate length.toNat item)).usedBits := by
      rw [usedBits, usedBits, itemMasks_replicate]
    rw [encode_static hlen, hused]
    exact hexact b _ hv
  | string | dynamic => simp [isDynamic] at h

end Ty

end AppLedger.Abi
