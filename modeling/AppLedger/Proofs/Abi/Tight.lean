import AppLedger.Proofs.Abi.RoundTrip
import AppLedger.Proofs.Abi.UsedBits

/-! Which bytes are the encoding of the value that is read from them. The reader cuts the bytes
behind a head where the offsets say, up to the end, but takes any place for the first of them: bytes
between the head and that place are lost. -/

namespace AppLedger.Abi

/-- The first item outside the head starts where the head ends. -/
def adjoins (shapes : List Shape) (b : Bytes) : Bool :=
  match readHead b.length [] 0 shapes b with
  | .ok (parts, rest) => (Part.firstStart? parts).all fun start => start + rest.length = b.length
  | .error _ => false

namespace Ty

mutual

def hasBool : Ty → Bool
  | .bool => true
  | .tuple items => anyBool items
  | .static item _ | .dynamic item => item.hasBool
  | .uint _ | .address | .byte | .string => false

def anyBool : List Ty → Bool
  | [] => false
  | item :: items => item.hasBool || anyBool items

end

mutual

/-- At every level the items outside a head follow it at once. -/
def isTight : Ty → Bytes → Bool
  | .tuple items, b =>
    match Abi.splitItems (shapes items) b with
    | .ok encs => adjoins (shapes items) b && areTight items encs
    | .error _ => false
  | .static item length, b =>
    match Abi.splitItems (List.replicate length.toNat item.shape) b with
    | .ok encs =>
      adjoins (List.replicate length.toNat item.shape) b && encs.all fun enc => item.isTight enc
    | .error _ => false
  | .dynamic item, hi :: lo :: b =>
    match Abi.splitItems (List.replicate (Bytes.toNat [hi, lo]) item.shape) b with
    | .ok encs =>
      adjoins (List.replicate (Bytes.toNat [hi, lo]) item.shape) b &&
        encs.all fun enc => item.isTight enc
    | .error _ => false
  | .dynamic _, _ => false
  | .uint _, _ | .address, _ | .string, _ | .byte, _ | .bool, _ => true

def areTight : List Ty → List Bytes → Bool
  | item :: items, enc :: encs => item.isTight enc && areTight items encs
  | _, _ => true

end

/-- No item of the type lies outside a head. -/
def isFlat : Ty → Bool
  | .tuple items => !anyDynamic items
  | .static item _ | .dynamic item => !item.isDynamic
  | .uint _ | .address | .string | .byte | .bool => true

theorem areTight_replicate {item : Ty} {n : Nat} {encs : List Bytes} (h : encs.length = n) :
    areTight (List.replicate n item) encs = encs.all fun enc => item.isTight enc := by
  induction encs generalizing n with
  | nil =>
    obtain rfl := h
    rfl
  | cons enc encs ih =>
    obtain rfl := h
    rw [List.length_cons, List.replicate_succ, areTight, ih rfl, List.all_cons]

theorem isTight_tuple_replicate (item : Ty) (n : Nat) (b : Bytes) :
    (Ty.tuple (List.replicate n item)).isTight b =
      match Abi.splitItems (List.replicate n item.shape) b with
      | .ok encs =>
        adjoins (List.replicate n item.shape) b && encs.all fun enc => item.isTight enc
      | .error _ => false := by
  rw [isTight, shapes_replicate]
  split
  · next encs h =>
    rw [areTight_replicate (by rw [length_splitItems h, List.length_replicate])]
  · rfl

theorem isTight_static (item : Ty) (length : UInt64) (b : Bytes) :
    (Ty.static item length).isTight b =
      (Ty.tuple (List.replicate length.toNat item)).isTight b := by
  rw [isTight_tuple_replicate, isTight]

theorem isTight_dynamic (item : Ty) (hi lo : UInt8) (b : Bytes) :
    (Ty.dynamic item).isTight (hi :: lo :: b) =
      (Ty.tuple (List.replicate (Bytes.toNat [hi, lo]) item)).isTight b := by
  rw [isTight_tuple_replicate, isTight]

theorem anyBool_iff {items : List Ty} :
    anyBool items = true ↔ ∃ item ∈ items, item.hasBool = true := by
  induction items with
  | nil => simp [anyBool]
  | cons item items ih => simp [anyBool, ih]

theorem bit_not_mem_shapes {items : List Ty} (h : ∀ item ∈ items, item.hasBool = false) :
    .bit ∉ shapes items := by
  induction items with
  | nil => simp [shapes]
  | cons item items ih =>
    rw [List.forall_mem_cons] at h
    rw [shapes, List.mem_cons, not_or]
    refine ⟨fun hbit => ?_, ih h.2⟩
    have hitem : item = .bool := shape_eq_bit hbit.symm
    rw [hitem] at h
    exact absurd h.1.symm Bool.false_ne_true

end Ty

/-! ## What is read from bytes without a gap is encoded as them -/

/-- The head is written again, and what lies outside it is all the bytes from the first item
there. -/
theorem heads_of_encodings {left : List Bool} {shapes : List Shape} {head all : Bytes}
    {parts : List Part} {cells : List Cell} (h : IsHead left shapes head parts)
    (hbit : .bit ∉ shapes) (hshapes : cells.map Cell.shape = shapes)
    (hencs : Part.encodings all parts = .ok (cells.map Cell.bytes)) :
    Slot.heads ((Part.firstStart? parts).getD all.length) (Slot.ofCells [] cells) = .ok head ∧
      cells.flatMap Cell.outside = all.drop ((Part.firstStart? parts).getD all.length) := by
  induction h generalizing cells with
  | nil =>
    obtain rfl := List.map_eq_nil_iff.mp hshapes
    exact ⟨rfl, List.drop_length.symm⟩
  | held | packed => exact absurd List.mem_cons_self hbit
  | @fixed left shapes head parts bytes _ ih =>
    obtain ⟨c, cells, rfl, hc, hcells⟩ := List.map_eq_cons_iff.mp hshapes
    obtain ⟨rest, hrest, heq⟩ := Part.encodings_here_eq_ok hencs
    obtain ⟨rfl, rfl⟩ := List.cons.inj heq
    obtain ⟨hheads, houtside⟩ := ih (fun h => hbit (List.mem_cons_of_mem _ h)) hcells hrest
    cases c with
    | bit b => simp [Cell.shape] at hc
    | tail bytes => simp [Cell.shape] at hc
    | fixed bytes =>
      rw [Part.firstStart?, Slot.ofCells]
      exact ⟨Slot.heads_filled bytes hheads, by rw [List.flatMap_cons, houtside]; rfl⟩
  | @dynamic left shapes head parts hi lo _ ih =>
    obtain ⟨c, cells, rfl, hc, hcells⟩ := List.map_eq_cons_iff.mp hshapes
    obtain ⟨enc, rest, hrest, heq, hend, hdrop⟩ := Part.encodings_at_eq_ok hencs
    obtain ⟨rfl, rfl⟩ := List.cons.inj heq
    obtain ⟨hheads, houtside⟩ := ih (fun h => hbit (List.mem_cons_of_mem _ h)) hcells hrest
    cases c with
    | bit b => simp [Cell.shape] at hc
    | fixed bytes => simp [Cell.shape] at hc
    | tail bytes =>
      have hlt : Bytes.toNat [hi, lo] < UInt16.size := Bytes.toNat_lt [hi, lo]
      have hoffset : Bytes.ofNat 2 (Bytes.toNat [hi, lo]) = [hi, lo] := Bytes.ofNat_toNat [hi, lo]
      rw [← hend] at hheads
      have hhead := Slot.heads_offset hlt hheads
      rw [hoffset] at hhead
      rw [Part.firstStart?, Option.getD_some, Slot.ofCells]
      exact ⟨hhead, by rw [hdrop, List.flatMap_cons, houtside]; rfl⟩

theorem layOut_of_adjoins {shapes : List Shape} {b : Bytes} {cells : List Cell}
    (hbit : .bit ∉ shapes) (hshapes : cells.map Cell.shape = shapes)
    (hsplit : splitItems shapes b = .ok (cells.map Cell.bytes)) (h : adjoins shapes b = true) :
    layOut cells = .ok b := by
  obtain ⟨parts, head, rest, hb, hread, hhead, hrest, hencs⟩ := splitItems_eq_ok hsplit
  obtain ⟨hheads, houtside⟩ := heads_of_encodings hhead hbit hshapes hencs
  rw [adjoins, hread] at h
  have hlen : b.length = head.length + rest.length := by rw [hb, List.length_append]
  have hstart : (Part.firstStart? parts).getD b.length = head.length := by
    cases hfirst : Part.firstStart? parts with
    | none => simp [hlen, hrest hfirst]
    | some start =>
      have hend : start + rest.length = b.length := by simpa [hfirst] using h
      rw [Option.getD_some]
      omega
  rw [hstart] at hheads houtside
  rw [layOut, ← Slot.length_of_heads hheads, hheads]
  simp [bind, Except.bind, pure, Except.pure, Slot.tails_ofCells, houtside, hb]

namespace Ty

/-- Read from bytes without a gap, the value is encoded as them. -/
def Restored (ty : Ty) : Prop :=
  ∀ b v, ty.decode b = .ok v → ty.isTight b = true → ty.encode v = .ok b

theorem cells_of_decodesEach {items : List Ty} (hitems : ∀ item ∈ items, item.Restored)
    (hbool : ∀ item ∈ items, item.hasBool = false) {encs : List Bytes} {vs : List Value}
    (h : DecodesEach items encs vs) (htight : areTight items encs = true) :
    ∃ cells, encodeCells items vs = .ok cells ∧ cells.map Cell.bytes = encs := by
  induction h with
  | nil => exact ⟨[], rfl, rfl⟩
  | @cons item items enc encs v vs hv _ ih =>
    rw [List.forall_mem_cons] at hitems hbool
    rw [areTight, Bool.and_eq_true] at htight
    obtain ⟨cells, hcells, rfl⟩ := ih hitems.2 hbool.2 htight.2
    have henc := hitems.1 enc v hv htight.1
    obtain ⟨c, hc, hbytes⟩ : ∃ c, item.cell v (item.encode v) = .ok c ∧ c.bytes = enc := by
      unfold cell
      split
      · next hbit =>
        rw [shape_eq_bit hbit] at hbool
        exact absurd hbool.1 nofun
      · exact ⟨.fixed enc, by rw [henc]; rfl, rfl⟩
      · exact ⟨.tail enc, by rw [henc]; rfl, rfl⟩
    refine ⟨c :: cells, ?_, by rw [List.map_cons, hbytes]⟩
    rw [encodeCells, hcells, hc]
    rfl

theorem restored_tuple {items : List Ty} (hitems : ∀ item ∈ items, item.Restored)
    (hbool : ∀ item ∈ items, item.hasBool = false) : (Ty.tuple items).Restored := by
  intro b v h htight
  obtain ⟨encs, vs, hsplit, hdecodes, rfl⟩ := decode_tuple_eq_ok h
  rw [isTight, hsplit, Bool.and_eq_true] at htight
  obtain ⟨cells, hcells, rfl⟩ := cells_of_decodesEach hitems hbool hdecodes htight.2
  have hlen := hdecodes.length_eq
  rw [encode, if_neg (by simp [hlen]), hcells]
  exact layOut_of_adjoins (bit_not_mem_shapes hbool)
    (shapes_of_encodeCells (fun item _ => item.sized) hlen.symm hcells) hsplit htight.1

theorem restored_replicate {item : Ty} (hitem : item.Restored) (hbool : item.hasBool = false)
    (n : Nat) : (Ty.tuple (List.replicate n item)).Restored :=
  restored_tuple (fun _ hmem => List.eq_of_mem_replicate hmem ▸ hitem)
    fun _ hmem => List.eq_of_mem_replicate hmem ▸ hbool

theorem restored_of_exact {ty : Ty} {n : Nat} (h : ty.Exact)
    (hused : ty.usedBits = List.replicate n 0xFF) : ty.Restored := by
  intro b v hdecode _
  obtain ⟨hlen, hencode⟩ := h b v hdecode
  rw [hused, List.length_replicate] at hlen
  rwa [hused, ← hlen, masked_full] at hencode

theorem restored_string : Ty.string.Restored := by
  intro b v h _
  rw [decode] at h
  obtain ⟨s, rfl, hlt, rfl⟩ := decodeString_eq_ok h
  rw [encode, encodeString, if_pos hlt]

theorem restored_of_hasBool {ty : Ty} (h : ty.hasBool = false) : ty.Restored := by
  induction ty using Ty.induction with
  | uint size => exact restored_of_exact (exact_uint size) rfl
  | address => exact restored_of_exact (n := 32) exact_address rfl
  | tuple items ih =>
    have hbool : ∀ item ∈ items, item.hasBool = false := by
      intro item hmem
      rw [hasBool, Bool.eq_false_iff, ne_eq, anyBool_iff] at h
      exact Bool.eq_false_iff.mpr fun hbool => h ⟨item, hmem, hbool⟩
    exact restored_tuple (fun item hmem => ih item hmem (hbool item hmem)) hbool
  | string => exact restored_string
  | byte => exact restored_of_exact (n := 1) exact_byte rfl
  | bool => exact absurd h nofun
  | static item length ih =>
    intro b v hv htight
    obtain ⟨vs, rfl, hlen, hv⟩ := decode_static_eq_ok hv
    rw [isTight_static] at htight
    rw [encode_static hlen]
    exact restored_replicate (ih h) h _ b _ hv htight
  | dynamic item ih =>
    intro b v hv htight
    obtain ⟨hi, lo, rest, vs, rfl, rfl, hlen, hv⟩ := decode_dynamic_eq_ok hv
    rw [isTight_dynamic, ← hlen] at htight
    have hlt : Bytes.toNat [hi, lo] < UInt16.size := Bytes.toNat_lt [hi, lo]
    have hcount : Bytes.ofNat 2 (Bytes.toNat [hi, lo]) = [hi, lo] := Bytes.ofNat_toNat [hi, lo]
    rw [encode_dynamic (by omega), restored_replicate (ih h) h _ rest _ hv htight, hlen, hcount]
    rfl

end Ty

/-! ## What a value is encoded as has no gap -/

theorem firstStart?_ofCells {position start : Nat} {cells : List Cell}
    (h : Part.firstStart? (Part.ofCells position cells) = some start) : start = position := by
  have hfirst : (Part.firstStart? (Part.ofCells position cells)).getD
      (position + (cells.flatMap Cell.outside).length) = position := firstStart?_getD rfl
  rwa [h, Option.getD_some] at hfirst

theorem adjoins_layOut {cells : List Cell} {b : Bytes} (h : layOut cells = .ok b) :
    adjoins (cells.map Cell.shape) b = true := by
  obtain ⟨heads, hheads, h⟩ := bind_eq_ok.mp h
  obtain rfl := Except.ok.inj h
  have hlen := Slot.length_of_heads hheads
  obtain ⟨lead, left, rest, rfl, hl, hread⟩ := readsAs_heads (by decide) hheads
  obtain ⟨rfl, rfl⟩ := held_nil hl
  rw [List.nil_append] at hlen
  rw [adjoins, List.nil_append, hread]
  dsimp only
  cases hfirst : Part.firstStart?
      (Part.ofCells (Slot.headsSize (Slot.ofCells [] cells)) cells) with
  | none => rfl
  | some start =>
    rw [Option.all_some, decide_eq_true_iff, firstStart?_ofCells hfirst, ← hlen,
      List.length_append]

namespace Ty

/-- Whatever a value is encoded as is without a gap. -/
def Tightens (ty : Ty) : Prop :=
  ∀ v b, ty.encode v = .ok b → ty.isTight b = true

theorem areTight_cells {items : List Ty} (hitems : ∀ item ∈ items, item.Tightens)
    {vs : List Value} {cells : List Cell} (h : encodeCells items vs = .ok cells) :
    areTight items (cells.map Cell.bytes) = true := by
  induction items generalizing vs cells with
  | nil => rfl
  | cons item items ih =>
    cases vs with
    | nil =>
      obtain rfl : cells = [] := by simpa [encodeCells] using h.symm
      rfl
    | cons v vs =>
      rw [List.forall_mem_cons] at hitems
      obtain ⟨c, hc, h⟩ := bind_eq_ok.mp h
      obtain ⟨rest, hrest, h⟩ := bind_eq_ok.mp h
      obtain rfl := Except.ok.inj h
      rw [List.map_cons, areTight, hitems.1 v _ (cell_eq_ok item.sized hc).2, ih hitems.2 hrest]
      rfl

theorem tightens_tuple {items : List Ty} (hitems : ∀ item ∈ items, item.Tightens) :
    (Ty.tuple items).Tightens := by
  intro v b h
  obtain ⟨vs, cells, rfl, hlen, hcells, hlay⟩ := encode_tuple_eq_ok h
  have hshapes := shapes_of_encodeCells (fun item _ => item.sized) hlen hcells
  rw [isTight, ← hshapes, splitItems_layOut hlay]
  dsimp only
  rw [adjoins_layOut hlay, areTight_cells hitems hcells]
  rfl

theorem tightens_replicate {item : Ty} (hitem : item.Tightens) (n : Nat) :
    (Ty.tuple (List.replicate n item)).Tightens :=
  tightens_tuple fun _ hmem => List.eq_of_mem_replicate hmem ▸ hitem

theorem tightens (ty : Ty) : ty.Tightens := by
  induction ty using Ty.induction with
  | uint | address | string | byte | bool => exact fun _ _ _ => rfl
  | tuple items ih => exact tightens_tuple ih
  | static item length ih =>
    intro v b h
    obtain ⟨vs, cells, rfl, hlen, -⟩ := encode_static_eq_ok h
    rw [encode_static hlen] at h
    rw [isTight_static]
    exact tightens_replicate ih _ _ b h
  | dynamic item ih =>
    intro v b h
    obtain ⟨vs, cells, rest, rfl, hlen, -⟩ := encode_dynamic_eq_ok h
    rw [encode_dynamic hlen] at h
    obtain ⟨rest, hrest, h⟩ := bind_eq_ok.mp h
    obtain rfl := Except.ok.inj h
    have hcount : Bytes.toNat (Bytes.ofNat 2 vs.length) = vs.length := Bytes.toNat_ofNat hlen
    simp only [Bytes.ofNat, List.nil_append, List.singleton_append] at hcount
    simp only [Bytes.ofNat, List.nil_append, List.cons_append, isTight_dynamic, hcount]
    exact tightens_replicate ih _ _ rest hrest

/-! ## Without an item outside a head there is no gap -/

theorem adjoins_of_static {shapes : List Shape} {b : Bytes} {encs : List Bytes}
    (hstatic : .dynamic ∉ shapes) (h : Abi.splitItems shapes b = .ok encs) :
    adjoins shapes b = true := by
  obtain ⟨parts, head, rest, -, hread, hhead, -, hencs⟩ := splitItems_eq_ok h
  obtain rfl := parts_of_encodings hhead hstatic hencs
  rw [adjoins, hread]
  dsimp only
  rw [Part.firstStart?_here]
  rfl

theorem areTight_of_decodesEach {items : List Ty}
    (hitems : ∀ item ∈ items, ∀ enc v, item.decode enc = .ok v → item.isTight enc = true)
    {encs : List Bytes} {vs : List Value} (h : DecodesEach items encs vs) :
    areTight items encs = true := by
  induction h with
  | nil => rfl
  | cons hv _ ih =>
    rw [List.forall_mem_cons] at hitems
    rw [areTight, hitems.1 _ _ hv, ih hitems.2]
    rfl

theorem isTight_tuple_of_static {items : List Ty}
    (hitems : ∀ item ∈ items, ∀ enc v, item.decode enc = .ok v → item.isTight enc = true)
    (hstatic : ∀ item ∈ items, item.isDynamic = false) {b : Bytes} {v : Value}
    (h : (Ty.tuple items).decode b = .ok v) : (Ty.tuple items).isTight b = true := by
  obtain ⟨encs, vs, hsplit, hdecodes, rfl⟩ := decode_tuple_eq_ok h
  rw [isTight, hsplit]
  dsimp only
  rw [adjoins_of_static (dynamic_not_mem_shapes hstatic) hsplit,
    areTight_of_decodesEach hitems hdecodes]
  rfl

theorem isTight_replicate_of_static {item : Ty}
    (hitem : ∀ enc v, item.decode enc = .ok v → item.isTight enc = true)
    (hstatic : item.isDynamic = false) {n : Nat} {b : Bytes} {v : Value}
    (h : (Ty.tuple (List.replicate n item)).decode b = .ok v) :
    (Ty.tuple (List.replicate n item)).isTight b = true :=
  isTight_tuple_of_static (fun _ hmem => List.eq_of_mem_replicate hmem ▸ hitem)
    (fun _ hmem => List.eq_of_mem_replicate hmem ▸ hstatic) h

theorem isTight_of_static {ty : Ty} (hstatic : ty.isDynamic = false) {b : Bytes} {v : Value}
    (h : ty.decode b = .ok v) : ty.isTight b = true := by
  induction ty using Ty.induction generalizing b v with
  | uint | address | string | byte | bool => rfl
  | tuple items ih =>
    have hitems := isDynamic_tuple_eq_false_iff.mp hstatic
    exact isTight_tuple_of_static (fun item hmem _ _ => ih item hmem (hitems item hmem)) hitems h
  | static item length ih =>
    obtain ⟨vs, rfl, -, h⟩ := decode_static_eq_ok h
    rw [isTight_static]
    exact isTight_replicate_of_static (fun _ _ => ih hstatic) hstatic h
  | dynamic item ih => exact absurd hstatic nofun

theorem isTight_of_isFlat {ty : Ty} (hflat : ty.isFlat = true) {b : Bytes} {v : Value}
    (h : ty.decode b = .ok v) : ty.isTight b = true := by
  cases ty with
  | uint | address | string | byte | bool => rfl
  | tuple items =>
    refine isTight_of_static ?_ h
    rwa [isFlat, Bool.not_eq_true'] at hflat
  | static item length =>
    refine isTight_of_static ?_ h
    rwa [isFlat, Bool.not_eq_true'] at hflat
  | dynamic item =>
    rw [isFlat, Bool.not_eq_true'] at hflat
    obtain ⟨hi, lo, rest, vs, rfl, rfl, hlen, h⟩ := decode_dynamic_eq_ok h
    rw [isTight_dynamic, ← hlen]
    exact isTight_replicate_of_static (fun _ _ => isTight_of_static hflat) hflat h

/-- At a type without booleans, bytes are the encoding of the value that is read from them exactly
if the items outside each head follow it at once. Of such bytes there is one string for each value,
and where no item lies outside a head there are no other bytes. -/
theorem encode_decode_iff {ty : Ty} (hbool : ty.hasBool = false) {b : Bytes} {v : Value}
    (h : ty.decode b = .ok v) :
    (ty.encode v = .ok b ↔ ty.isTight b = true) ∧
      (∀ b', ty.encode v = .ok b' → (b' = b ↔ ty.isTight b = true)) ∧
      (∀ b', ty.decode b' = .ok v → ty.isTight b = true → ty.isTight b' = true → b' = b) ∧
      (ty.isFlat = true → ty.isTight b = true) := by
  have hrestored := restored_of_hasBool hbool
  refine ⟨⟨ty.tightens v b, hrestored b v h⟩, fun b' henc => ⟨fun heq => ?_, fun htight => ?_⟩,
    fun b' h' htight htight' => ?_, fun hflat => isTight_of_isFlat hflat h⟩
  · rw [← heq]
    exact ty.tightens v b' henc
  · exact Except.ok.inj (henc.symm.trans (hrestored b v h htight))
  · exact Except.ok.inj ((hrestored b' v h' htight').symm.trans (hrestored b v h htight))

/-- A text and bytes, right behind the head and behind a byte that says nothing. -/
theorem encode_decode_iff_gap :
    let ty : Ty := .tuple [.string, .dynamic .byte]
    let v : Value := .array [.string "A", .array [.byte 8, .byte 9]]
    let b : Bytes := [0, 4, 0, 7, 0, 1, 0x41, 0, 2, 8, 9]
    let c : Bytes := [0, 5, 0, 8, 0xFF, 0, 1, 0x41, 0, 2, 8, 9]
    ty.hasBool = false ∧ ty.decode b = .ok v ∧ ty.decode c = .ok v ∧ ty.isTight b = true ∧
      ty.isTight c = false ∧ ty.encode v = .ok b ∧ ty.encode v ≠ .ok c := by
  intro ty v b c
  have hbool : ty.hasBool = false := rfl
  have hb : ty.decode b = .ok v :=
    (restores_of_encode (v := v) (rfl : ty.encode v = .ok b)).1
  have hsplit : Abi.splitItems (shapes [.string, .dynamic .byte]) c =
      Abi.splitItems (shapes [.string, .dynamic .byte]) b := by
    decide
  have hc : ty.decode c = .ok v := by
    rw [← hb, decode, decode, hsplit]
  have htight : ty.isTight b = true := by decide
  have hloose : ty.isTight c = false := by decide
  refine ⟨hbool, hb, hc, htight, hloose, (encode_decode_iff hbool hb).1.mpr htight, fun h => ?_⟩
  have htight' := (encode_decode_iff hbool hc).1.mp h
  rw [hloose] at htight'
  contradiction

/-- A byte between the head and the text is not refused, and the value is encoded without it. -/
theorem decode_skips_gap :
    let ty : Ty := .tuple [.string]
    let v : Value := .array [.string "A"]
    ty.hasBool = false ∧ ty.decode [0, 3, 0xFF, 0, 1, 0x41] = .ok v ∧
      ty.encode v = .ok [0, 2, 0, 1, 0x41] ∧ ty.decode [0, 2, 0, 1, 0x41] = .ok v := by
  intro ty v
  have hencode : ty.encode v = .ok [0, 2, 0, 1, 0x41] := rfl
  have hdecode : ty.decode [0, 2, 0, 1, 0x41] = .ok v := (restores_of_encode hencode).1
  have hsplit : Abi.splitItems (shapes [.string]) [0, 3, 0xFF, 0, 1, 0x41] =
      Abi.splitItems (shapes [.string]) [0, 2, 0, 1, 0x41] := by
    decide
  refine ⟨rfl, ?_, hencode, hdecode⟩
  rw [← hdecode, decode, decode, hsplit]

end Ty

end AppLedger.Abi
