import AppLedger.Proofs.Abi.RoundTrip
import AppLedger.Proofs.Abi.UsedBits

/-! What is read from bytes at a type is a value of the type, at every level of it, and at a static
type the bytes have the size of the type and no bit of them is lost that says something. -/

namespace AppLedger.Abi.Ty

/-- The value is one of the type, at every level. -/
inductive Inhabits : Ty → Value → Prop
  | uint {size : BitSize} {n : Nat} (h : n < 2 ^ size.bits) : Inhabits (.uint size) (.uint n)
  | address {text : String} {key : Bytes} (h : addressKey text = .ok key) :
      Inhabits .address (.address text)
  | tuple {items : List Ty} {vs : List Value} (h : List.Forall₂ Inhabits items vs) :
      Inhabits (.tuple items) (.array vs)
  | string (s : String) : Inhabits .string (.string s)
  | byte (b : UInt8) : Inhabits .byte (.byte b)
  | bool (b : Bool) : Inhabits .bool (.bool b)
  | static {item : Ty} {length : UInt64} {vs : List Value} (hlen : vs.length = length.toNat)
      (h : ∀ v ∈ vs, Inhabits item v) : Inhabits (.static item length) (.array vs)
  | dynamic {item : Ty} {vs : List Value} (h : ∀ v ∈ vs, Inhabits item v) :
      Inhabits (.dynamic item) (.array vs)

/-- An item is read from bytes among those of the whole, or from a bit of them. -/
def Within (enc b : Bytes) : Prop :=
  enc <:+: b ∨ ∃ bit, enc = boolBytes bit

mutual

/-- Each dynamic array in a value that is read from the bytes has the number of items that stands in
the two bytes before them. -/
def Counted : Ty → Bytes → Value → Prop
  | .tuple items, b, .array vs => CountedItems items b vs
  | .static item _, b, .array vs =>
    ∀ v ∈ vs, ∃ enc, Within enc b ∧ item.decode enc = .ok v ∧ item.Counted enc v
  | .dynamic item, b, .array vs =>
    (∃ hi lo rest, b = hi :: lo :: rest ∧ vs.length = Bytes.toNat [hi, lo]) ∧
      ∀ v ∈ vs, ∃ enc, Within enc b ∧ item.decode enc = .ok v ∧ item.Counted enc v
  | _, _, _ => True

def CountedItems : List Ty → Bytes → List Value → Prop
  | item :: items, b, v :: vs =>
    (∃ enc, Within enc b ∧ item.decode enc = .ok v ∧ item.Counted enc v) ∧ CountedItems items b vs
  | _, _, _ => True

end

theorem countedItems_replicate {item : Ty} {b : Bytes} {vs : List Value}
    (h : CountedItems (List.replicate vs.length item) b vs) :
    ∀ v ∈ vs, ∃ enc, Within enc b ∧ item.decode enc = .ok v ∧ item.Counted enc v := by
  induction vs with
  | nil => simp
  | cons v vs ih =>
    rw [List.length_cons, List.replicate_succ, CountedItems] at h
    exact List.forall_mem_cons.mpr ⟨h.1, ih h.2⟩

theorem inhabits_replicate {item : Ty} {vs : List Value}
    (h : List.Forall₂ Inhabits (List.replicate vs.length item) vs) :
    ∀ v ∈ vs, item.Inhabits v := by
  intro v hv
  obtain ⟨item', hmem, h⟩ := exists_of_mem_right h v hv
  rwa [List.eq_of_mem_replicate hmem] at h

/-- What holds of a value that is read from the bytes at the type. -/
structure Typed (ty : Ty) (b : Bytes) (v : Value) : Prop where
  inhabits : ty.Inhabits v
  canonical : v.canonical = v
  counted : ty.Counted b v

theorem typed_items {items : List Ty}
    (hitems : ∀ item ∈ items, ∀ enc v, item.decode enc = .ok v → item.Typed enc v)
    {b : Bytes} {encs : List Bytes} {vs : List Value} (h : DecodesEach items encs vs)
    (hwithin : ∀ enc ∈ encs, Within enc b) :
    List.Forall₂ Inhabits items vs ∧ Value.canonicalItems vs = vs ∧ CountedItems items b vs := by
  induction h with
  | nil => exact ⟨.nil, rfl, trivial⟩
  | cons hv _ ih =>
    rw [List.forall_mem_cons] at hitems hwithin
    have htyped := hitems.1 _ _ hv
    obtain ⟨hinhabits, hcanonical, hcounted⟩ := ih hitems.2 hwithin.2
    refine ⟨.cons htyped.inhabits hinhabits, ?_, ⟨_, hwithin.1, hv, htyped.counted⟩, hcounted⟩
    rw [Value.canonicalItems, htyped.canonical, hcanonical]

theorem typed_tuple {items : List Ty}
    (hitems : ∀ item ∈ items, ∀ enc v, item.decode enc = .ok v → item.Typed enc v)
    {b : Bytes} {v : Value} (h : (Ty.tuple items).decode b = .ok v) :
    ∃ vs, v = .array vs ∧ List.Forall₂ Inhabits items vs ∧ Value.canonicalItems vs = vs ∧
      CountedItems items b vs := by
  obtain ⟨encs, vs, hsplit, hdecodes, rfl⟩ := decode_tuple_eq_ok h
  exact ⟨vs, rfl, typed_items hitems hdecodes fun _ => infix_of_mem_splitItems hsplit⟩

theorem typed_array {item : Ty} (hitem : ∀ enc v, item.decode enc = .ok v → item.Typed enc v)
    {b : Bytes} {vs : List Value}
    (h : (Ty.tuple (List.replicate vs.length item)).decode b = .ok (.array vs)) :
    (∀ v ∈ vs, item.Inhabits v) ∧ Value.canonicalItems vs = vs ∧
      ∀ v ∈ vs, ∃ enc, Within enc b ∧ item.decode enc = .ok v ∧ item.Counted enc v := by
  obtain ⟨vs', heq, hinhabits, hcanonical, hcounted⟩ :=
    typed_tuple (fun _ hmem => List.eq_of_mem_replicate hmem ▸ hitem) h
  obtain rfl := Value.array.inj heq
  exact ⟨inhabits_replicate hinhabits, hcanonical, countedItems_replicate hcounted⟩

theorem typed_of_decode {ty : Ty} {b : Bytes} {v : Value} (h : ty.decode b = .ok v) :
    ty.Typed b v := by
  induction ty using Ty.induction generalizing b v with
  | uint size =>
    rw [decode] at h
    obtain ⟨hlen, rfl⟩ := decodeUint_eq_ok h
    exact ⟨.uint (Nat.one_shiftLeft _ ▸ toNat_lt_of_length hlen), rfl, trivial⟩
  | address =>
    rw [decode] at h
    obtain ⟨hlen, rfl⟩ := decodeAddress_eq_ok h
    have hkey := addressKey_addressText hlen
    exact ⟨.address hkey, by rw [Value.canonical, canonicalText_of_addressKey hkey], trivial⟩
  | tuple items ih =>
    obtain ⟨vs, rfl, hinhabits, hcanonical, hcounted⟩ :=
      typed_tuple (fun item hmem _ _ => ih item hmem) h
    exact ⟨.tuple hinhabits, congrArg Value.array hcanonical, hcounted⟩
  | string =>
    rw [decode] at h
    obtain ⟨s, rfl, -⟩ := decodeString_eq_ok h
    exact ⟨.string s, rfl, trivial⟩
  | byte =>
    rw [decode] at h
    obtain ⟨byte, -, rfl⟩ := decodeByte_eq_ok h
    exact ⟨.byte byte, rfl, trivial⟩
  | bool =>
    rw [decode] at h
    obtain ⟨bit, -, rfl⟩ := decodeBool_eq_ok h
    exact ⟨.bool bit, rfl, trivial⟩
  | static item length ih =>
    obtain ⟨vs, rfl, hlen, h⟩ := decode_static_eq_ok h
    rw [← hlen] at h
    obtain ⟨hinhabits, hcanonical, hcounted⟩ := typed_array (fun _ _ => ih) h
    exact ⟨.static hlen hinhabits, congrArg Value.array hcanonical, hcounted⟩
  | dynamic item ih =>
    obtain ⟨hi, lo, rest, vs, rfl, rfl, hlen, h⟩ := decode_dynamic_eq_ok h
    obtain ⟨hinhabits, hcanonical, hcounted⟩ := typed_array (fun _ _ => ih) h
    refine ⟨.dynamic hinhabits, congrArg Value.array hcanonical, ⟨hi, lo, rest, rfl, hlen⟩, ?_⟩
    intro v hv
    obtain ⟨enc, hwithin, hdecode, hcounted⟩ := hcounted v hv
    have hbehind : rest <:+: hi :: lo :: rest := (List.suffix_append [hi, lo] rest).isInfix
    exact ⟨enc, hwithin.imp_left fun h => h.trans hbehind, hdecode, hcounted⟩

/-- The types with a size are the static ones. What is read from bytes is a value of the type, with
the text of each address as it is written, and with as many items in each dynamic array as the bytes
count. At a static type the bytes have its size, and the value is encoded as them but for the bits
behind the booleans of a run, which are zero. -/
theorem decode_sound (ty : Ty) :
    (ty.size?.isSome = true ↔ ty.isDynamic = false) ∧ ∀ b v, ty.decode b = .ok v →
      ty.Inhabits v ∧ v.canonical = v ∧ ty.Counted b v ∧
        (ty.isDynamic = false → ty.size? = some b.length ∧
          ∃ b', ty.encode v = .ok b' ∧ b'.length = b.length ∧ b' = masked b ty.usedBits) := by
  have hsize : ty.size?.isSome = true ↔ ty.isDynamic = false := by
    rw [← Option.ne_none_iff_isSome, ne_eq, size?_eq_none_iff, Bool.not_eq_true]
  refine ⟨hsize, fun b v h => ?_⟩
  obtain ⟨hinhabits, hcanonical, hcounted⟩ := typed_of_decode h
  refine ⟨hinhabits, hcanonical, hcounted, fun hstatic => ?_⟩
  obtain ⟨hlen, hencode⟩ := exact_of_static hstatic b v h
  have hlen' : (masked b ty.usedBits).length = b.length := by
    rw [masked, List.length_zipWith, ← hlen, Nat.min_self]
  obtain ⟨size, hsize⟩ := Option.isSome_iff_exists.mp (hsize.mpr hstatic)
  have hsized := ty.sized v _ hencode size hsize
  exact ⟨by rw [hsize, ← hsized, hlen'], _, hencode, hlen', rfl⟩

/-- Runs of three and of nine booleans and one inside an item, all with bits behind them that are set,
and two dynamic arrays in a tuple. -/
theorem decode_sound_packed :
    let ty : Ty := .tuple [.bool, .bool, .bool, .uint64, .tuple [.bool, .byte], .static .bool 9,
      .address]
    let v : Value := .array [.bool true, .bool false, .bool true, .uint 0x0102030405060708,
      .array [.bool false, .byte 5], .array (List.replicate 9 (.bool true)),
      .address (addressText (List.replicate 32 0))]
    let b : Bytes := [0xBF, 1, 2, 3, 4, 5, 6, 7, 8, 0x7F, 5, 0xFF, 0xFF] ++ List.replicate 32 0
    let lists : Ty := .tuple [.dynamic .bool, .dynamic .byte]
    let w : Value := .array [.array [.bool true], .array [.byte 8, .byte 9]]
    let c : Bytes := [0, 4, 0, 7, 0, 1, 0x80, 0, 2, 8, 9]
    (ty.decode b = .ok v ∧ ty.Inhabits v ∧ v.canonical = v ∧ ty.Counted b v ∧
        ty.size? = some b.length ∧ ty.encode v =
          .ok ([0xA0, 1, 2, 3, 4, 5, 6, 7, 8, 0, 5, 0xFF, 0x80] ++ List.replicate 32 0)) ∧
      lists.decode c = .ok w ∧ lists.Inhabits w ∧ lists.Counted c w := by
  intro ty v b lists w c
  have hdecode : ty.decode b = .ok v := by
    dsimp only [ty, b, v]
    rfl
  have hlists : lists.decode c = .ok w :=
    (restores_of_encode (v := w) (rfl : lists.encode w = .ok c)).1
  obtain ⟨hinhabits, hcanonical, hcounted, hstatic⟩ := (decode_sound ty).2 b v hdecode
  obtain ⟨hsize, b', hencode, -, rfl⟩ := hstatic (by decide)
  obtain ⟨hlistsInhabits, -, hlistsCounted, -⟩ := (decode_sound lists).2 c w hlists
  have hmasked : masked b ty.usedBits =
      [0xA0, 1, 2, 3, 4, 5, 6, 7, 8, 0, 5, 0xFF, 0x80] ++ List.replicate 32 0 := by
    rfl
  rw [hmasked] at hencode
  exact ⟨⟨hdecode, hinhabits, hcanonical, hcounted, hsize, hencode⟩, hlists, hlistsInhabits,
    hlistsCounted⟩

end AppLedger.Abi.Ty
