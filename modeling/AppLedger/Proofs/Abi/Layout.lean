import AppLedger.Abi.Layout
import AppLedger.Proofs.Outcome

/-! Splitting the bytes of a tuple undoes laying them out: bits come out of the byte that they
were packed into, and each offset in the head leads to the bytes that it was written for. -/

namespace AppLedger.Abi

theorem bitsValue_append_false (place n : Nat) (bits : List Bool) :
    bitsValue place (bits ++ List.replicate n false) = bitsValue place bits := by
  induction bits generalizing place with
  | nil =>
    induction n generalizing place with
    | zero => rfl
    | succ n ih => simpa [List.replicate_succ, bitsValue] using ih (place / 2)
  | cons b bits ih => simp [bitsValue, ih]

theorem unpackBits_packBits_eight (a b c d e f g h : Bool) :
    unpackBits (packBits [a, b, c, d, e, f, g, h]) = [a, b, c, d, e, f, g, h] := by
  revert a b c d e f g h
  decide

/-- The bits come first in the byte that they are packed into. -/
theorem unpackBits_packBits {bits : List Bool} (h : bits.length ≤ 8) :
    unpackBits (packBits bits) = bits ++ List.replicate (8 - bits.length) false := by
  have hp : packBits bits = packBits (bits ++ List.replicate (8 - bits.length) false) := by
    rw [packBits, packBits, bitsValue_append_false]
  rw [hp]
  have hlen : (bits ++ List.replicate (8 - bits.length) false).length = 8 := by simp; omega
  generalize bits ++ List.replicate (8 - bits.length) false = eight at hlen
  obtain ⟨a, b, c, d, e, f, g, h, rfl⟩ :
      ∃ a b c d e f g h, eight = [a, b, c, d, e, f, g, h] := by
    match eight, hlen with
    | [a, b, c, d, e, f, g, h], _ => exact ⟨a, b, c, d, e, f, g, h, rfl⟩
  exact unpackBits_packBits_eight a b c d e f g h

/-- What the item puts behind the head. -/
def Cell.outside : Cell → Bytes
  | .bit _ | .fixed _ => []
  | .tail bytes => bytes

/-- What the head says about the cells when the first of them outside it is at `position`. -/
def Part.ofCells (position : Nat) : List Cell → List Part
  | [] => []
  | .bit b :: cells => .here (boolBytes b) :: ofCells position cells
  | .fixed bytes :: cells => .here bytes :: ofCells position cells
  | .tail bytes :: cells => .at position :: ofCells (position + bytes.length) cells

namespace Slot

theorem tails_ofBits (bits : List Bool) : (ofBits bits).flatMap tail = [] := by
  by_cases h : bits.isEmpty <;> simp [ofBits, h, tail]

theorem tails_ofCells (cells : List Cell) (bits : List Bool) :
    (ofCells bits cells).flatMap tail = cells.flatMap Cell.outside := by
  induction cells generalizing bits with
  | nil => simpa [ofCells] using tails_ofBits bits
  | cons c cells ih =>
    cases c with
    | bit b =>
      by_cases h : bits.length = 7
      · simp [ofCells, h, tail, ih, Cell.outside]
      · simp [ofCells, h, ih, Cell.outside]
    | fixed bytes => simp [ofCells, tails_ofBits, tail, ih, Cell.outside]
    | tail bytes => simp [ofCells, tails_ofBits, tail, ih, Cell.outside]

theorem heads_filled {position : Nat} {slots : List Slot} {h : Bytes} (bytes : Bytes)
    (hh : heads position slots = .ok h) : heads position (.filled bytes :: slots) = .ok (bytes ++ h) := by
  rw [heads, hh]
  rfl

theorem heads_offset {position : Nat} {tail : Bytes} {slots : List Slot} {h : Bytes}
    (hp : position < UInt16.size) (hh : heads (position + tail.length) slots = .ok h) :
    heads position (.offset tail :: slots) = .ok (Bytes.ofNat 2 position ++ h) := by
  rw [heads, if_pos hp, hh]
  rfl

theorem length_of_heads {position : Nat} {slots : List Slot} {h : Bytes}
    (hh : heads position slots = .ok h) : h.length = headsSize slots := by
  induction slots generalizing position h with
  | nil =>
    obtain rfl := Except.ok.inj hh
    rfl
  | cons slot slots ih =>
    cases slot with
    | filled bytes =>
      obtain ⟨rest, hr, hh⟩ := bind_eq_ok.mp hh
      obtain rfl := Except.ok.inj hh
      simp [headsSize, headSize, ih hr]
    | offset tail =>
      by_cases hp : position < UInt16.size
      · simp only [heads, hp, if_true] at hh
        obtain ⟨rest, hr, hh⟩ := bind_eq_ok.mp hh
        obtain rfl := Except.ok.inj hh
        simp [headsSize, headSize, ih hr]
      · simp [heads, hp] at hh

/-- The byte of the bits that the head has still to hold. -/
def leadBytes (bits : List Bool) : Bytes :=
  if bits.isEmpty then [] else [packBits bits]

theorem heads_ofBits {position : Nat} {slots : List Slot} {h : Bytes} (bits : List Bool)
    (hh : heads position slots = .ok h) :
    heads position (ofBits bits ++ slots) = .ok (leadBytes bits ++ h) := by
  by_cases hb : bits.isEmpty
  · simpa [ofBits, leadBytes, hb] using hh
  · simpa [ofBits, leadBytes, hb] using heads_filled [packBits bits] hh

theorem heads_ofBits_append {position : Nat} {bits : List Bool} {slots : List Slot} {h : Bytes}
    (hh : heads position (ofBits bits ++ slots) = .ok h) :
    ∃ rest, heads position slots = .ok rest ∧ h = leadBytes bits ++ rest := by
  by_cases hb : bits.isEmpty
  · simp only [ofBits, hb, if_true, List.nil_append] at hh
    exact ⟨h, hh, by simp [leadBytes, hb]⟩
  · simp only [ofBits, hb, leadBytes] at hh ⊢
    obtain ⟨rest, hr, hh⟩ := bind_eq_ok.mp hh
    obtain rfl := Except.ok.inj hh
    exact ⟨rest, hr, rfl⟩

end Slot

theorem takeBytes_append (bytes rest : Bytes) (position total : Nat) :
    takeBytes bytes.length position total (bytes ++ rest) = .ok (bytes, rest) := by
  simp [takeBytes]

theorem readHead_fixed (bytes rest : Bytes) (left : List Bool) (position total : Nat)
    (shapes : List Shape) :
    readHead total left position (.fixed bytes.length :: shapes) (bytes ++ rest) = do
      let (parts, rest) ← readHead total [] (position + bytes.length) shapes rest
      return (.here bytes :: parts, rest) := by
  simp only [readHead, takeBytes_append]
  rfl

theorem readHead_dynamic {start : Nat} (hs : start < UInt16.size) (rest : Bytes) (left : List Bool)
    (position total : Nat) (shapes : List Shape) :
    readHead total left position (.dynamic :: shapes) (Bytes.ofNat 2 start ++ rest) = do
      let (parts, rest) ← readHead total [] (position + 2) shapes rest
      return (.at start :: parts, rest) := by
  have ht : takeBytes 2 position total (Bytes.ofNat 2 start ++ rest) =
      .ok (Bytes.ofNat 2 start, rest) := by
    simpa using takeBytes_append (Bytes.ofNat 2 start) rest position total
  have h : Bytes.toNat (Bytes.ofNat 2 start) = start := Bytes.toNat_ofNat hs
  simp only [readHead, ht]
  simp only [bind, Except.bind, h]

/-- The reader has taken the byte that starts with the bits that the writer holds, and has not yet
used the bits that are `left` of it. Where no bits are held no byte was taken. -/
def Held (bits : List Bool) (lead : Bytes) (left : List Bool) : Prop :=
  (bits = [] ∧ lead = [] ∧ left = []) ∨
    (bits ≠ [] ∧ ∃ byte, lead = [byte] ∧ unpackBits byte = bits ++ left)

theorem exists_held {bits : List Bool} (h : bits.length < 8) :
    ∃ left, Held bits (Slot.leadBytes bits) left := by
  by_cases hb : bits = []
  · exact ⟨[], .inl ⟨hb, by simp [Slot.leadBytes, hb], rfl⟩⟩
  · refine ⟨_, .inr ⟨hb, packBits bits, ?_, unpackBits_packBits (by omega)⟩⟩
    simp [Slot.leadBytes, hb]

theorem held_nil {lead : Bytes} {left : List Bool} (h : Held [] lead left) :
    lead = [] ∧ left = [] := by
  rcases h with ⟨-, hl⟩ | ⟨hne, -⟩
  · exact hl
  · exact absurd rfl hne

/-- How the bytes of a head that the writer ends while it holds `bits` are read: the parts come
out, and the bytes after the head stay. -/
def ReadsAs (bits : List Bool) (head : Bytes) (shapes : List Shape) (parts : List Part) : Prop :=
  ∃ lead left rest, head = lead ++ rest ∧ Held bits lead left ∧ ∀ total start after,
    readHead total left start shapes (rest ++ after) = .ok (parts, after)

theorem ReadsAs.bit {bits : List Bool} {b : Bool} {head : Bytes} {shapes : List Shape}
    {parts : List Part} (h : ReadsAs (bits ++ [b]) head shapes parts) :
    ReadsAs bits head (.bit :: shapes) (.here (boolBytes b) :: parts) := by
  obtain ⟨lead, left, rest, rfl, hl, hread⟩ := h
  rcases hl with ⟨hnil, -⟩ | ⟨-, byte, rfl, hbyte⟩
  · simp at hnil
  by_cases hb : bits = []
  · subst hb
    refine ⟨[], [], [byte] ++ rest, by simp, .inl ⟨rfl, rfl, rfl⟩, fun total start after => ?_⟩
    have ht : takeBytes 1 start total ([byte] ++ (rest ++ after)) =
        .ok ([byte], rest ++ after) := by
      simpa using takeBytes_append [byte] (rest ++ after) start total
    have hh := hread total (start + 1) after
    rw [List.append_assoc, readHead, ht]
    simp only [bind, Except.bind, List.headD_cons, hbyte, List.nil_append, List.cons_append,
      List.tail_cons, hh, pure, Except.pure]
  · refine ⟨[byte], b :: left, rest, rfl, .inr ⟨hb, byte, rfl, by simpa using hbyte⟩,
      fun total start after => ?_⟩
    rw [readHead, hread]
    rfl

theorem ReadsAs.skip {bits : List Bool} {head item : Bytes} {shape : Shape} {shapes : List Shape}
    {part : Part} {parts : List Part} (hbits : bits.length < 8) (h : ReadsAs [] head shapes parts)
    (hitem : ∀ total left start rest,
      readHead total left start (shape :: shapes) (item ++ rest) = do
        let (parts, rest) ← readHead total [] (start + item.length) shapes rest
        return (part :: parts, rest)) :
    ReadsAs bits (Slot.leadBytes bits ++ (item ++ head)) (shape :: shapes) (part :: parts) := by
  obtain ⟨lead, left, rest, rfl, hl, hread⟩ := h
  obtain ⟨rfl, rfl⟩ := held_nil hl
  obtain ⟨left, hleft⟩ := exists_held hbits
  refine ⟨_, left, item ++ rest, rfl, hleft, fun total start after => ?_⟩
  rw [List.append_assoc, hitem, hread]
  rfl

theorem readsAs_heads {cells : List Cell} {bits : List Bool} {position : Nat} {h : Bytes}
    (hbits : bits.length < 8) (hh : Slot.heads position (Slot.ofCells bits cells) = .ok h) :
    ReadsAs bits h (cells.map Cell.shape) (Part.ofCells position cells) := by
  induction cells generalizing bits position h with
  | nil =>
    obtain ⟨left, hleft⟩ := exists_held hbits
    rw [Slot.ofCells, ← List.append_nil (Slot.ofBits bits)] at hh
    obtain ⟨rest, hr, rfl⟩ := Slot.heads_ofBits_append hh
    obtain rfl := Except.ok.inj hr
    exact ⟨_, left, [], rfl, hleft, fun total start after => by
      simp only [List.map_nil, List.nil_append, readHead, Part.ofCells]⟩
  | cons c cells ih =>
    cases c with
    | bit b =>
      refine ReadsAs.bit ?_
      by_cases hfull : bits.length = 7
      · -- The byte is full: it is written at once, and the reader uses all of its bits.
        simp only [Slot.ofCells, hfull, if_true] at hh
        obtain ⟨rest, hr, h⟩ := bind_eq_ok.mp hh
        obtain rfl := Except.ok.inj h
        obtain ⟨lead, left, rest, rfl, hl, hread⟩ := ih (by simp) hr
        obtain ⟨rfl, rfl⟩ := held_nil hl
        have hu := unpackBits_packBits (show (bits ++ [b]).length ≤ 8 by simp [hfull])
        exact ⟨_, [], rest, rfl, .inr ⟨by simp, _, rfl, by simpa [hfull] using hu⟩, hread⟩
      · simp only [Slot.ofCells, hfull, if_false] at hh
        exact ih (by simp; omega) hh
    | fixed bytes =>
      obtain ⟨_, hs, rfl⟩ := Slot.heads_ofBits_append hh
      obtain ⟨rest, hr, h⟩ := bind_eq_ok.mp hs
      obtain rfl := Except.ok.inj h
      exact (ih (by simp) hr).skip hbits fun total left start rest =>
        readHead_fixed bytes rest left start total _
    | tail bytes =>
      obtain ⟨_, hs, rfl⟩ := Slot.heads_ofBits_append hh
      by_cases hp : position < UInt16.size
      · simp only [Slot.heads, hp, if_true] at hs
        obtain ⟨rest, hr, h⟩ := bind_eq_ok.mp hs
        obtain rfl := Except.ok.inj h
        refine (ih (by simp) hr).skip hbits fun total left start rest => ?_
        rw [Bytes.length_ofNat]
        exact readHead_dynamic hp rest left start total _
      · simp [Slot.heads, hp] at hs

theorem outside_of_firstStart? {position : Nat} {cells : List Cell}
    (h : Part.firstStart? (Part.ofCells position cells) = none) :
    cells.flatMap Cell.outside = [] := by
  induction cells with
  | nil => rfl
  | cons c cells ih =>
    cases c with
    | bit b => simpa [Cell.outside] using ih h
    | fixed bytes => simpa [Cell.outside] using ih h
    | tail bytes => simp [Part.ofCells, Part.firstStart?] at h

/-- Without an item outside the head nothing follows the head, so its end is the end of all. -/
theorem firstStart?_getD {position total : Nat} {cells : List Cell}
    (h : total = position + (cells.flatMap Cell.outside).length) :
    (Part.firstStart? (Part.ofCells position cells)).getD total = position := by
  induction cells with
  | nil => simpa [Part.ofCells, Part.firstStart?] using h
  | cons c cells ih =>
    cases c with
    | bit b => exact ih (by simpa [Cell.outside] using h)
    | fixed bytes => exact ih (by simpa [Cell.outside] using h)
    | tail bytes => rfl

theorem encodings_ofCells {cells : List Cell} {front all : Bytes}
    (h : all = front ++ cells.flatMap Cell.outside) :
    Part.encodings all (Part.ofCells front.length cells) = .ok (cells.map Cell.bytes) := by
  induction cells generalizing front with
  | nil => rfl
  | cons c cells ih =>
    cases c with
    | bit b =>
      simp only [Part.ofCells, Part.encodings, ih (by simpa [Cell.outside] using h)]
      rfl
    | fixed bytes =>
      simp only [Part.ofCells, Part.encodings, ih (by simpa [Cell.outside] using h)]
      rfl
    | tail bytes =>
      have hall : all = (front ++ bytes) ++ cells.flatMap Cell.outside := by
        simpa [Cell.outside] using h
      have hlen := congrArg List.length hall
      have hi := ih hall
      have hstop : (Part.firstStart? (Part.ofCells (front ++ bytes).length cells)).getD all.length =
          (front ++ bytes).length :=
        firstStart?_getD (by rw [hlen, List.length_append])
      simp only [List.length_append] at hi hstop hlen
      have hpart : (all.drop front.length).take (front.length + bytes.length - front.length) =
          bytes := by
        rw [hall, List.append_assoc, List.drop_left, Nat.add_sub_cancel_left, List.take_left]
      simp only [Part.ofCells, Part.encodings, hstop, hi, hpart]
      rw [if_neg (by omega), if_neg (by omega)]
      rfl

theorem splitItems_layOut {cells : List Cell} {b : Bytes} (h : layOut cells = .ok b) :
    splitItems (cells.map Cell.shape) b = .ok (cells.map Cell.bytes) := by
  obtain ⟨heads, hheads, h⟩ := bind_eq_ok.mp h
  obtain rfl := Except.ok.inj h
  have hlen := Slot.length_of_heads hheads
  obtain ⟨lead, left, rest, rfl, hl, hread⟩ := readsAs_heads (by decide) hheads
  obtain ⟨rfl, rfl⟩ := held_nil hl
  rw [Slot.tails_ofCells, List.nil_append]
  have henc := encodings_ofCells (Eq.refl (rest ++ cells.flatMap Cell.outside))
  rw [List.nil_append] at hlen
  simp only [splitItems, hread, bind, Except.bind, ← hlen, henc]
  rw [if_neg]
  rintro ⟨hnone, hne⟩
  exact hne (outside_of_firstStart? (Option.isNone_iff_eq_none.mp hnone))

theorem Slot.headsSize_ofBits_append (bits : List Bool) (slots : List Slot) :
    Slot.headsSize (Slot.ofBits bits ++ slots) =
      (Slot.leadBytes bits).length + Slot.headsSize slots := by
  by_cases h : bits.isEmpty <;> simp [Slot.ofBits, Slot.leadBytes, h, headsSize, headSize]

/-- The size of a head, of which `used` bits of its last byte are taken, and more items. -/
def Shape.headSize : (used : Nat) → List Shape → Nat
  | _, [] => 0
  | used, .bit :: shapes => (if used = 0 then 1 else 0) + headSize ((used + 1) % 8) shapes
  | _, .fixed size :: shapes => size + headSize 0 shapes
  | _, .dynamic :: shapes => 2 + headSize 0 shapes

theorem Shape.headSize_of_fixedSize? {used size : Nat} {shapes : List Shape}
    (h : fixedSize? used shapes = some size) : headSize used shapes = size := by
  induction shapes generalizing used size with
  | nil => exact Option.some.inj h
  | cons shape shapes ih =>
    cases shape with
    | bit | fixed =>
      obtain ⟨rest, hrest, h⟩ := Option.bind_eq_some_iff.mp h
      obtain rfl := Option.some.inj h
      rw [headSize, ih hrest]
    | dynamic => simp [fixedSize?] at h

/-- The byte of the bits that are held was counted with the first of them. -/
theorem headsSize_ofCells {cells : List Cell} {bits : List Bool} (hbits : bits.length < 8) :
    Slot.headsSize (Slot.ofCells bits cells) =
      (Slot.leadBytes bits).length + Shape.headSize bits.length (cells.map Cell.shape) := by
  induction cells generalizing bits with
  | nil =>
    rw [Slot.ofCells, ← List.append_nil (Slot.ofBits bits), Slot.headsSize_ofBits_append]
    rfl
  | cons c cells ih =>
    cases c with
    | bit b =>
      have hlead : (if bits.length = 0 then 1 else 0) + (Slot.leadBytes bits).length = 1 := by
        cases bits <;> simp [Slot.leadBytes]
      rw [List.map_cons, Cell.shape, Shape.headSize]
      by_cases hfull : bits.length = 7
      · have hnil : (Slot.leadBytes []).length = 0 := rfl
        have hmod : (bits.length + 1) % 8 = ([] : List Bool).length := by simp [hfull]
        rw [Slot.ofCells, if_pos hfull, Slot.headsSize, Slot.headSize, List.length_singleton,
          ih (by decide), hnil, hmod]
        omega
      · have hone : (Slot.leadBytes (bits ++ [b])).length = 1 := by simp [Slot.leadBytes]
        have hmod : (bits.length + 1) % 8 = (bits ++ [b]).length := by simp; omega
        rw [Slot.ofCells, if_neg hfull, ih (by simp; omega), hone, hmod]
        omega
    | fixed bytes =>
      rw [Slot.ofCells, Slot.headsSize_ofBits_append, Slot.headsSize, Slot.headSize, ih (by decide)]
      simp [Slot.leadBytes, Cell.shape, Shape.headSize]
    | tail bytes =>
      rw [Slot.ofCells, Slot.headsSize_ofBits_append, Slot.headsSize, Slot.headSize, ih (by decide)]
      simp [Slot.leadBytes, Cell.shape, Shape.headSize]

theorem length_layOut {cells : List Cell} {b : Bytes} (h : layOut cells = .ok b) :
    b.length = Shape.headSize 0 (cells.map Cell.shape) + (cells.flatMap Cell.outside).length := by
  obtain ⟨heads, hheads, h⟩ := bind_eq_ok.mp h
  obtain rfl := Except.ok.inj h
  have hsize : Slot.headsSize (Slot.ofCells [] cells) =
      0 + Shape.headSize 0 (cells.map Cell.shape) := headsSize_ofCells (by decide)
  rw [Slot.tails_ofCells, List.length_append, Slot.length_of_heads hheads, hsize, Nat.zero_add]

theorem outside_of_fixedSize? {cells : List Cell} {used size : Nat}
    (h : Shape.fixedSize? used (cells.map Cell.shape) = some size) :
    cells.flatMap Cell.outside = [] := by
  induction cells generalizing used size with
  | nil => rfl
  | cons c cells ih =>
    cases c with
    | bit b =>
      obtain ⟨rest, hrest, -⟩ := Option.bind_eq_some_iff.mp h
      simpa [Cell.outside] using ih hrest
    | fixed bytes =>
      obtain ⟨rest, hrest, -⟩ := Option.bind_eq_some_iff.mp h
      simpa [Cell.outside] using ih hrest
    | tail bytes => simp [Cell.shape, Shape.fixedSize?] at h

theorem length_of_layOut {cells : List Cell} {b : Bytes} {size : Nat} (h : layOut cells = .ok b)
    (hsize : Shape.fixedSize? 0 (cells.map Cell.shape) = some size) : b.length = size := by
  rw [length_layOut h, outside_of_fixedSize? hsize, Shape.headSize_of_fixedSize? hsize]
  rfl

end AppLedger.Abi
