import AppLedger.Proofs.Msgpack.Field
import AppLedger.Proofs.Outcome

/-! What is read off bytes can be written again, since the size of every part of it comes from a
header. So can the fields of a record that is read. -/

namespace AppLedger.Msgpack

namespace Value

/-- No text, byte string, array or map in the value, at any depth, is too long to be written. -/
inductive Sized : Value → Prop
  | nil : Sized .nil
  | bool (b : Bool) : Sized (.bool b)
  | uint (width : Width) (n : Nat) : Sized (.uint width n)
  | sint (n : Int) : Sized (.sint n)
  | float (b : Bytes) : Sized (.float b)
  | ext (tag : UInt8) (data : Bytes) : Sized (.ext tag data)
  | text {s : String} (h : s.utf8ByteSize < UInt32.size) : Sized (.text s)
  | bytes {b : Bytes} (h : b.length < UInt32.size) : Sized (.bytes b)
  | array {items : List Value} (hsize : items.length < UInt32.size)
      (h : ∀ item ∈ items, Sized item) : Sized (.array items)
  | map {entries : List (Value × Value)} (hsize : entries.length < UInt32.size)
      (hkeys : ∀ e ∈ entries, Sized e.1) (hvalues : ∀ e ∈ entries, Sized e.2) :
      Sized (.map entries)

end Value

namespace Reader

variable {α β : Type} {P : α → Prop} {Q : β → Prop}

/-- Whatever the reader takes off bytes has the property. -/
def Gives (read : Reader α) (P : α → Prop) : Prop :=
  ∀ ⦃b rest : Bytes⦄ ⦃a : α⦄, read b = some (a, rest) → P a

theorem gives_take (count : Nat) : Gives (take count) fun bytes => bytes.length = count := by
  intro b rest bytes h
  rw [take] at h
  split at h
  · next hle =>
    obtain ⟨rfl, -⟩ := Prod.mk.inj (Option.some.inj h)
    exact List.length_take_of_le hle
  · simp at h

theorem gives_number (width : Nat) : Gives (number width) fun n => n < 1 <<< (8 * width) := by
  intro b rest n h
  obtain ⟨⟨bytes, _⟩, htake, h⟩ := Option.bind_eq_some_iff.mp h
  obtain ⟨rfl, -⟩ := Prod.mk.inj (Option.some.inj h)
  have hlength := gives_take width htake
  rw [← hlength]
  exact Bytes.toNat_lt bytes

theorem gives_repeated {one : Reader α} (h : Gives one P) (count : Nat) :
    Gives (repeated one count) fun as => as.length = count ∧ ∀ a ∈ as, P a := by
  induction count with
  | zero =>
    intro b rest as hread
    obtain ⟨rfl, -⟩ := Prod.mk.inj (Option.some.inj hread)
    exact ⟨rfl, nofun⟩
  | succ count ih =>
    intro b rest as hread
    obtain ⟨⟨a, _⟩, hone, hread⟩ := Option.bind_eq_some_iff.mp hread
    obtain ⟨⟨as', _⟩, hrest, hread⟩ := Option.bind_eq_some_iff.mp hread
    obtain ⟨rfl, -⟩ := Prod.mk.inj (Option.some.inj hread)
    obtain ⟨hlength, hall⟩ := ih hrest
    exact ⟨congrArg (· + 1) hlength, List.forall_mem_cons.mpr ⟨h hone, hall⟩⟩

theorem gives_pair {first : Reader α} {second : Reader β} (hfirst : Gives first P)
    (hsecond : Gives second Q) : Gives (pair first second) fun p => P p.1 ∧ Q p.2 := by
  intro b rest p h
  obtain ⟨⟨x, _⟩, hx, h⟩ := Option.bind_eq_some_iff.mp h
  obtain ⟨⟨y, _⟩, hy, h⟩ := Option.bind_eq_some_iff.mp h
  obtain ⟨rfl, -⟩ := Prod.mk.inj (Option.some.inj h)
  exact ⟨hfirst hx, hsecond hy⟩

end Reader

open Reader

/-- The size that comes first can be written, however long the bytes are. -/
theorem gives_sizedBy {width : Nat} {read : Nat → Reader Value} {P : Value → Prop}
    (hwidth : width ≤ 4) (h : ∀ size < UInt32.size, Gives (read size) P) :
    Gives (sizedBy width read) P := by
  intro b rest v hread
  obtain ⟨⟨size, _⟩, hsize, hread⟩ := Option.bind_eq_some_iff.mp hread
  have hlt : size < 1 <<< (8 * width) := gives_number width hsize
  have hle : 1 <<< (8 * width) ≤ 1 <<< (8 * 4) := by
    simp only [Nat.shiftLeft_eq, Nat.one_mul]
    exact Nat.pow_le_pow_right (by decide) (by omega)
  exact h size (Nat.lt_of_lt_of_le hlt hle) hread

theorem gives_readUint (width : Width) : Gives (readUint width) Value.Sized := by
  intro b rest v h
  obtain ⟨_, -, h⟩ := Option.bind_eq_some_iff.mp h
  obtain ⟨rfl, -⟩ := Prod.mk.inj (Option.some.inj h)
  exact .uint ..

theorem gives_readSint (width : Nat) : Gives (readSint width) Value.Sized := by
  intro b rest v h
  obtain ⟨_, -, h⟩ := Option.bind_eq_some_iff.mp h
  obtain ⟨rfl, -⟩ := Prod.mk.inj (Option.some.inj h)
  exact .sint _

theorem gives_readFloat (width : Nat) : Gives (readFloat width) Value.Sized := by
  intro b rest v h
  obtain ⟨_, -, h⟩ := Option.bind_eq_some_iff.mp h
  obtain ⟨rfl, -⟩ := Prod.mk.inj (Option.some.inj h)
  exact .float _

theorem gives_readExt (size : Nat) : Gives (readExt size) Value.Sized := by
  intro b rest v h
  obtain ⟨_, -, h⟩ := Option.bind_eq_some_iff.mp h
  obtain ⟨_, -, h⟩ := Option.bind_eq_some_iff.mp h
  obtain ⟨rfl, -⟩ := Prod.mk.inj (Option.some.inj h)
  exact .ext ..

theorem gives_readText {size : Nat} (hsize : size < UInt32.size) :
    Gives (readText size) Value.Sized := by
  intro b rest v h
  obtain ⟨⟨bytes, _⟩, htake, h⟩ := Option.bind_eq_some_iff.mp h
  have hlength : bytes.length = size := gives_take size htake
  cases htext : Bytes.toText? bytes with
  | some s =>
    simp only [htext] at h
    obtain ⟨rfl, -⟩ := Prod.mk.inj (Option.some.inj h)
    refine .text ?_
    rw [← Bytes.length_ofText, Bytes.ofText_of_toText? htext, hlength]
    exact hsize
  | none =>
    simp only [htext] at h
    obtain ⟨rfl, -⟩ := Prod.mk.inj (Option.some.inj h)
    exact .bytes (hlength ▸ hsize)

theorem gives_readBytes {size : Nat} (hsize : size < UInt32.size) :
    Gives (readBytes size) Value.Sized := by
  intro b rest v h
  obtain ⟨⟨bytes, _⟩, htake, h⟩ := Option.bind_eq_some_iff.mp h
  have hlength : bytes.length = size := gives_take size htake
  obtain ⟨rfl, -⟩ := Prod.mk.inj (Option.some.inj h)
  exact .bytes (hlength ▸ hsize)

theorem gives_readArray {item : Reader Value} (hitem : Gives item Value.Sized) {size : Nat}
    (hsize : size < UInt32.size) : Gives (readArray item size) Value.Sized := by
  intro b rest v h
  obtain ⟨⟨items, _⟩, hitems, h⟩ := Option.bind_eq_some_iff.mp h
  obtain ⟨rfl, -⟩ := Prod.mk.inj (Option.some.inj h)
  obtain ⟨hlength, hall⟩ := gives_repeated hitem size hitems
  exact .array (hlength ▸ hsize) hall

theorem gives_readMap {item : Reader Value} (hitem : Gives item Value.Sized) {size : Nat}
    (hsize : size < UInt32.size) : Gives (readMap item size) Value.Sized := by
  intro b rest v h
  obtain ⟨⟨entries, _⟩, hentries, h⟩ := Option.bind_eq_some_iff.mp h
  obtain ⟨rfl, -⟩ := Prod.mk.inj (Option.some.inj h)
  obtain ⟨hlength, hall⟩ := gives_repeated (gives_pair hitem hitem) size hentries
  exact .map (hlength ▸ hsize) (fun e he => (hall e he).1) fun e he => (hall e he).2

section Inner

variable {inner : Option (Reader Value)}

/-- What is read around other values. -/
theorem gives_bind_inner (hinner : ∀ item ∈ inner, Gives item Value.Sized)
    (read : Reader Value → Reader Value)
    (h : ∀ item, Gives item Value.Sized → Gives (read item) Value.Sized) :
    Gives (fun b => inner.bind fun item => read item b) Value.Sized := by
  intro b rest v hread
  obtain ⟨item, hitem, hread⟩ := Option.bind_eq_some_iff.mp hread
  exact h item (hinner item hitem) hread

theorem gives_ext (hinner : ∀ item ∈ inner, Gives item Value.Sized) {read : Reader Value}
    (h : Gives read Value.Sized) : Gives (fun b => inner.bind fun _ => read b) Value.Sized :=
  gives_bind_inner hinner (fun _ => read) fun _ _ => h

theorem gives_sizedExt (hinner : ∀ item ∈ inner, Gives item Value.Sized) {width : Nat}
    (hwidth : width ≤ 4) :
    Gives (fun b => inner.bind fun _ => sizedBy width readExt b) Value.Sized :=
  gives_ext hinner (gives_sizedBy hwidth fun size _ => gives_readExt size)

theorem gives_array (hinner : ∀ item ∈ inner, Gives item Value.Sized) {width : Nat}
    (hwidth : width ≤ 4) :
    Gives (fun b => inner.bind fun item => sizedBy width (readArray item) b) Value.Sized :=
  gives_bind_inner hinner (fun item => sizedBy width (readArray item)) fun _ hitem =>
    gives_sizedBy hwidth fun _ => gives_readArray hitem

theorem gives_map (hinner : ∀ item ∈ inner, Gives item Value.Sized) {width : Nat}
    (hwidth : width ≤ 4) :
    Gives (fun b => inner.bind fun item => sizedBy width (readMap item) b) Value.Sized :=
  gives_bind_inner hinner (fun item => sizedBy width (readMap item)) fun _ hitem =>
    gives_sizedBy hwidth fun _ => gives_readMap hitem

/-- The size is in the marker or in at most four bytes after it. -/
theorem gives_readWith (hinner : ∀ item ∈ inner, Gives item Value.Sized) :
    Gives (readWith inner) Value.Sized := by
  intro b rest v h
  cases b with
  | nil => simp [readWith] at h
  | cons marker b =>
    have hsmall (n : Nat) : marker.toNat - n < UInt32.size :=
      Nat.lt_of_le_of_lt (Nat.sub_le ..) (Nat.lt_trans marker.toNat_lt (by decide))
    simp only [readWith] at h
    split at h
    · obtain ⟨rfl, -⟩ := Prod.mk.inj (Option.some.inj h)
      exact .uint ..
    split at h
    · exact gives_bind_inner hinner (fun item => readMap item _)
        (fun _ hitem => gives_readMap hitem (hsmall _)) h
    split at h
    · exact gives_bind_inner hinner (fun item => readArray item _)
        (fun _ hitem => gives_readArray hitem (hsmall _)) h
    split at h
    · exact gives_readText (hsmall _) h
    split at h
    · obtain ⟨rfl, -⟩ := Prod.mk.inj (Option.some.inj h)
      exact .sint _
    split at h
    case h_1 =>
      obtain ⟨rfl, -⟩ := Prod.mk.inj (Option.some.inj h)
      exact .nil
    case h_2 | h_3 =>
      obtain ⟨rfl, -⟩ := Prod.mk.inj (Option.some.inj h)
      exact .bool _
    case h_4 | h_5 | h_6 => exact gives_sizedBy (by decide) (fun _ => gives_readBytes) h
    case h_7 | h_8 | h_9 => exact gives_sizedExt hinner (by decide) h
    case h_10 | h_11 => exact gives_readFloat _ h
    case h_12 | h_13 | h_14 | h_15 => exact gives_readUint _ h
    case h_16 | h_17 | h_18 | h_19 => exact gives_readSint _ h
    case h_20 | h_21 | h_22 | h_23 | h_24 => exact gives_ext hinner (gives_readExt _) h
    case h_25 | h_26 | h_27 => exact gives_sizedBy (by decide) (fun _ => gives_readText) h
    case h_28 | h_29 => exact gives_array hinner (by decide) h
    case h_30 | h_31 => exact gives_map hinner (by decide) h
    case h_32 => simp at h

end Inner

theorem gives_readWithin (depth : Nat) : Gives (readWithin depth) Value.Sized := by
  induction depth with
  | zero => exact gives_readWith (by simp)
  | succ depth ih =>
    refine gives_readWith fun item hitem => ?_
    obtain rfl := Option.some.inj hitem
    exact ih

theorem sized_of_decode? {b : Bytes} {v : Value} (h : decode? b = some v) : v.Sized := by
  obtain ⟨⟨_, _⟩, hread, rfl⟩ := Option.map_eq_some_iff.mp h
  exact gives_readWithin maxDepth hread

/-! ## Slots -/

namespace Value

variable {slots slots' : List (Option Value)} {v w : Value}

/-- What the slot holds can be written. -/
def SlotSized (slot : Option Value) : Prop :=
  ∀ v, slot = some v → v.Sized

theorem mem_of_fillSlot {i : Nat} (h : fillSlot slots i v = some slots') (hw : some w ∈ slots') :
    w = v ∨ some w ∈ slots := by
  fun_induction fillSlot slots i v generalizing slots' with
  | case1 v slots =>
    obtain rfl := Option.some.inj h
    rcases List.mem_cons.mp hw with heq | hw
    · exact .inl (Option.some.inj heq)
    · exact .inr (List.mem_cons_of_mem _ hw)
  | case2 slot slots i v ih =>
    obtain ⟨rest, hrest, rfl⟩ := Option.map_eq_some_iff.mp h
    rcases List.mem_cons.mp hw with rfl | hw
    · exact .inr List.mem_cons_self
    · exact (ih hrest hw).imp_right (List.mem_cons_of_mem _)
  | case3 => simp at h

theorem mem_of_fillSlots {index : Value → Option (Option Nat)} {entries : List (Value × Value)}
    (h : fillSlots index slots entries = some slots') (hw : some w ∈ slots') :
    some w ∈ slots ∨ ∃ e ∈ entries, e.2 = w := by
  induction entries generalizing slots with
  | nil =>
    obtain rfl := Option.some.inj h
    exact .inl hw
  | cons e entries ih =>
    obtain ⟨key, v⟩ := e
    rw [fillSlots] at h
    have hrest : (∃ e ∈ entries, e.2 = w) → ∃ e ∈ (key, v) :: entries, e.2 = w := by
      rintro ⟨e, he, heq⟩
      exact ⟨e, List.mem_cons_of_mem _ he, heq⟩
    split at h
    · simp at h
    · exact (ih h).imp_right hrest
    · obtain ⟨filled, hfill, h⟩ := Option.bind_eq_some_iff.mp h
      rcases ih h with hmem | hmem
      · rcases mem_of_fillSlot hfill hmem with rfl | hmem
        · exact .inr ⟨_, List.mem_cons_self, rfl⟩
        · exact .inl hmem
      · exact .inr (hrest hmem)

theorem slotSized_of_fillSlots {names : List String} {index : Value → Option (Option Nat)}
    {entries : List (Value × Value)} (hentries : ∀ e ∈ entries, e.2.Sized)
    (h : fillSlots index (names.map fun _ => none) entries = some slots) :
    ∀ slot ∈ slots, SlotSized slot := by
  rintro slot hslot w rfl
  rcases mem_of_fillSlots h hslot with hmem | ⟨e, he, rfl⟩
  · simp at hmem
  · exact hentries e he

theorem slotSized_of_namedFields? {names : List String} (hv : v.Sized)
    (h : v.namedFields? names = some slots) : ∀ slot ∈ slots, SlotSized slot := by
  cases hv with
  | map _ _ hvalues => exact slotSized_of_fillSlots hvalues h
  | nil | bool | uint | sint | float | ext | text | bytes | array => simp [namedFields?] at h

theorem slotSized_of_fields? {widths : KeyWidths} {names : List String} (hv : v.Sized)
    (h : v.fields? widths names = some slots) : ∀ slot ∈ slots, SlotSized slot := by
  cases hv with
  | map _ _ hvalues => exact slotSized_of_fillSlots hvalues h
  | array _ hitems =>
    rw [fields?] at h
    split at h
    · obtain rfl := Option.some.inj h
      rintro slot hslot w rfl
      rcases List.mem_append.mp hslot with hmem | hmem
      · obtain ⟨item, hitem, heq⟩ := List.mem_map.mp hmem
        exact Option.some.inj heq ▸ hitems item hitem
      · simp at hmem
    · simp at h
  | nil | bool | uint | sint | float | ext | text | bytes => simp [fields?] at h

theorem exists_of_optional? {α : Type} {read? : Value → Option α} {slot : Option Value} {a : α}
    (h : optional? read? slot = some (some a)) : ∃ v, slot = some v ∧ read? v = some a := by
  unfold optional? at h
  split at h
  · simp at h
  · simp at h
  · next v _ =>
    obtain ⟨_, hread, heq⟩ := Option.map_eq_some_iff.mp h
    obtain rfl := Option.some.inj heq
    exact ⟨v, rfl, hread⟩

end Value

/-! ## Fields -/

namespace FieldCodec

variable {α : Type} {f : FieldCodec α}

/-- What is read as the field can be written again. -/
def Bounded (f : FieldCodec α) : Prop :=
  ∀ ⦃v : Value⦄ ⦃a : α⦄, v.Sized → f.read? v = some a → f.Fits a

theorem Bounded.optional (hf : f.Bounded) {slot : Option Value} (hslot : Value.SlotSized slot)
    {a : Option α} (h : Value.optional? f.read? slot = some a) : ∀ x ∈ a, f.Fits x := by
  rintro x rfl
  obtain ⟨v, rfl, hread⟩ := Value.exists_of_optional? h
  exact hf (hslot v rfl) hread

theorem bounded_text : text.Bounded := by
  intro v s hv h
  cases hv with
  | text hsize =>
    obtain rfl := Option.some.inj h
    exact hsize
  | @bytes b hsize =>
    have hbytes := Bytes.ofText_of_toText? h
    rw [← hbytes, Bytes.length_ofText] at hsize
    exact hsize
  | nil | bool | uint | sint | float | ext | array | map => simp [text, Value.text?] at h

theorem bounded_bytes : bytes.Bounded := by
  intro v b hv h
  cases hv with
  | @text s hsize =>
    obtain rfl := Option.some.inj h
    exact Nat.lt_of_le_of_lt (Nat.le_of_eq (Bytes.length_ofText s)) hsize
  | bytes hsize =>
    obtain rfl := Option.some.inj h
    exact hsize
  | array hsize _ =>
    have hlength := (forall₂_of_mapM_some h).length_eq
    exact Nat.lt_of_le_of_lt (Nat.le_of_eq hlength.symm) hsize
  | nil | bool | uint | sint | float | ext | map => simp [bytes, Value.bytes?] at h

theorem Bounded.list (hf : f.Bounded) : f.list.Bounded := by
  intro v as hv h
  cases hv with
  | array hsize hitems =>
    have hread := forall₂_of_mapM_some h
    refine ⟨hread.length_eq ▸ hsize, fun a ha => ?_⟩
    obtain ⟨item, hitem, hitemRead⟩ := exists_of_mem_right hread a ha
    exact hf (hitems item hitem) hitemRead
  | nil | bool | uint | sint | float | ext | text | bytes | map =>
    simp [FieldCodec.list, Value.list?] at h

end FieldCodec

end AppLedger.Msgpack
