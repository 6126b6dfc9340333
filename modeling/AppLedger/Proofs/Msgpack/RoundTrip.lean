import AppLedger.Msgpack.Reader
import AppLedger.Proofs.Bytes

/-! A value is read from its encoding, whatever bytes follow it. -/

namespace AppLedger.Msgpack

theorem Width.bound_eq (width : Width) : width.bound = 1 <<< (8 * width.bytes) := by
  cases width <;> rfl

namespace Reader

theorem take_append (bytes rest : Bytes) :
    take bytes.length (bytes ++ rest) = some (bytes, rest) := by
  simp [take]

theorem number_ofNat {width : Width} {n : Nat} (h : n < width.bound) (rest : Bytes) :
    number width.bytes (Bytes.ofNat width.bytes n ++ rest) = some (n, rest) := by
  have htake := take_append (Bytes.ofNat width.bytes n) rest
  rw [Bytes.length_ofNat] at htake
  rw [Width.bound_eq] at h
  simp only [number, htake, Option.bind_eq_bind, Option.bind_some, Bytes.toNat_ofNat h]
  rfl

end Reader

open Reader

theorem sizedBy_ofNat {width : Width} {size : Nat} (h : size < width.bound)
    (read : Nat → Reader Value) (rest : Bytes) :
    sizedBy width.bytes read (Bytes.ofNat width.bytes size ++ rest) = read size rest := by
  simp only [sizedBy, number_ofNat h, Option.bind_eq_bind, Option.bind_some]

/-- The size after a marker is read at the width that the marker stands for. -/
theorem readWith_sized {inner : Option (Reader Value)} {markers : List (Width × UInt8)}
    {read : Nat → Reader Value} {size : Nat} {bound : Nat}
    (hmarkers : ∀ e ∈ markers, ∀ b, readWith inner (e.2 :: b) = sizedBy e.1.bytes read b)
    (hbound : (markers.getLast?.map (·.1.bound)) = some bound) (h : size < bound) (rest : Bytes) :
    readWith inner (sized markers size ++ rest) = read size rest := by
  induction markers with
  | nil => simp at hbound
  | cons e markers ih =>
    rw [sized]
    by_cases hsize : size < e.1.bound
    · rw [if_pos hsize, List.cons_append, hmarkers e (by simp), sizedBy_ofNat hsize]
    · rw [if_neg hsize]
      cases markers with
      | nil =>
        obtain rfl : e.1.bound = bound := by simpa using hbound
        exact absurd h hsize
      | cons e' markers =>
        exact ih (fun e'' he => hmarkers e'' (by simp [he])) (by simpa using hbound)

theorem toNat_marker {m : Nat} (h : m < 0x100) : (UInt8.ofNat m).toNat = m :=
  UInt8.toNat_ofNat_of_lt h

theorem readUint_ofNat {width : Width} {n : Nat} (h : n < width.bound) (rest : Bytes) :
    readUint width (Bytes.ofNat width.bytes n ++ rest) = some (.uint width n, rest) := by
  simp only [readUint, number_ofNat h, Option.bind_eq_bind, Option.bind_some]
  rfl

theorem readWith_uintBytes (inner : Option (Reader Value)) {n : Nat} (h : n < UInt64.size)
    (rest : Bytes) : readWith inner (uintBytes n ++ rest) = some (.ofNat n, rest) := by
  rw [uintBytes, Value.ofNat]
  by_cases hsmall : n < 128
  · have h8 : n < Width.bound .w8 := Nat.lt_trans hsmall (by decide)
    have hm := toNat_marker h8
    rw [if_pos hsmall, Width.least, if_pos h8, List.singleton_append]
    simp only [readWith, hm]
    rw [if_pos hsmall]
  · rw [if_neg hsmall]
    by_cases h8 : n < Width.bound .w8
    · simp only [sized, Width.least, h8, if_true]
      exact readUint_ofNat h8 rest
    · by_cases h16 : n < Width.bound .w16
      · simp only [sized, Width.least, h8, h16, if_true, if_false]
        exact readUint_ofNat h16 rest
      · by_cases h32 : n < Width.bound .w32
        · simp only [sized, Width.least, h8, h16, h32, if_true, if_false]
          exact readUint_ofNat h32 rest
        · have h64 : n < Width.bound .w64 := h
          simp only [sized, Width.least, h8, h16, h32, h64, if_true, if_false]
          exact readUint_ofNat h64 rest

theorem readWith_textHeader (inner : Option (Reader Value)) {size : Nat} (h : size < UInt32.size)
    (rest : Bytes) : readWith inner (textHeader size ++ rest) = readText size rest := by
  rw [textHeader]
  by_cases hsmall : size < 32
  · have hm : (UInt8.ofNat (0xa0 + size)).toNat = 0xa0 + size := toNat_marker (by omega)
    rw [if_pos hsmall, List.singleton_append]
    simp only [readWith, hm]
    rw [if_neg (by omega), if_neg (by omega), if_neg (by omega), if_pos (by omega),
      Nat.add_sub_cancel_left]
  · rw [if_neg hsmall]
    refine readWith_sized ?_ rfl h rest
    simp only [List.forall_mem_cons, List.not_mem_nil]
    exact ⟨fun _ => rfl, fun _ => rfl, fun _ => rfl, nofun⟩

theorem readWith_bytesHeader (inner : Option (Reader Value)) {size : Nat}
    (h : size < UInt32.size) (rest : Bytes) :
    readWith inner (bytesHeader size ++ rest) = readBytes size rest := by
  rw [bytesHeader]
  refine readWith_sized ?_ rfl h rest
  simp only [List.forall_mem_cons, List.not_mem_nil]
  exact ⟨fun _ => rfl, fun _ => rfl, fun _ => rfl, nofun⟩

theorem readWith_arrayHeader (item : Reader Value) {size : Nat} (h : size < UInt32.size)
    (rest : Bytes) :
    readWith (some item) (arrayHeader size ++ rest) = readArray item size rest := by
  rw [arrayHeader]
  by_cases hsmall : size < 16
  · have hm : (UInt8.ofNat (0x90 + size)).toNat = 0x90 + size := toNat_marker (by omega)
    rw [if_pos hsmall, List.singleton_append]
    simp only [readWith, hm]
    rw [if_neg (by omega), if_neg (by omega), if_pos (by omega), Nat.add_sub_cancel_left]
    rfl
  · rw [if_neg hsmall]
    refine readWith_sized ?_ rfl h rest
    simp only [List.forall_mem_cons, List.not_mem_nil]
    exact ⟨fun _ => rfl, fun _ => rfl, nofun⟩

theorem readWith_mapHeader (item : Reader Value) {size : Nat} (h : size < UInt32.size)
    (rest : Bytes) :
    readWith (some item) (mapHeader size ++ rest) = readMap item size rest := by
  rw [mapHeader]
  by_cases hsmall : size < 16
  · have hm : (UInt8.ofNat (0x80 + size)).toNat = 0x80 + size := toNat_marker (by omega)
    rw [if_pos hsmall, List.singleton_append]
    simp only [readWith, hm]
    rw [if_neg (by omega), if_pos (by omega), Nat.add_sub_cancel_left]
    rfl
  · rw [if_neg hsmall]
    refine readWith_sized ?_ rfl h rest
    simp only [List.forall_mem_cons, List.not_mem_nil]
    exact ⟨fun _ => rfl, fun _ => rfl, nofun⟩

theorem readWithin_eq (depth : Nat) : ∃ inner, readWithin depth = readWith inner := by
  cases depth with
  | zero => exact ⟨none, rfl⟩
  | succ depth => exact ⟨some (readWithin depth), rfl⟩

namespace Value

/-- The value comes back from its encoding, with at most `depth` arrays and maps around one
another. Numbers are those whose width is the least, and no size is too long to be written. -/
inductive Legible : (depth : Nat) → Value → Prop
  | nil {depth : Nat} : Legible depth .nil
  | bool {depth : Nat} (b : Bool) : Legible depth (.bool b)
  | number {depth n : Nat} (h : n < UInt64.size) : Legible depth (.ofNat n)
  | text {depth : Nat} {s : String} (h : s.utf8ByteSize < UInt32.size) : Legible depth (.text s)
  | bytes {depth : Nat} {b : Bytes} (h : b.length < UInt32.size) : Legible depth (.bytes b)
  | array {depth : Nat} {items : List Value} (hsize : items.length < UInt32.size)
      (h : ∀ item ∈ items, Legible depth item) : Legible (depth + 1) (.array items)
  | map {depth : Nat} {entries : List (Value × Value)} (hsize : entries.length < UInt32.size)
      (hkeys : ∀ e ∈ entries, Legible depth e.1) (hvalues : ∀ e ∈ entries, Legible depth e.2) :
      Legible (depth + 1) (.map entries)

end Value

/-- The reader takes the encoding of the value off the front of any bytes. -/
def ReadBy (read : Reader Value) (v : Value) : Prop :=
  ∀ rest, read (v.encode ++ rest) = some (v, rest)

theorem repeated_encodeItems {item : Reader Value} {items : List Value}
    (h : ∀ v ∈ items, ReadBy item v) (rest : Bytes) :
    repeated item items.length (Value.encodeItems items ++ rest) = some (items, rest) := by
  induction items with
  | nil => rfl
  | cons v items ih =>
    have hv := h v (by simp) (Value.encodeItems items ++ rest)
    have hitems := ih fun v' hv' => h v' (by simp [hv'])
    simp only [Value.encodeItems, List.length_cons, repeated, List.append_assoc, hv, hitems,
      Option.bind_eq_bind, Option.bind_some, Option.pure_def]

theorem repeated_encodeEntries {item : Reader Value} {entries : List (Value × Value)}
    (hkeys : ∀ e ∈ entries, ReadBy item e.1) (hvalues : ∀ e ∈ entries, ReadBy item e.2)
    (rest : Bytes) :
    repeated (pair item item) entries.length (Value.encodeEntries entries ++ rest) =
      some (entries, rest) := by
  induction entries with
  | nil => rfl
  | cons e entries ih =>
    have hkey := hkeys e (by simp) (e.2.encode ++ (Value.encodeEntries entries ++ rest))
    have hvalue := hvalues e (by simp) (Value.encodeEntries entries ++ rest)
    have hentries := ih (fun e' he' => hkeys e' (by simp [he'])) fun e' he' =>
      hvalues e' (by simp [he'])
    simp only [Value.encodeEntries, List.length_cons, repeated, pair, List.append_assoc, hkey,
      hvalue, hentries, Option.bind_eq_bind, Option.bind_some, Option.pure_def]

theorem readBy_of_legible {depth : Nat} {v : Value} (h : v.Legible depth) :
    ReadBy (readWithin depth) v := by
  induction h with
  | nil =>
    obtain ⟨inner, hinner⟩ := readWithin_eq _
    exact fun _ => by rw [hinner]; rfl
  | bool b =>
    obtain ⟨inner, hinner⟩ := readWithin_eq _
    intro rest
    rw [hinner]
    cases b <;> rfl
  | number h =>
    obtain ⟨inner, hinner⟩ := readWithin_eq _
    intro rest
    rw [hinner, Value.ofNat, Value.encode]
    exact readWith_uintBytes inner h rest
  | @text _ s h =>
    obtain ⟨inner, hinner⟩ := readWithin_eq _
    intro rest
    have htake := take_append (Bytes.ofText s) rest
    rw [Bytes.length_ofText] at htake
    rw [hinner, Value.encode, List.append_assoc, readWith_textHeader inner h]
    simp only [readText, htake, Option.bind_eq_bind, Option.bind_some, Bytes.toText?_ofText]
    rfl
  | @bytes _ b h =>
    obtain ⟨inner, hinner⟩ := readWithin_eq _
    intro rest
    rw [hinner, Value.encode, List.append_assoc, readWith_bytesHeader inner h]
    simp only [readBytes, take_append, Option.bind_eq_bind, Option.bind_some]
    rfl
  | array hsize _ ih =>
    intro rest
    rw [readWithin, Value.encode, List.append_assoc, readWith_arrayHeader _ hsize]
    simp only [readArray, repeated_encodeItems ih, Option.bind_eq_bind, Option.bind_some]
    rfl
  | map hsize _ _ ihkeys ihvalues =>
    intro rest
    rw [readWithin, Value.encode, List.append_assoc, readWith_mapHeader _ hsize]
    simp only [readMap, repeated_encodeEntries ihkeys ihvalues, Option.bind_eq_bind,
      Option.bind_some]
    rfl

theorem decode?_encode {v : Value} (h : v.Legible maxDepth) : decode? v.encode = some v := by
  have hread := readBy_of_legible h []
  rw [List.append_nil] at hread
  rw [decode?, hread]
  rfl

end AppLedger.Msgpack
