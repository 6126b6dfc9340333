import AppLedger.Abi.Ty

/-! Induction on types, and how the shape of a type goes with its size. The types without a size
are the dynamic ones. -/

namespace AppLedger.Abi

theorem BitSize.eight_mul_width (size : BitSize) : 8 * size.width = size.bits := by
  rw [width, Nat.mul_div_cancel' (Nat.dvd_of_mod_eq_zero size.valid.2.2)]

namespace Ty

/-- A type has a property that every tuple has with its items, and every array with its item. -/
@[elab_as_elim]
theorem induction {P : Ty → Prop} (uint : ∀ size, P (.uint size)) (address : P .address)
    (tuple : ∀ items : List Ty, (∀ item ∈ items, P item) → P (.tuple items)) (string : P .string)
    (byte : P .byte) (bool : P .bool) (static : ∀ item length, P item → P (.static item length))
    (dynamic : ∀ item, P item → P (.dynamic item)) (ty : Ty) : P ty := by
  refine @Ty.rec P (fun items => ∀ item ∈ items, P item) uint address tuple string byte bool static
    dynamic ?_ ?_ ty
  · exact fun item h => absurd h List.not_mem_nil
  · intro item items ih ihs i hi
    rcases List.mem_cons.mp hi with rfl | hi
    · exact ih
    · exact ihs i hi

theorem shape_eq_bit {ty : Ty} (h : ty.shape = .bit) : ty = .bool := by
  unfold shape shapeOf at h
  split at h
  · rfl
  · simp at h
  · simp at h

theorem size?_of_shape {ty : Ty} {size : Nat} (h : ty.shape = .fixed size) :
    ty.size? = some size := by
  unfold shape shapeOf at h
  split at h
  · simp at h
  · next n hn =>
    obtain rfl := Shape.fixed.inj h
    exact hn
  · simp at h

end Ty

namespace Shape

theorem fixedSize?_replicate_bit {used : Nat} (h : used < 8) (count : Nat) :
    fixedSize? used (List.replicate count .bit) =
      some ((used + count + 7) / 8 - (used + 7) / 8) := by
  induction count generalizing used with
  | zero => simp [fixedSize?]
  | succ count ih =>
    have hmod : (used + 1) % 8 < 8 := Nat.mod_lt _ (by decide)
    rw [List.replicate_succ, fixedSize?, ih hmod]
    simp only [Option.bind_eq_bind, Option.bind_some, Option.pure_def, Option.some.injEq]
    by_cases hz : used = 0
    · simp only [hz, if_true]
      omega
    · simp only [hz, if_false]
      omega

theorem fixedSize?_replicate_fixed {used size : Nat} (count : Nat) :
    fixedSize? used (List.replicate count (.fixed size)) = some (size * count) := by
  induction count generalizing used with
  | zero => rfl
  | succ count ih =>
    rw [List.replicate_succ, fixedSize?, ih]
    simp only [Option.bind_eq_bind, Option.bind_some, Option.pure_def, Nat.mul_succ, Nat.add_comm]

end Shape

namespace Ty

/-- An array of fixed size has the size of a tuple of so many of its items. -/
theorem fixedSize?_of_static {item : Ty} {length : UInt64} {size : Nat}
    (h : (Ty.static item length).size? = some size) :
    Shape.fixedSize? 0 (List.replicate length.toNat item.shape) = some size := by
  rw [size?] at h
  split at h
  · next hs =>
    rw [shape, hs, Shape.fixedSize?_replicate_bit (by decide), ← h]
    simp
  · next n hs =>
    rw [shape, hs, Shape.fixedSize?_replicate_fixed, h]
  · simp at h

theorem shape_eq_dynamic_iff {ty : Ty} : ty.shape = .dynamic ↔ ty.size? = none := by
  unfold shape shapeOf
  split
  · simp [size?]
  · next n h => simp [h]
  · next h => simp [h]

end Ty

theorem Shape.fixedSize?_eq_none_iff {used : Nat} {shapes : List Shape} :
    fixedSize? used shapes = none ↔ .dynamic ∈ shapes := by
  induction shapes generalizing used with
  | nil => simp [fixedSize?]
  | cons shape shapes ih =>
    cases shape <;> simp [fixedSize?, ← Option.eq_none_iff_forall_ne_some, ih]

namespace Ty

theorem dynamic_mem_shapes_iff {items : List Ty} :
    .dynamic ∈ shapes items ↔ ∃ item ∈ items, item.size? = none := by
  induction items with
  | nil => simp [shapes]
  | cons item items ih =>
    have hitem : .dynamic = shapeOf item item.size? ↔ item.size? = none :=
      eq_comm.trans shape_eq_dynamic_iff
    simp [shapes, ih, hitem]

theorem anyDynamic_iff {items : List Ty} :
    anyDynamic items = true ↔ ∃ item ∈ items, item.isDynamic = true := by
  induction items with
  | nil => simp [anyDynamic]
  | cons item items ih => simp [anyDynamic, ih]

theorem size?_eq_none_iff {ty : Ty} : ty.size? = none ↔ ty.isDynamic = true := by
  induction ty using Ty.induction with
  | uint | address | byte | bool | string | dynamic => simp [size?, isDynamic]
  | tuple items ih =>
    rw [size?, Shape.fixedSize?_eq_none_iff, dynamic_mem_shapes_iff, isDynamic, anyDynamic_iff]
    exact exists_congr fun item => and_congr_right fun hitem => ih item hitem
  | static item length ih =>
    rw [size?, isDynamic, ← ih, ← shape_eq_dynamic_iff, shape]
    split <;> simp_all

theorem isDynamic_tuple_eq_false_iff {items : List Ty} :
    (Ty.tuple items).isDynamic = false ↔ ∀ item ∈ items, item.isDynamic = false := by
  simp only [isDynamic, ← Bool.not_eq_true, anyDynamic_iff, not_exists, not_and]

theorem dynamic_not_mem_shapes {items : List Ty} (h : ∀ item ∈ items, item.isDynamic = false) :
    .dynamic ∉ shapes items := by
  rw [dynamic_mem_shapes_iff]
  rintro ⟨item, hmem, hnone⟩
  rw [size?_eq_none_iff, h item hmem] at hnone
  contradiction

theorem exists_shape_eq_fixed {ty : Ty} (hbool : ty ≠ .bool) (h : ty.isDynamic = false) :
    ∃ size, ty.shape = .fixed size := by
  cases hshape : ty.shape with
  | bit => exact absurd (shape_eq_bit hshape) hbool
  | fixed size => exact ⟨size, rfl⟩
  | dynamic =>
    rw [shape_eq_dynamic_iff, size?_eq_none_iff, h] at hshape
    contradiction

end Ty

end AppLedger.Abi
