import AppLedger.Proofs.Msgpack.RoundTrip

/-! Bytes hold consecutive values in one way at most: what is read off the front of them does not
depend on what follows. -/

namespace AppLedger.Msgpack

namespace Reader

variable {α β : Type}

/-- Whatever the first reader takes off bytes, the second one does too, and leaves alone the bytes
that are put after them. -/
def Extends (read read' : Reader α) : Prop :=
  ∀ ⦃b rest : Bytes⦄ ⦃a : α⦄, read b = some (a, rest) →
    ∀ more, read' (b ++ more) = some (a, rest ++ more)

theorem extends_pure (a : α) : Extends (fun b => some (a, b)) fun b => some (a, b) := by
  intro b rest a' h more
  obtain ⟨rfl, rfl⟩ := Prod.mk.inj (Option.some.inj h)
  rfl

theorem Extends.bind {first first' : Reader α} {next next' : α → Reader β}
    (hfirst : Extends first first') (hnext : ∀ a, Extends (next a) (next' a)) :
    Extends (fun b => (first b).bind fun p => next p.1 p.2)
      fun b => (first' b).bind fun p => next' p.1 p.2 := by
  intro b rest c h more
  obtain ⟨⟨a, middle⟩, ha, hc⟩ := Option.bind_eq_some_iff.mp h
  exact Option.bind_eq_some_iff.mpr ⟨(a, middle ++ more), hfirst ha more, hnext a hc more⟩

theorem extends_take (count : Nat) : Extends (take count) (take count) := by
  intro b rest bytes h more
  rw [take] at h
  split at h
  · next hle =>
    obtain ⟨rfl, rfl⟩ := Prod.mk.inj (Option.some.inj h)
    have hlonger : count ≤ (b ++ more).length := by
      rw [List.length_append]
      omega
    rw [take, if_pos hlonger, List.take_append_of_le_length hle, List.drop_append_of_le_length hle]
  · simp at h

theorem extends_number (width : Nat) : Extends (number width) (number width) :=
  (extends_take width).bind fun _ => extends_pure _

theorem extends_signed (width : Nat) : Extends (signed width) (signed width) :=
  (extends_number width).bind fun n => extends_pure ((n : Int).bmod (1 <<< (8 * width)))

theorem Extends.repeated {one one' : Reader α} (h : Extends one one') (count : Nat) :
    Extends (repeated one count) (repeated one' count) := by
  induction count with
  | zero => exact extends_pure []
  | succ count ih => exact h.bind fun _ => ih.bind fun _ => extends_pure _

theorem Extends.pair {first first' : Reader α} {second second' : Reader β}
    (hfirst : Extends first first') (hsecond : Extends second second') :
    Extends (pair first second) (pair first' second') :=
  hfirst.bind fun _ => hsecond.bind fun _ => extends_pure _

end Reader

open Reader

theorem extends_readUint (width : Width) : Extends (readUint width) (readUint width) :=
  (extends_number _).bind fun _ => extends_pure _

theorem extends_readSint (width : Nat) : Extends (readSint width) (readSint width) :=
  (extends_signed width).bind fun _ => extends_pure _

theorem extends_readFloat (width : Nat) : Extends (readFloat width) (readFloat width) :=
  (extends_take width).bind fun _ => extends_pure _

theorem extends_readBytes (size : Nat) : Extends (readBytes size) (readBytes size) :=
  (extends_take size).bind fun _ => extends_pure _

theorem extends_readText (size : Nat) : Extends (readText size) (readText size) := by
  intro b rest v h more
  obtain ⟨⟨bytes, middle⟩, htake, hv⟩ := Option.bind_eq_some_iff.mp h
  refine Option.bind_eq_some_iff.mpr ⟨(bytes, middle ++ more), extends_take size htake more, ?_⟩
  cases htext : Bytes.toText? bytes with
  | some s =>
    simp only [htext] at hv ⊢
    exact extends_pure _ hv more
  | none =>
    simp only [htext] at hv ⊢
    exact extends_pure _ hv more

theorem extends_readExt (size : Nat) : Extends (readExt size) (readExt size) :=
  (extends_take 1).bind fun tag =>
    (extends_take size).bind fun data => extends_pure (Value.ext (tag.headD 0) data)

theorem extends_readArray {item item' : Reader Value} (h : Extends item item') (size : Nat) :
    Extends (readArray item size) (readArray item' size) :=
  (h.repeated size).bind fun _ => extends_pure _

theorem extends_readMap {item item' : Reader Value} (h : Extends item item') (size : Nat) :
    Extends (readMap item size) (readMap item' size) :=
  ((h.pair h).repeated size).bind fun _ => extends_pure _

theorem extends_sizedBy (width : Nat) {read read' : Nat → Reader Value}
    (h : ∀ size, Extends (read size) (read' size)) :
    Extends (sizedBy width read) (sizedBy width read') :=
  (extends_number width).bind h

section Inner

variable {inner inner' : Option (Reader Value)}

/-- What is read inside a value is read there too, with what is put after it. -/
def InnerExtends (inner inner' : Option (Reader Value)) : Prop :=
  ∀ item ∈ inner, ∃ item' ∈ inner', Extends item item'

theorem extends_inner (hinner : InnerExtends inner inner')
    (read read' : Reader Value → Reader Value)
    (h : ∀ item item', Extends item item' → Extends (read item) (read' item')) :
    Extends (fun b => inner.bind fun item => read item b)
      fun b => inner'.bind fun item => read' item b := by
  intro b rest v hread more
  obtain ⟨item, hitem, hread⟩ := Option.bind_eq_some_iff.mp hread
  obtain ⟨item', hitem', hextends⟩ := hinner item hitem
  exact Option.bind_eq_some_iff.mpr ⟨item', hitem', h item item' hextends hread more⟩

theorem extends_ext (hinner : InnerExtends inner inner') {read : Reader Value}
    (h : Extends read read) :
    Extends (fun b => inner.bind fun _ => read b) fun b => inner'.bind fun _ => read b :=
  extends_inner hinner (fun _ => read) (fun _ => read) fun _ _ _ => h

theorem extends_sizedArray (hinner : InnerExtends inner inner') (width : Nat) :
    Extends (fun b => inner.bind fun item => sizedBy width (readArray item) b)
      fun b => inner'.bind fun item => sizedBy width (readArray item) b :=
  extends_inner hinner _ _ fun _ _ h => extends_sizedBy width (extends_readArray h)

theorem extends_sizedMap (hinner : InnerExtends inner inner') (width : Nat) :
    Extends (fun b => inner.bind fun item => sizedBy width (readMap item) b)
      fun b => inner'.bind fun item => sizedBy width (readMap item) b :=
  extends_inner hinner _ _ fun _ _ h => extends_sizedBy width (extends_readMap h)

/-- The marker is the same, and what it stands for is read in the same way. -/
theorem extends_readWith (hinner : InnerExtends inner inner') :
    Extends (readWith inner) (readWith inner') := by
  intro b rest v h more
  cases b with
  | nil => simp [readWith] at h
  | cons marker b =>
    rw [List.cons_append]
    simp only [readWith] at h ⊢
    generalize marker.toNat = m at h ⊢
    by_cases h80 : m < 0x80
    · rw [if_pos h80] at h ⊢
      exact extends_pure _ h more
    rw [if_neg h80] at h ⊢
    by_cases h90 : m < 0x90
    · rw [if_pos h90] at h ⊢
      exact extends_inner hinner _ _ (fun _ _ hitem => extends_readMap hitem _) h more
    rw [if_neg h90] at h ⊢
    by_cases ha0 : m < 0xa0
    · rw [if_pos ha0] at h ⊢
      exact extends_inner hinner _ _ (fun _ _ hitem => extends_readArray hitem _) h more
    rw [if_neg ha0] at h ⊢
    by_cases hc0 : m < 0xc0
    · rw [if_pos hc0] at h ⊢
      exact extends_readText _ h more
    rw [if_neg hc0] at h ⊢
    by_cases he0 : 0xe0 ≤ m
    · rw [if_pos he0] at h ⊢
      exact extends_pure _ h more
    rw [if_neg he0] at h ⊢
    split at h
    case h_1 | h_2 | h_3 => exact extends_pure _ h more
    case h_4 | h_5 | h_6 => exact extends_sizedBy _ extends_readBytes h more
    case h_7 | h_8 | h_9 => exact extends_ext hinner (extends_sizedBy _ extends_readExt) h more
    case h_10 | h_11 => exact extends_readFloat _ h more
    case h_12 | h_13 | h_14 | h_15 => exact extends_readUint _ h more
    case h_16 | h_17 | h_18 | h_19 => exact extends_readSint _ h more
    case h_20 | h_21 | h_22 | h_23 | h_24 => exact extends_ext hinner (extends_readExt _) h more
    case h_25 | h_26 | h_27 => exact extends_sizedBy _ extends_readText h more
    case h_28 | h_29 => exact extends_sizedArray hinner _ h more
    case h_30 | h_31 => exact extends_sizedMap hinner _ h more
    case h_32 => cases h

end Inner

/-- What lies at most so deep is read as well where there is room for more. -/
theorem extends_readWithin {depth depth' : Nat} (h : depth ≤ depth') :
    Extends (readWithin depth) (readWithin depth') := by
  induction depth generalizing depth' with
  | zero =>
    obtain ⟨inner, hinner⟩ := readWithin_eq depth'
    rw [hinner]
    exact extends_readWith fun _ hitem => absurd hitem (Option.not_mem_none _)
  | succ depth ih =>
    obtain ⟨depth', rfl⟩ : ∃ d, depth' = d + 1 := ⟨depth' - 1, by omega⟩
    refine extends_readWith fun item hitem => ?_
    obtain rfl := Option.some.inj hitem
    exact ⟨_, rfl, ih (by omega)⟩

/-! ## Consecutive values -/

/-- The bytes of one value, and no others. -/
def IsValue (b : Bytes) : Prop :=
  ∃ depth v, readWithin depth b = some (v, [])

theorem IsValue.ne_nil {b : Bytes} (h : IsValue b) : b ≠ [] := by
  rintro rfl
  obtain ⟨depth, v, hread⟩ := h
  obtain ⟨inner, hinner⟩ := readWithin_eq depth
  rw [hinner] at hread
  cases hread

theorem isValue_of_readBy {depth : Nat} {v : Value} (h : ReadBy (readWithin depth) v) :
    IsValue v.encode := by
  have hread := h []
  rw [List.append_nil] at hread
  exact ⟨depth, v, hread⟩

/-- Two values at the front of the same bytes are the same bytes. -/
theorem IsValue.append_inj {b b' rest rest' : Bytes} (h : IsValue b) (h' : IsValue b')
    (heq : b ++ rest = b' ++ rest') : b = b' ∧ rest = rest' := by
  obtain ⟨depth, v, hread⟩ := h
  obtain ⟨depth', v', hread'⟩ := h'
  have hlong := extends_readWithin (Nat.le_max_left depth depth') hread rest
  have hlong' := extends_readWithin (Nat.le_max_right depth depth') hread' rest'
  rw [heq, hlong'] at hlong
  have hrest : rest = rest' := (Prod.mk.inj (Option.some.inj hlong)).2.symm
  subst hrest
  exact ⟨List.append_cancel_right heq, rfl⟩

/-- The bytes are those of the values, one after the other. -/
structure SplitsInto (b : Bytes) (parts : List Bytes) : Prop where
  flatten : parts.flatten = b
  isValue : ∀ part ∈ parts, IsValue part

theorem SplitsInto.unique {b : Bytes} {parts parts' : List Bytes} (h : SplitsInto b parts)
    (h' : SplitsInto b parts') : parts = parts' := by
  obtain ⟨rfl, hvalues⟩ := h
  obtain ⟨heq, hvalues'⟩ := h'
  induction parts generalizing parts' with
  | nil =>
    cases parts' with
    | nil => rfl
    | cons part' parts' =>
      have hempty : part' = [] := (List.append_eq_nil_iff.mp heq).1
      exact absurd hempty (hvalues' part' List.mem_cons_self).ne_nil
  | cons part parts ih =>
    rw [List.forall_mem_cons] at hvalues
    cases parts' with
    | nil =>
      have hempty : part = [] := (List.append_eq_nil_iff.mp heq.symm).1
      exact absurd hempty hvalues.1.ne_nil
    | cons part' parts' =>
      rw [List.forall_mem_cons] at hvalues'
      rw [List.flatten_cons, List.flatten_cons] at heq
      obtain ⟨rfl, hrest⟩ := hvalues'.1.append_inj hvalues.1 heq
      rw [ih hvalues.2 hrest hvalues'.2]

end AppLedger.Msgpack
