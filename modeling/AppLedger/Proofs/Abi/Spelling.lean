import AppLedger.Proofs.Abi.Signature

/-! Which texts are read as types: those of types, and those that differ from them in zeros in front
of the widths of integers. A text falls apart into the items of a tuple without losing a character,
so that an item that is not the text of a type is found out where it is read. -/

namespace AppLedger.Abi.Ty

open Text (join join_cons_cons)

variable {inner : List Char → Except Invalid Ty} {s w : List Char} {ty : Ty}

/-! ## Taking a text apart -/

/-- Only a comma at the end would be lost. -/
theorem join_splitItems (h : s.getLast? ≠ some ',') (depth : Int) (word : List Char) :
    join ',' (splitItems depth word s).1 = word ++ s := by
  induction s generalizing depth word with
  | nil => cases word <;> simp [splitItems, join]
  | cons c s ih =>
    have hrest : s.getLast? ≠ some ',' := by
      cases s with
      | nil => simp
      | cons => rwa [List.getLast?_cons_cons] at h
    rw [splitItems]
    split
    · next hcomma =>
      obtain ⟨rfl, rfl⟩ := hcomma
      have hjoin := ih hrest 0 []
      have hne : s ≠ [] := by
        rintro rfl
        exact h rfl
      rw [List.nil_append] at hjoin
      cases hwords : (splitItems 0 [] s).1 with
      | nil =>
        rw [hwords] at hjoin
        exact absurd hjoin.symm hne
      | cons next words =>
        rw [hwords] at hjoin
        dsimp only
        rw [hwords, join_cons_cons, hjoin]
    · rw [ih hrest, List.append_assoc, List.singleton_append]

theorem join_of_tupleItems {words : List (List Char)} (h : tupleItems s = .ok words) :
    join ',' words = s := by
  unfold tupleItems at h
  split at h
  · next hempty =>
    obtain rfl := Except.ok.inj h
    exact (List.isEmpty_iff.mp hempty).symm
  · split at h
    · exact absurd h nofun
    · next hends =>
      split at h
      · exact absurd h nofun
      · have hjoin := join_splitItems (fun hlast => hends (.inr hlast)) 0 []
        dsimp only at h
        split at h
        · rw [← Except.ok.inj h]
          exact hjoin
        · exact absurd h nofun

theorem staticParts?_eq_some {element length : List Char} (hlast : s.getLast? = some ']')
    (h : staticParts? s = some (element, length)) :
    s = element ++ '[' :: (length ++ [']']) ∧ isLengthText length = true := by
  obtain ⟨body, rfl⟩ := List.getLast?_eq_some_iff.mp hlast
  rw [staticParts?, List.dropLast_concat] at h
  split at h
  case isFalse => cases h
  next hparts =>
    simp only [Bool.and_eq_true, List.contains_iff_mem] at hparts
    obtain ⟨⟨⟨hopen, -⟩, -⟩, hlength⟩ := hparts
    obtain ⟨after, before, hbody, hafter⟩ :=
      List.eq_append_cons_of_mem (List.mem_reverse.mpr hopen)
    have hinside : ∀ c ∈ after, decide (c ≠ '[') = true := by
      intro c hc
      refine decide_eq_true ?_
      rintro rfl
      exact hafter hc
    have htake : body.reverse.takeWhile (· ≠ '[') = after := by
      rw [hbody, List.takeWhile_append_of_pos hinside]
      simp
    obtain rfl : body = (before.reverse ++ ['[']) ++ after.reverse := by
      rw [← List.reverse_inj, hbody]
      simp
    have hfront : (before.reverse ++ ['['] ++ after.reverse).length - after.reverse.length =
        (before.reverse ++ ['[']).length := by
      rw [List.length_append, Nat.add_sub_cancel]
    rw [htake] at h hlength
    rw [hfront, List.take_left, List.dropLast_concat] at h
    obtain ⟨rfl, rfl⟩ := Prod.mk.inj (Option.some.inj h)
    exact ⟨by simp, hlength⟩

theorem chars_of_isLengthText {length : List Char} {bound n : Nat}
    (hlength : isLengthText length = true)
    (hread : Text.Decimal.readBelow? bound length = some n) : length = Text.Decimal.chars n := by
  obtain ⟨-, zeros, rfl⟩ := Text.Decimal.readBelow?_eq_some_iff.mp hread
  cases zeros with
  | zero => rfl
  | succ zeros =>
    have hne := List.append_ne_nil_of_right_ne_nil (List.replicate zeros '0')
      (Text.Decimal.chars_ne_nil n)
    obtain ⟨c, rest, hrest⟩ := List.exists_cons_of_ne_nil hne
    rw [List.replicate_succ, List.cons_append, hrest, isLengthText] at hlength
    · exact absurd hlength Bool.false_ne_true
    · simp

/-! ## Each kind of type -/

theorem spells_uint {digits : List Char} {n : Nat} {size : BitSize}
    (hread : Text.Decimal.readBelow? UInt16.size digits = some n)
    (hsize : BitSize.ofNat n = .ok size) :
    (Ty.uint size).Spells (['u', 'i', 'n', 't'] ++ digits) := by
  obtain ⟨-, zeros, rfl⟩ := Text.Decimal.readBelow?_eq_some_iff.mp hread
  unfold BitSize.ofNat at hsize
  split at hsize
  · obtain rfl := Except.ok.inj hsize
    exact .uint _ zeros
  · exact absurd hsize nofun

theorem spells_dynamic {item : Ty} (hsuffix : ['[', ']'].isSuffixOf s = true)
    (hitem : item.Spells (s.take (s.length - 2))) : (Ty.dynamic item).Spells s := by
  obtain ⟨element, rfl⟩ := List.isSuffixOf_iff_suffix.mp hsuffix
  have htake : (element ++ ['[', ']']).take ((element ++ ['[', ']']).length - 2) = element := by
    rw [List.length_append]
    exact List.take_left
  rw [htake] at hitem
  exact .dynamic hitem

theorem spells_static {element length : List Char} {n : Nat} {item : Ty}
    (hclosed : s.getLast? = some ']') (hparts : staticParts? s = some (element, length))
    (hread : Text.Decimal.readBelow? UInt64.size length = some n) (hitem : item.Spells element) :
    (Ty.static item (UInt64.ofNat n)).Spells s := by
  obtain ⟨rfl, hlength⟩ := staticParts?_eq_some hclosed hparts
  obtain ⟨hn, -⟩ := Text.Decimal.readBelow?_eq_some_iff.mp hread
  have hspelled := Spells.static (UInt64.ofNat n) hitem
  rwa [UInt64.toNat_ofNat_of_lt' hn, ← chars_of_isLengthText hlength hread] at hspelled

theorem spells_tuple {words : List (List Char)} {items : List Ty}
    (hparens : 2 ≤ s.length ∧ s.head? = some '(' ∧ s.getLast? = some ')')
    (hwords : tupleItems s.tail.dropLast = .ok words) (h : List.Forall₂ Spells items words) :
    (Ty.tuple items).Spells s := by
  obtain ⟨hlen, hopen, hclose⟩ := hparens
  obtain ⟨content, rfl⟩ := List.getLast?_eq_some_iff.mp hclose
  cases content with
  | nil => simp at hlen
  | cons c content =>
    obtain rfl : c = '(' := by simpa using hopen
    have hjoin := join_of_tupleItems hwords
    rw [List.cons_append, List.tail_cons, List.dropLast_concat] at hjoin
    rw [← hjoin]
    exact .tuple h

theorem spells_of_readWith (hinner : ∀ w item, inner w = .ok item → item.Spells w)
    (h : readWith inner s = .ok ty) : ty.Spells s := by
  rw [readWith] at h
  split at h
  · next hsuffix =>
    obtain ⟨item, hitem, h⟩ := bind_eq_ok.mp h
    obtain rfl := Except.ok.inj h
    exact spells_dynamic hsuffix (hinner _ item hitem)
  split at h
  · next hclosed =>
    split at h
    · exact absurd h throw_ne_ok
    next element length hparts =>
    split at h
    · exact absurd h throw_ne_ok
    next n hread =>
    obtain ⟨item, hitem, h⟩ := bind_eq_ok.mp h
    obtain rfl := Except.ok.inj h
    exact spells_static hclosed hparts hread (hinner element item hitem)
  split at h
  · next hprefix =>
    obtain ⟨digits, rfl⟩ := List.isPrefixOf_iff_prefix.mp hprefix
    dsimp only at h
    split at h
    · exact absurd h throw_ne_ok
    split at h
    · exact absurd h throw_ne_ok
    next n hread =>
    obtain ⟨size, hsize, h⟩ := bind_eq_ok.mp h
    obtain rfl := Except.ok.inj h
    exact spells_uint hread hsize
  split at h
  · next hparens =>
    obtain ⟨words, hwords, h⟩ := bind_eq_ok.mp h
    obtain ⟨items, hitems, h⟩ := bind_eq_ok.mp h
    obtain rfl := Except.ok.inj h
    exact spells_tuple hparens hwords ((mapM_eq_ok.mp hitems).imp hinner).flip
  split at h
  · next hs =>
    obtain rfl := Except.ok.inj h
    exact hs ▸ .byte
  split at h
  · next hs =>
    obtain rfl := Except.ok.inj h
    exact hs ▸ .bool
  split at h
  · next hs =>
    obtain rfl := Except.ok.inj h
    exact hs ▸ .address
  split at h
  · next hs =>
    obtain rfl := Except.ok.inj h
    exact hs ▸ .string
  · exact absurd h throw_ne_ok

theorem spells_of_readWithin {depth : Nat} (h : readWithin depth s = .ok ty) : ty.Spells s := by
  induction depth generalizing s ty with
  | zero => exact absurd h nofun
  | succ depth ih => exact spells_of_readWith (fun _ _ => ih) h

theorem read_eq_ok_iff : read s = .ok ty ↔ ty.Spells s :=
  ⟨spells_of_readWithin, read_of_spells⟩

/-! ## Zeros in front of a width -/

/-- No width in the text has a zero in front. -/
def Unpadded (s : List Char) : Prop :=
  ¬ ['u', 'i', 'n', 't', '0'] <:+: s

theorem Unpadded.of_infix (h : Unpadded s) (hw : w <:+: s) : Unpadded w :=
  fun hpadded => h (hpadded.trans hw)

/-- Without a zero in front of a width there is nothing in which the text could differ from that of
the type. -/
theorem eq_chars_of_unpadded (h : ty.Spells s) (hs : Unpadded s) : s = ty.chars := by
  induction ty using induction generalizing s with
  | uint size =>
    cases h with
    | uint _ zeros =>
      cases zeros with
      | zero => rfl
      | succ zeros =>
        refine absurd ?_ hs
        exact (List.prefix_append ['u', 'i', 'n', 't', '0'] _).isInfix
  | address | string | byte | bool =>
    cases h
    rfl
  | tuple items ih =>
    cases h with
    | @tuple _ words hwords =>
      obtain ⟨hlen, heach⟩ := List.forall₂_iff_zip.mp hwords
      have hchars : List.Forall₂ (· = ·) (items.map chars) words := by
        refine List.forall₂_map_left_iff.mpr (List.forall₂_iff_zip.mpr ⟨hlen, fun hmem => ?_⟩)
        obtain ⟨hitem, hword⟩ := List.of_mem_zip hmem
        have hinside : _ <:+: '(' :: (join ',' words ++ [')']) :=
          (infix_join hword).trans ⟨['('], [')'], rfl⟩
        exact (ih _ hitem (heach hmem) (hs.of_infix hinside)).symm
      rw [List.forall₂_eq_eq_eq] at hchars
      rw [chars_tuple, hchars]
  | static item length ih =>
    cases h with
    | static _ h =>
      rw [ih h (hs.of_infix (List.prefix_append ..).isInfix), chars]
  | dynamic item ih =>
    cases h with
    | dynamic h => rw [ih h (hs.of_infix (List.prefix_append ..).isInfix), chars]

/-- No zero stands behind the last letter of a `uint`. -/
def Apart (a b : Char) : Prop :=
  ¬ (a = 't' ∧ b = '0')

instance : DecidableRel Apart :=
  fun _ _ => inferInstanceAs (Decidable (¬ _))

theorem isChain_apart_append {c : Char} (hv : s.IsChain Apart) (ht : c ≠ 't') (hzero : c ≠ '0')
    (hw : w.IsChain Apart) : (s ++ c :: w).IsChain Apart := by
  refine List.isChain_append.mpr ⟨hv, List.isChain_cons.mpr ⟨fun _ _ h => ht h.1, hw⟩, ?_⟩
  rintro a - b hb ⟨-, rfl⟩
  exact hzero (Option.some.inj hb)

theorem isChain_apart_decimal (n : Nat) : (Text.Decimal.chars n).IsChain Apart :=
  isChain_of_not_mem fun hmem =>
    absurd (Text.Decimal.isDigit_of_mem_chars hmem) (by decide)

theorem isChain_apart_join {words : List (List Char)} (h : ∀ w ∈ words, w.IsChain Apart) :
    (join ',' words).IsChain Apart := by
  induction words with
  | nil => exact .nil
  | cons w words ih =>
    rw [List.forall_mem_cons] at h
    cases words with
    | nil => exact h.1
    | cons =>
      rw [join_cons_cons]
      exact isChain_apart_append h.1 (by decide) (by decide) (ih h.2)

theorem isChain_apart_chars (ty : Ty) : ty.chars.IsChain Apart := by
  induction ty using induction with
  | uint size =>
    have hpos : size.bits ≠ 0 := Nat.ne_of_gt (Nat.lt_of_lt_of_le (by decide) size.valid.1)
    obtain ⟨c, rest, hchars, hlow, -⟩ := Text.Decimal.head_chars hpos
    refine List.isChain_append.mpr ⟨by decide, isChain_apart_decimal size.bits, ?_⟩
    rintro a - b hb ⟨-, rfl⟩
    rw [hchars] at hb
    obtain rfl := Option.some.inj hb
    exact absurd hlow (by decide)
  | address | string | byte | bool => decide
  | tuple items ih =>
    rw [chars_tuple]
    refine isChain_apart_append (s := []) .nil (by decide) (by decide) ?_
    refine isChain_apart_append (isChain_apart_join fun w hw => ?_) (by decide) (by decide) .nil
    obtain ⟨item, hitem, rfl⟩ := List.mem_map.mp hw
    exact ih item hitem
  | static item length ih =>
    rw [chars]
    refine isChain_apart_append ih (by decide) (by decide) ?_
    exact isChain_apart_append (isChain_apart_decimal _) (by decide) (by decide) .nil
  | dynamic item ih => exact isChain_apart_append ih (by decide) (by decide) (.singleton _)

theorem unpadded_chars (ty : Ty) : Unpadded ty.chars := by
  intro hpadded
  have hchain := ty.isChain_apart_chars.infix hpadded
  exact absurd hchain (by decide)

/-- A text is read as a type if it differs from that of the type in zeros in front of widths alone.
It is that of the type if there are no such zeros. -/
theorem ofText_eq_ok_iff (text : String) (ty : Ty) :
    (ofText text = .ok ty ↔ ty.Spells text.toList) ∧
      (ofText text = .ok ty → (ty.text = text ↔ Unpadded text.toList)) := by
  refine ⟨read_eq_ok_iff, fun h => ⟨fun heq => ?_, fun hunpadded => ?_⟩⟩
  · rw [← heq, Ty.text, String.toList_ofList]
    exact ty.unpadded_chars
  · rw [Ty.text, ← eq_chars_of_unpadded (read_eq_ok_iff.mp h) hunpadded, String.ofList_toList]

theorem ofText_eq_ok_iff_nested :
    let plain := "((uint16,string)[2],bool[])"
    let padded := "((uint0016,string)[2],bool[])"
    let ty : Ty := .tuple [.static (.tuple [.uint ⟨16, by decide⟩, .string]) 2, .dynamic .bool]
    ofText plain = .ok ty ∧ ty.text = plain ∧ Unpadded plain.toList ∧
      ofText padded = .ok ty ∧ ty.text ≠ padded ∧ ¬ Unpadded padded.toList := by
  intro plain padded ty
  have hplain : ofText plain = .ok ty := by decide
  have hpadded : ofText padded = .ok ty := by decide
  have htext : ty.text = plain := rfl
  have hother : ty.text ≠ padded := by
    rw [htext]
    decide
  exact ⟨hplain, htext, ((ofText_eq_ok_iff plain ty).2 hplain).mp htext, hpadded, hother,
    fun h => hother (((ofText_eq_ok_iff padded ty).2 hpadded).mpr h)⟩

/-- A zero in front of a length is refused, and one in front of a width is not. -/
theorem ofText_padded :
    ofText "uint064" = .ok uint64 ∧ uint64.text ≠ "uint064" ∧
      ofText "byte[04]" = .error (.staticArray "byte[04]") := by
  exact ⟨rfl, by decide, rfl⟩

/-! ## Types among arguments -/

/-- The text of a type is read as the type, and as an argument it stands for a value. -/
theorem ofText_text (ty : Ty) :
    ofText ty.text = .ok ty ∧ ArgType.ofText ty.text = .ok (.value ty) ∧
      TransactionKind.ofText ty.text = .error (.transactionKind ty.text) ∧
      ReferenceKind.ofText ty.text = .error (.referenceKind ty.text) := by
  refine ⟨?_, ?_, ?_, ?_⟩
  · rw [ofText, Ty.text, String.toList_ofList, read_chars]
  · rw [ArgType.ofText, Ty.text, String.toList_ofList]
    exact (ArgType.value ty).read_chars
  · rw [TransactionKind.ofText, Ty.text, String.toList_ofList, TransactionKind.read?_type]
    rfl
  · rw [ReferenceKind.ofText, Ty.text, String.toList_ofList, ReferenceKind.read?_type]
    rfl

end AppLedger.Abi.Ty
