import AppLedger.Proofs.Abi.Ty
import AppLedger.Proofs.Outcome
import AppLedger.Proofs.Text.Decimal
import AppLedger.Text.Split
import Mathlib.Data.Bool.AllAny
import Mathlib.Data.List.Chain

/-! The text of a type is read back as the type. A list of texts with commas between them falls
apart into the same texts, since their own commas are inside of parentheses. -/

namespace AppLedger.Abi

open Text (join join_cons_cons)

/-! ## Parentheses -/

/-- Parentheses that close one another, with commas inside of them. With `commas` there may be
commas outside of them, too. -/
inductive Matched : (commas : Bool) → List Char → Prop
  | nil {commas : Bool} : Matched commas []
  | char {commas : Bool} {c : Char} {w : List Char} (hopen : c ≠ '(') (hclose : c ≠ ')')
      (hcomma : c = ',' → commas = true) (h : Matched commas w) : Matched commas (c :: w)
  | group {commas : Bool} {inner w : List Char} (hinner : Matched true inner)
      (h : Matched commas w) : Matched commas ('(' :: (inner ++ ')' :: w))

namespace Matched

variable {commas : Bool} {v w : List Char}

theorem append (hv : Matched commas v) (hw : Matched commas w) : Matched commas (v ++ w) := by
  induction hv with
  | nil => exact hw
  | char hopen hclose hcomma _ ih => exact .char hopen hclose hcomma (ih hw)
  | @group _ inner rest hinner _ _ ih =>
    rw [List.cons_append, List.append_assoc, List.cons_append]
    exact .group hinner (ih hw)

theorem withCommas (h : Matched commas w) : Matched true w := by
  induction h with
  | nil => exact .nil
  | char hopen hclose _ _ ih => exact .char hopen hclose (fun _ => rfl) ih
  | group hinner _ _ ih => exact .group hinner ih

end Matched

/-! ## Items -/

/-- What a list of items is no other list of items by: it begins and ends with something else than
a comma, and outside of its parentheses there is none. -/
structure IsItem (w : List Char) : Prop where
  nonempty : w ≠ []
  head : w.head? ≠ some ','
  last : w.getLast? ≠ some ','
  single : w.IsChain fun a b => ¬ (a = ',' ∧ b = ',')
  nested : Matched false w

/-- Neither a comma nor a parenthesis. -/
def IsPlain (c : Char) : Prop :=
  c ≠ '(' ∧ c ≠ ')' ∧ c ≠ ','

instance (c : Char) : Decidable (IsPlain c) :=
  inferInstanceAs (Decidable (_ ∧ _ ∧ _))

section Items

variable {v w : List Char} {words : List (List Char)}

theorem matched_of_plain (h : ∀ c ∈ w, IsPlain c) : Matched false w := by
  induction w with
  | nil => exact .nil
  | cons c w ih =>
    rw [List.forall_mem_cons] at h
    obtain ⟨⟨hopen, hclose, hcomma⟩, hrest⟩ := h
    exact .char hopen hclose (fun heq => absurd heq hcomma) (ih hrest)

theorem isChain_of_not_mem {a b : Char} (h : a ∉ w) : w.IsChain fun x y => ¬ (x = a ∧ y = b) := by
  rw [List.isChain_iff_getElem]
  rintro i hi ⟨ha, -⟩
  exact h (ha ▸ List.getElem_mem _)

theorem isItem_of_plain (hne : w ≠ []) (h : ∀ c ∈ w, IsPlain c) : IsItem w where
  nonempty := hne
  head heq := (h _ (List.mem_of_mem_head? heq)).2.2 rfl
  last heq := (h _ (List.mem_of_mem_getLast? heq)).2.2 rfl
  single := isChain_of_not_mem fun hmem => (h _ hmem).2.2 rfl
  nested := matched_of_plain h

theorem IsItem.append_plain (hv : IsItem v) (hne : w ≠ []) (h : ∀ c ∈ w, IsPlain c) :
    IsItem (v ++ w) := by
  have hw := isItem_of_plain hne h
  refine ⟨List.append_ne_nil_of_left_ne_nil hv.nonempty w, ?_, ?_, ?_, hv.nested.append hw.nested⟩
  · rw [List.head?_append_of_ne_nil _ hv.nonempty]
    exact hv.head
  · rw [List.getLast?_append_of_ne_nil _ hne]
    exact hw.last
  · refine List.isChain_append.mpr ⟨hv.single, hw.single, ?_⟩
    rintro a ha b - ⟨rfl, -⟩
    exact hv.last ha

theorem join_ne_nil (hne : words ≠ []) (h : ∀ w ∈ words, IsItem w) : join ',' words ≠ [] := by
  cases words with
  | nil => exact absurd rfl hne
  | cons w words =>
    have hw := (h w List.mem_cons_self).nonempty
    cases words with
    | nil => exact hw
    | cons => exact List.append_ne_nil_of_left_ne_nil hw _

theorem infix_join {words : List (List Char)} (h : w ∈ words) : w <:+: join ',' words := by
  induction words with
  | nil => exact absurd h List.not_mem_nil
  | cons v words ih =>
    cases words with
    | nil =>
      rw [List.mem_singleton.mp h]
      exact List.infix_refl v
    | cons v' words =>
      rw [join_cons_cons]
      rcases List.mem_cons.mp h with rfl | hmem
      · exact (List.prefix_append ..).isInfix
      · exact (ih hmem).trans (List.suffix_append_of_suffix (List.suffix_cons ..)).isInfix

/-- Nowhere do two commas stand next to each other, and none stands at an end. -/
theorem join_items (h : ∀ w ∈ words, IsItem w) :
    (join ',' words).head? ≠ some ',' ∧ (join ',' words).getLast? ≠ some ',' ∧
      (join ',' words).IsChain (fun a b => ¬ (a = ',' ∧ b = ',')) ∧
      Matched true (join ',' words) := by
  induction words with
  | nil => exact ⟨nofun, nofun, .nil, .nil⟩
  | cons w words ih =>
    rw [List.forall_mem_cons] at h
    obtain ⟨hw, hwords⟩ := h
    cases words with
    | nil => exact ⟨hw.head, hw.last, hw.single, hw.nested.withCommas⟩
    | cons w' words =>
      obtain ⟨hhead, hlast, hsingle, hnested⟩ := ih hwords
      have hne : join ',' (w' :: words) ≠ [] := join_ne_nil (List.cons_ne_nil _ _) hwords
      refine ⟨?_, ?_, ?_, ?_⟩
      · rw [join_cons_cons, List.head?_append_of_ne_nil _ hw.nonempty]
        exact hw.head
      · rw [join_cons_cons, List.getLast?_append_of_ne_nil _ (List.cons_ne_nil _ _),
          List.getLast?_cons_of_ne_nil hne]
        exact hlast
      · refine List.isChain_append.mpr ⟨hw.single, List.isChain_cons.mpr ⟨?_, hsingle⟩, ?_⟩
        · rintro b hb ⟨-, rfl⟩
          exact hhead hb
        · rintro a ha b - ⟨rfl, -⟩
          exact hw.last ha
      · exact hw.nested.withCommas.append (.char (by decide) (by decide) (fun _ => rfl) hnested)

theorem isItem_tuple (h : ∀ w ∈ words, IsItem w) : IsItem ('(' :: (join ',' words ++ [')'])) := by
  obtain ⟨hhead, hlast, hsingle, hnested⟩ := join_items h
  refine ⟨List.cons_ne_nil _ _, nofun, ?_, ?_, .group hnested .nil⟩
  · rw [← List.cons_append, List.getLast?_concat]
    nofun
  · refine List.isChain_cons.mpr ⟨?_, List.isChain_append.mpr ⟨hsingle, .singleton _, ?_⟩⟩
    · rintro b - ⟨heq, -⟩
      exact absurd heq (by decide)
    · rintro a - b hb ⟨-, rfl⟩
      exact absurd (Option.some.inj hb) (by decide)

/-! ## Lists of items -/

theorem splitItems_append {commas : Bool} (h : Matched commas w) {depth : Int} (hdepth : 0 ≤ depth)
    (hcommas : commas = true → 0 < depth) (word rest : List Char) :
    Ty.splitItems depth word (w ++ rest) = Ty.splitItems depth (word ++ w) rest := by
  induction h generalizing depth word rest with
  | nil => rw [List.nil_append, List.append_nil]
  | @char commas c w hopen hclose hcomma _ ih =>
    have hin : ¬ (c = ',' ∧ depth = 0) := fun ⟨heq, hzero⟩ => by
      have hpos := hcommas (hcomma heq)
      omega
    rw [List.cons_append, Ty.splitItems, if_neg hin, if_neg hopen, if_neg hclose,
      ih hdepth hcommas, List.append_assoc, List.singleton_append]
  | @group commas inner w _ _ ihinner ih =>
    have hopen : ¬ ('(' = ',' ∧ depth = 0) := by simp
    have hclose : ¬ (')' = ',' ∧ depth + 1 = 0) := by simp
    have hopened : 0 < depth + 1 := by omega
    rw [List.cons_append, List.append_assoc, List.cons_append, Ty.splitItems, if_neg hopen,
      if_pos rfl, ihinner (Int.le_of_lt hopened) (fun _ => hopened), Ty.splitItems, if_neg hclose]
    simp only [Char.reduceEq, if_false, if_true, Int.add_sub_cancel]
    rw [ih hdepth hcommas]
    simp only [List.append_assoc, List.cons_append, List.nil_append]

theorem splitItems_join (h : ∀ w ∈ words, IsItem w) :
    Ty.splitItems 0 [] (join ',' words) = (words, 0) := by
  induction words with
  | nil => rfl
  | cons w words ih =>
    rw [List.forall_mem_cons] at h
    obtain ⟨hw, hwords⟩ := h
    have hscan := splitItems_append hw.nested (Int.le_refl 0) nofun []
    have hne : w.isEmpty = false := List.isEmpty_eq_false_iff.mpr hw.nonempty
    cases words with
    | nil =>
      have hscan := hscan []
      rw [List.append_nil, List.nil_append] at hscan
      rw [join, hscan, Ty.splitItems, hne]
      rfl
    | cons w' words =>
      rw [join_cons_cons, hscan, List.nil_append, Ty.splitItems, if_pos ⟨rfl, rfl⟩, ih hwords]

theorem contains_zip_tail {s : List Char} (h : s.IsChain fun a b => ¬ (a = ',' ∧ b = ',')) :
    (s.zip s.tail).contains (',', ',') = false := by
  induction h with
  | nil => rfl
  | singleton => rfl
  | @cons_cons a b s hab _ ih =>
    rw [List.tail_cons] at ih ⊢
    rw [List.zip_cons_cons, List.contains_cons, ih, Bool.or_false, beq_eq_false_iff_ne]
    rintro heq
    obtain ⟨rfl, rfl⟩ := Prod.mk.inj heq
    exact hab ⟨rfl, rfl⟩

theorem tupleItems_join (h : ∀ w ∈ words, IsItem w) :
    Ty.tupleItems (join ',' words) = .ok words := by
  by_cases hnil : words = []
  · subst hnil
    rfl
  · obtain ⟨hhead, hlast, hsingle, -⟩ := join_items h
    have hne : ¬ (join ',' words).isEmpty = true := by
      simpa using join_ne_nil hnil h
    have hends : ¬ ((join ',' words).head? = some ',' ∨ (join ',' words).getLast? = some ',') :=
      not_or.mpr ⟨hhead, hlast⟩
    rw [Ty.tupleItems, if_neg hne, if_neg hends, contains_zip_tail hsingle, splitItems_join h]
    rfl

end Items

/-! ## Types -/

namespace Ty

open Text (Decimal.chars_ne_nil Decimal.isDigit_of_mem_chars Decimal.isDigit_of_mem_zeros_append
  Decimal.readBelow?_chars Decimal.readBelow?_eq_some_iff Decimal.head_chars
  isDecimalDigit_of_isDigit)

variable {inner : List Char → Except Invalid Ty} {w : List Char}

/-- The characters of the texts of types. -/
def IsTextChar (c : Char) : Prop :=
  'a' ≤ c ∧ c ≤ 'z' ∨ c.isDigit = true ∨ c ∈ ['(', ')', '[', ']', ',']

instance (c : Char) : Decidable (IsTextChar c) :=
  inferInstanceAs (Decidable (_ ∨ _ ∨ _))

theorem listChars_eq (items : List Ty) : listChars items = join ',' (items.map chars) := by
  induction items with
  | nil => rfl
  | cons item items ih =>
    cases items with
    | nil => rfl
    | cons => rw [listChars, ih]; rfl; nofun

theorem chars_tuple (items : List Ty) :
    (tuple items).chars = '(' :: (join ',' (items.map chars) ++ [')']) := by
  rw [chars, listChars_eq]

/-- The text is that of the type, but that zeros may stand in front of the widths of integers. -/
inductive Spells : Ty → List Char → Prop
  | uint (size : BitSize) (zeros : Nat) :
      Spells (.uint size)
        (['u', 'i', 'n', 't'] ++ (List.replicate zeros '0' ++ Text.Decimal.chars size.bits))
  | address : Spells .address address.chars
  | tuple {items : List Ty} {words : List (List Char)} (h : List.Forall₂ Spells items words) :
      Spells (.tuple items) ('(' :: (join ',' words ++ [')']))
  | string : Spells .string string.chars
  | byte : Spells .byte byte.chars
  | bool : Spells .bool bool.chars
  | static {item : Ty} {w : List Char} (length : UInt64) (h : Spells item w) :
      Spells (.static item length) (w ++ '[' :: (Text.Decimal.chars length.toNat ++ [']']))
  | dynamic {item : Ty} {w : List Char} (h : Spells item w) :
      Spells (.dynamic item) (w ++ ['[', ']'])

theorem spells_chars (ty : Ty) : ty.Spells ty.chars := by
  induction ty using induction with
  | uint size => exact .uint size 0
  | address => exact .address
  | tuple items ih =>
    rw [chars_tuple]
    exact .tuple (List.forall₂_map_right_iff.mpr (List.forall₂_same.mpr ih))
  | string => exact .string
  | byte => exact .byte
  | bool => exact .bool
  | static item length ih => exact .static length ih
  | dynamic item ih => exact .dynamic ih

theorem isPlain_of_isDigit {c : Char} (h : c.isDigit = true) : IsPlain c := by
  refine ⟨?_, ?_, ?_⟩
  all_goals
    rintro rfl
    exact absurd h (by decide)

theorem isItem_of_spells {ty : Ty} (h : ty.Spells w) : IsItem w := by
  induction ty using induction generalizing w with
  | uint size =>
    cases h with
    | uint _ zeros =>
      have hdigits := List.append_ne_nil_of_right_ne_nil (List.replicate zeros '0')
        (Decimal.chars_ne_nil size.bits)
      refine (isItem_of_plain ?_ ?_).append_plain (v := ['u', 'i', 'n', 't']) hdigits ?_
      · decide
      · exact List.all_iff_forall_prop.mp (by decide)
      · exact fun c hc => isPlain_of_isDigit (Decimal.isDigit_of_mem_zeros_append hc)
  | address | string | byte | bool =>
    cases h
    exact isItem_of_plain (by decide) (List.all_iff_forall_prop.mp (by decide))
  | tuple items ih =>
    cases h with
    | tuple hwords =>
      refine isItem_tuple fun w hw => ?_
      obtain ⟨item, hitem, h⟩ := exists_of_mem_right hwords w hw
      exact ih item hitem h
  | static item length ih =>
    cases h with
    | static _ h =>
      refine (ih h).append_plain (List.cons_ne_nil _ _) ?_
      rw [List.forall_mem_cons, List.forall_mem_append]
      refine ⟨by decide, fun c hc => ?_, List.all_iff_forall_prop.mp (by decide)⟩
      exact isPlain_of_isDigit (Decimal.isDigit_of_mem_chars hc)
  | dynamic item ih =>
    cases h with
    | dynamic h => exact (ih h).append_plain (by decide) (List.all_iff_forall_prop.mp (by decide))

theorem isItem_chars (ty : Ty) : IsItem ty.chars :=
  isItem_of_spells ty.spells_chars

/-! ### Their characters -/

theorem isTextChar_of_isDigit {c : Char} (h : c.isDigit = true) : IsTextChar c :=
  .inr (.inl h)

theorem isTextChar_of_mem_join {words : List (List Char)}
    (h : ∀ w ∈ words, ∀ c ∈ w, IsTextChar c) : ∀ c ∈ join ',' words, IsTextChar c := by
  induction words with
  | nil => exact nofun
  | cons w words ih =>
    rw [List.forall_mem_cons] at h
    cases words with
    | nil => exact h.1
    | cons =>
      rw [join_cons_cons, List.forall_mem_append, List.forall_mem_cons]
      exact ⟨h.1, by decide, ih h.2⟩

theorem isTextChar_of_spells {ty : Ty} (h : ty.Spells w) : ∀ c ∈ w, IsTextChar c := by
  induction ty using induction generalizing w with
  | uint size =>
    cases h with
    | uint _ zeros =>
      refine List.forall_mem_append.mpr ⟨List.all_iff_forall_prop.mp (by decide), fun c hc => ?_⟩
      exact isTextChar_of_isDigit (Decimal.isDigit_of_mem_zeros_append hc)
  | address | string | byte | bool =>
    cases h
    exact List.all_iff_forall_prop.mp (by decide)
  | tuple items ih =>
    cases h with
    | tuple hwords =>
      rw [List.forall_mem_cons, List.forall_mem_append]
      refine ⟨by decide, isTextChar_of_mem_join fun w hw => ?_,
        List.all_iff_forall_prop.mp (by decide)⟩
      obtain ⟨item, hitem, h⟩ := exists_of_mem_right hwords w hw
      exact ih item hitem h
  | static item length ih =>
    cases h with
    | static _ h =>
      rw [List.forall_mem_append, List.forall_mem_cons, List.forall_mem_append]
      refine ⟨ih h, by decide, fun c hc => ?_, List.all_iff_forall_prop.mp (by decide)⟩
      exact isTextChar_of_isDigit (Decimal.isDigit_of_mem_chars hc)
  | dynamic item ih =>
    cases h with
    | dynamic h => exact List.forall_mem_append.mpr ⟨ih h, List.all_iff_forall_prop.mp (by decide)⟩

theorem isTextChar_of_mem_chars (ty : Ty) : ∀ c ∈ ty.chars, IsTextChar c :=
  isTextChar_of_spells ty.spells_chars

theorem isElementChar_of_isTextChar {c : Char} (h : IsTextChar c) : isElementChar c = true := by
  rw [isElementChar]
  rcases h with hletter | hdigit | hmark
  · simp [hletter]
  · simp [isDecimalDigit_of_isDigit hdigit]
  · have hmarks : ∀ c ∈ ['(', ')', '[', ']', ','], isElementChar c = true :=
      List.all_iff_forall_prop.mp (by decide)
    exact hmarks c hmark

/-! ### Reading -/

theorem readWith_dynamic : readWith inner (w ++ ['[', ']']) = (inner w).map .dynamic := by
  have hsuffix : ['[', ']'].isSuffixOf (w ++ ['[', ']']) = true :=
    List.isSuffixOf_iff_suffix.mpr (List.suffix_append _ _)
  have hitem : (w ++ ['[', ']']).take ((w ++ ['[', ']']).length - 2) = w := by
    rw [List.length_append]
    exact List.take_left
  rw [readWith, if_pos hsuffix, hitem]
  cases inner w <;> rfl

theorem isLengthText_chars (n : Nat) : isLengthText (Text.Decimal.chars n) = true := by
  by_cases hzero : n = 0
  · subst hzero
    rfl
  · obtain ⟨c, rest, hchars, hlow, hhigh⟩ := Decimal.head_chars hzero
    have hrest : rest.all Text.isDecimalDigit = true := by
      refine List.all_eq_true.mpr fun d hd => isDecimalDigit_of_isDigit ?_
      exact Decimal.isDigit_of_mem_chars (hchars ▸ List.mem_cons_of_mem c hd)
    rw [hchars, isLengthText]
    · simp [hlow, hhigh, hrest]
    · rintro rfl
      exact absurd hlow (by decide)

theorem staticParts?_eq {digits : List Char} (hne : w ≠ []) (hw : ∀ c ∈ w, IsTextChar c)
    (hdigits : ∀ c ∈ digits, c.isDigit = true) (hlength : isLengthText digits = true) :
    staticParts? (w ++ '[' :: (digits ++ [']'])) = some (w, digits) := by
  have hbody : (w ++ '[' :: (digits ++ [']'])).dropLast = w ++ '[' :: digits := by
    rw [← List.cons_append, ← List.append_assoc, List.dropLast_concat]
  have hpart : ((w ++ '[' :: digits).reverse.takeWhile (· ≠ '[')).reverse = digits := by
    have hinside : ∀ c ∈ digits.reverse, decide (c ≠ '[') = true := by
      intro c hc
      refine decide_eq_true ?_
      rintro rfl
      exact absurd (hdigits _ (List.mem_reverse.mp hc)) (by decide)
    rw [List.reverse_append, List.reverse_cons, List.append_assoc,
      List.takeWhile_append_of_pos hinside]
    simp
  have helement :
      ((w ++ '[' :: digits).take ((w ++ '[' :: digits).length - digits.length)).dropLast = w := by
    have hsplit : w ++ '[' :: digits = (w ++ ['[']) ++ digits := by simp
    rw [hsplit, List.length_append, Nat.add_sub_cancel, List.take_left, List.dropLast_concat]
  have hall : w.all isElementChar = true :=
    List.all_eq_true.mpr fun c hc => isElementChar_of_isTextChar (hw c hc)
  rw [staticParts?, hbody, hpart, helement, hall, hlength]
  simp [hne]

theorem not_suffix_of_ne {c : Char} (hc : c ≠ '[') :
    ¬ ['[', ']'].isSuffixOf (w ++ [c, ']']) = true := by
  rw [List.isSuffixOf_iff_suffix]
  rintro ⟨front, heq⟩
  obtain ⟨-, hends⟩ := List.append_inj' heq rfl
  exact hc (List.cons.inj hends).1.symm

theorem not_suffix_of_getLast? (h : w.getLast? ≠ some ']') :
    ¬ ['[', ']'].isSuffixOf w = true := by
  rw [List.isSuffixOf_iff_suffix]
  rintro ⟨front, rfl⟩
  rw [List.getLast?_append_of_ne_nil _ (List.cons_ne_nil _ _)] at h
  exact h rfl

theorem getLast_ne_of_isDigit {digits : List Char} (hne : digits ≠ [])
    (hdigits : ∀ c ∈ digits, c.isDigit = true) {c : Char} (hc : c.isDigit = false) :
    digits.getLast hne ≠ c := by
  rintro rfl
  exact Bool.false_ne_true (hc.symm.trans (hdigits _ (List.getLast_mem hne)))

theorem readWith_static (hne : w ≠ []) (hw : ∀ c ∈ w, IsTextChar c) (length : UInt64) :
    readWith inner (w ++ '[' :: (Text.Decimal.chars length.toNat ++ [']'])) =
      (inner w).map (.static · length) := by
  have hread := Decimal.readBelow?_chars length.toNat_lt
  have hdigits : ∀ c ∈ Text.Decimal.chars length.toNat, c.isDigit = true :=
    fun _ => Decimal.isDigit_of_mem_chars
  have hsome := Decimal.chars_ne_nil length.toNat
  have hparts := staticParts?_eq hne hw hdigits (isLengthText_chars length.toNat)
  generalize Text.Decimal.chars length.toNat = digits at *
  have hnotSuffix : ¬ ['[', ']'].isSuffixOf (w ++ '[' :: (digits ++ [']'])) = true := by
    have hends : w ++ '[' :: (digits ++ [']']) =
        (w ++ '[' :: digits.dropLast) ++ [digits.getLast hsome, ']'] := by
      conv_lhs => rw [← List.dropLast_append_getLast hsome]
      simp
    rw [hends]
    exact not_suffix_of_ne (getLast_ne_of_isDigit hsome hdigits rfl)
  have hlast : (w ++ '[' :: (digits ++ [']'])).getLast? = some ']' := by
    rw [← List.cons_append, ← List.append_assoc, List.getLast?_concat]
  rw [readWith, if_neg hnotSuffix, if_pos hlast, hparts]
  simp only [UInt64.size, hread, UInt64.ofNat_toNat]
  cases inner w <;> rfl

theorem readWith_uint (size : BitSize) (zeros : Nat) :
    readWith inner
      (['u', 'i', 'n', 't'] ++ (List.replicate zeros '0' ++ Text.Decimal.chars size.bits)) =
        .ok (.uint size) := by
  have hbelow : size.bits < UInt16.size := Nat.lt_of_le_of_lt size.valid.2.1 (by decide)
  have hread := Decimal.readBelow?_eq_some_iff.mpr ⟨hbelow, zeros, rfl⟩
  have hdigits : ∀ c ∈ List.replicate zeros '0' ++ Text.Decimal.chars size.bits, c.isDigit = true :=
    fun _ => Decimal.isDigit_of_mem_zeros_append
  have hsome := List.append_ne_nil_of_right_ne_nil (List.replicate zeros '0')
    (Decimal.chars_ne_nil size.bits)
  have hsize : BitSize.ofNat size.bits = .ok size := by rw [BitSize.ofNat, dif_pos size.valid]
  generalize List.replicate zeros '0' ++ Text.Decimal.chars size.bits = digits at *
  have hlast : (['u', 'i', 'n', 't'] ++ digits).getLast? ≠ some ']' := by
    rw [List.getLast?_append_of_ne_nil _ hsome, List.getLast?_eq_some_getLast hsome]
    exact fun heq => getLast_ne_of_isDigit hsome hdigits rfl (Option.some.inj heq)
  have hprefix : ['u', 'i', 'n', 't'].isPrefixOf (['u', 'i', 'n', 't'] ++ digits) = true :=
    List.isPrefixOf_iff_prefix.mpr (List.prefix_append _ _)
  have hdrop : (['u', 'i', 'n', 't'] ++ digits).drop 4 = digits := rfl
  have hwell : ¬ (digits.isEmpty || !digits.all Char.isDigit) = true := by
    rw [List.all_eq_true.mpr hdigits]
    simpa using hsome
  rw [readWith, if_neg (not_suffix_of_getLast? hlast), if_neg hlast, if_pos hprefix, hdrop,
    if_neg hwell]
  simp only [hread, hsize]
  rfl

theorem readWith_tuple {words : List (List Char)} (h : ∀ w ∈ words, IsItem w) :
    readWith inner ('(' :: (join ',' words ++ [')'])) = (words.mapM inner).map .tuple := by
  have hlast : ('(' :: (join ',' words ++ [')'])).getLast? = some ')' := by
    rw [← List.cons_append, List.getLast?_concat]
  have hclosed : ('(' :: (join ',' words ++ [')'])).getLast? ≠ some ']' := by
    rw [hlast]
    decide
  have hprefix : ¬ ['u', 'i', 'n', 't'].isPrefixOf ('(' :: (join ',' words ++ [')'])) = true := by
    simp [List.isPrefixOf]
  have htuple : 2 ≤ ('(' :: (join ',' words ++ [')'])).length ∧
      ('(' :: (join ',' words ++ [')'])).head? = some '(' ∧
      ('(' :: (join ',' words ++ [')'])).getLast? = some ')' := by
    refine ⟨?_, rfl, hlast⟩
    simp
  have hinside : ('(' :: (join ',' words ++ [')'])).tail.dropLast = join ',' words :=
    List.dropLast_concat
  rw [readWith, if_neg (not_suffix_of_getLast? hclosed), if_neg hclosed, if_neg hprefix,
    if_pos htuple, hinside, tupleItems_join h]
  cases hread : words.mapM inner <;> simp [hread, bind, Except.bind, Except.map, pure, Except.pure]

/-- More levels than the text has characters are enough to read it. -/
theorem readWithin_of_spells {ty : Ty} (h : ty.Spells w) {depth : Nat} (hdepth : w.length < depth) :
    readWithin depth w = .ok ty := by
  induction depth generalizing ty w with
  | zero => exact absurd hdepth (Nat.not_lt_zero _)
  | succ depth ih =>
    rw [readWithin]
    cases h with
    | uint size zeros => exact readWith_uint size zeros
    | address | string | byte | bool => rfl
    | @tuple items words hwords =>
      have hitems : ∀ w ∈ words, IsItem w := by
        intro w hw
        obtain ⟨item, -, h⟩ := exists_of_mem_right hwords w hw
        exact isItem_of_spells h
      have hshort : ∀ w ∈ words, w.length < depth := by
        intro w hw
        have hle := (infix_join hw).length_le
        rw [List.length_cons, List.length_append] at hdepth
        omega
      have hread : words.mapM (readWithin depth) = .ok items := by
        refine mapM_eq_ok.mpr (((List.forall₂_and_left _ _).mpr ⟨hshort, hwords.flip⟩).imp ?_)
        rintro w item ⟨hw, h⟩
        exact ih h hw
      rw [readWith_tuple hitems, hread]
      rfl
    | static length h =>
      rw [List.length_append, List.length_cons] at hdepth
      rw [readWith_static (isItem_of_spells h).nonempty (isTextChar_of_spells h), ih h (by omega)]
      rfl
    | dynamic h =>
      rw [List.length_append] at hdepth
      have hmarks : ['[', ']'].length = 2 := rfl
      rw [readWith_dynamic, ih h (by omega)]
      rfl

theorem read_of_spells {ty : Ty} (h : ty.Spells w) : read w = .ok ty :=
  readWithin_of_spells h (Nat.lt_succ_self _)

theorem read_chars (ty : Ty) : read ty.chars = .ok ty :=
  read_of_spells ty.spells_chars

end Ty

end AppLedger.Abi
