import AppLedger.Program.Pragma
import AppLedger.Proofs.Text.Decimal
import AppLedger.Proofs.Text.Split
import Mathlib.Data.List.Basic
import Mathlib.Data.List.TakeWhile

/-! The declaration of a version is found behind blank lines and comments, however it is spaced. A
source that declares another version than the one asked for is refused if the number has eight bits
and ASCII digits; otherwise it gets a second declaration. -/

namespace AppLedger

open Text

/-! ## Blanks -/

namespace Text

variable {s blanks : List Char} {c : Char}

def Blanks (s : List Char) : Prop :=
  ∀ c ∈ s, isBlank c = true

theorem dropWhile_blanks (h : Blanks blanks) (s : List Char) :
    (blanks ++ s).dropWhile isBlank = s.dropWhile isBlank :=
  List.dropWhile_append_of_pos h

theorem dropWhile_cons_of_not_blank (h : isBlank c = false) (s : List Char) :
    (c :: s).dropWhile isBlank = c :: s := by
  rw [List.dropWhile_cons, h]
  rfl

theorem trim_append (h : Blanks blanks) (s : List Char) : trim (blanks ++ s) = trim s := by
  rw [trim, trim, dropWhile_blanks h]

theorem trim_blanks (h : Blanks blanks) : trim blanks = [] := by
  have htrim := trim_append h []
  rwa [List.append_nil] at htrim

/-- The end of a text is trimmed behind a character that is kept. -/
theorem trimEnd_cons (h : isBlank c = false) (s : List Char) :
    ((c :: s).reverse.dropWhile isBlank).reverse = c :: (s.reverse.dropWhile isBlank).reverse := by
  rw [List.reverse_cons, List.dropWhile_append]
  by_cases hall : (s.reverse.dropWhile isBlank).isEmpty = true
  · rw [if_pos hall, dropWhile_cons_of_not_blank h, List.isEmpty_iff.mp hall]
    rfl
  · rw [if_neg hall, List.reverse_append]
    rfl

theorem trim_cons_cons {d : Char} (hc : isBlank c = false) (hd : isBlank d = false)
    (s : List Char) : ∃ rest, trim (c :: d :: s) = c :: d :: rest := by
  rw [trim, dropWhile_cons_of_not_blank hc, trimEnd_cons hc, trimEnd_cons hd]
  exact ⟨_, rfl⟩

theorem blanks_takeWhile (s : List Char) : Blanks (s.takeWhile isBlank) :=
  fun _ => List.mem_takeWhile_imp

theorem trim_prefix_dropWhile (s : List Char) : trim s <+: s.dropWhile isBlank := by
  rw [trim, ← List.reverse_suffix, List.reverse_reverse]
  exact List.dropWhile_suffix _

theorem blanks_of_trim (h : trim s = []) : Blanks s := by
  rw [trim, List.reverse_eq_nil_iff, List.dropWhile_eq_nil_iff] at h
  rw [← List.takeWhile_append_dropWhile (p := isBlank) (l := s)]
  exact List.forall_mem_append.mpr
    ⟨blanks_takeWhile s, fun c hc => h c (List.mem_reverse.mpr hc)⟩
def blankRanges : CharRanges :=
  [(9, 13), (0x20, 0x20), (0x85, 0x85), (0xA0, 0xA0), (0x1680, 0x1680), (0x2000, 0x200A),
   (0x2028, 0x2029), (0x202F, 0x202F), (0x205F, 0x205F), (0x3000, 0x3000)]

theorem contains_of_isBlank (h : isBlank c = true) : blankRanges.contains c = true := by
  simp only [isBlank, Bool.or_eq_true, Bool.and_eq_true, decide_eq_true_eq, beq_iff_eq] at h
  simp only [CharRanges.contains, blankRanges, List.any_cons, List.any_nil, Bool.or_eq_true,
    Bool.and_eq_true, decide_eq_true_eq]
  omega

theorem contains_eq_false {ranges others : CharRanges}
    (hapart : ∀ range ∈ ranges, ∀ other ∈ others, range.2 < other.1 ∨ other.2 < range.1)
    (h : ranges.contains c = true) : others.contains c = false := by
  obtain ⟨range, hrange, hin⟩ := List.any_eq_true.mp h
  refine List.any_eq_false.mpr fun other hother hin' => ?_
  simp only [Bool.and_eq_true, decide_eq_true_eq] at hin hin'
  have hdisjoint := hapart range hrange other hother
  omega

theorem isBlank_of_isDecimalDigit (h : isDecimalDigit c = true) : isBlank c = false := by
  have hapart : ∀ range ∈ decimalDigits, ∀ other ∈ blankRanges,
      range.2 < other.1 ∨ other.2 < range.1 := by
    decide
  refine Bool.eq_false_iff.mpr fun hblank => ?_
  have hnot := contains_eq_false hapart h
  rw [contains_of_isBlank hblank] at hnot
  exact absurd hnot (by decide)

theorem takeWhile_blanks (h : Blanks blanks) : blanks.takeWhile isDecimalDigit = [] := by
  cases blanks with
  | nil => rfl
  | cons c rest =>
    have hdigit : isDecimalDigit c = false := by
      refine Bool.eq_false_iff.mpr fun hdigit => ?_
      have hblank := h c List.mem_cons_self
      rw [isBlank_of_isDecimalDigit hdigit] at hblank
      exact absurd hblank (by decide)
    rw [List.takeWhile_cons, hdigit]
    rfl

end Text

namespace Program

variable {source : String}

/-! ## The first line -/

section FirstLine

variable {line : List Char}

/-- A line that is blank or a comment. -/
inductive Skipped : List Char → Prop
  | blank {line : List Char} (h : Blanks line) : Skipped line
  | comment {blanks : List Char} (h : Blanks blanks) (text : List Char) :
      Skipped (blanks ++ '/' :: '/' :: text)

theorem trim_of_skipped (h : Skipped line) :
    trim line = [] ∨ isComment (trim line) = true := by
  cases h with
  | blank h => exact .inl (trim_blanks h)
  | comment h text =>
    have hslash : isBlank '/' = false := by decide
    obtain ⟨rest, hrest⟩ := trim_cons_cons hslash hslash text
    rw [trim_append h, hrest]
    exact .inr rfl

theorem firstLine?_of_skipped {before after : List (List Char)} {c : Char} {rest : List Char}
    (hbefore : ∀ line ∈ before, Skipped line) (htrim : trim line = c :: rest) (hc : c ≠ '/')
    (hlines : lines source.toList = before ++ line :: after) : firstLine? source = some line := by
  have hcomment : isComment (trim line) = false := by
    rw [htrim, isComment, List.isPrefixOf_cons_cons, beq_false_of_ne hc.symm, Bool.false_and]
  rw [firstLine?, hlines, List.find?_eq_some_iff_append]
  refine ⟨by rw [hcomment, htrim]; rfl, before, after, rfl, fun line hmem => ?_⟩
  rcases trim_of_skipped (hbefore line hmem) with hempty | hcomment
  · rw [hempty]
    rfl
  · rw [hcomment, Bool.not_true, Bool.and_false]
    rfl

theorem skipped_of_trim (h : trim line = [] ∨ isComment (trim line) = true) : Skipped line := by
  rcases h with hempty | hcomment
  · exact .blank (blanks_of_trim hempty)
  · obtain ⟨text, htext⟩ :=
      (List.isPrefixOf_iff_prefix.mp hcomment).trans (trim_prefix_dropWhile line)
    rw [← List.takeWhile_append_dropWhile (p := isBlank) (l := line), ← htext]
    exact .comment (blanks_takeWhile line) text

theorem exists_lines_of_firstLine? (h : firstLine? source = some line) :
    ∃ before after, (∀ line ∈ before, Skipped line) ∧
      lines source.toList = before ++ line :: after := by
  rw [firstLine?, List.find?_eq_some_iff_append] at h
  obtain ⟨-, before, after, hlines, hbefore⟩ := h
  refine ⟨before, after, fun line hline => skipped_of_trim ?_, hlines⟩
  have hskip := hbefore line hline
  simpa only [Bool.not_and, Bool.not_not, Bool.or_eq_true, List.isEmpty_iff] using hskip

end FirstLine

/-! ## Declarations -/

/-- The blanks around the two words of a declaration and its number, and those between them. -/
structure Spacing where
  front : List Char
  middle : List Char
  last : List Char
  back : List Char
  blanks : Blanks (front ++ middle ++ last ++ back)
  middle_ne_nil : middle ≠ []
  last_ne_nil : last ≠ []

def Spacing.single : Spacing where
  front := []
  middle := [' ']
  last := [' ']
  back := []
  blanks := List.all_eq_true.mp rfl
  middle_ne_nil := List.cons_ne_nil _ _
  last_ne_nil := List.cons_ne_nil _ _

/-- The line that declares the number with the digits. -/
def Spacing.line (spacing : Spacing) (digits : List Char) : List Char :=
  spacing.front ++ ("#pragma".toList ++ (spacing.middle ++ ("version".toList ++
    (spacing.last ++ (digits ++ spacing.back)))))

/-- The digits of a number, of any script. -/
structure IsNumeral (digits : List Char) : Prop where
  ne_nil : digits ≠ []
  isDecimalDigit : ∀ c ∈ digits, isDecimalDigit c = true

variable {digits : List Char}

theorem afterWord?_append (word : String) (rest : List Char) :
    afterWord? word (word.toList ++ rest) = some rest := by
  have hprefix : word.toList.isPrefixOf (word.toList ++ rest) = true :=
    List.isPrefixOf_iff_prefix.mpr (List.prefix_append _ _)
  rw [afterWord?, if_pos hprefix, ← String.length_toList, List.drop_left]

theorem afterBlanks?_append {blanks : List Char} (h : Blanks blanks) (hne : blanks ≠ []) {c : Char}
    (hc : isBlank c = false) (rest : List Char) :
    afterBlanks? (blanks ++ c :: rest) = some (c :: rest) := by
  obtain ⟨first, more, rfl⟩ := List.exists_cons_of_ne_nil hne
  have hfirst : ((first :: more ++ c :: rest).head?.map isBlank).getD false = true :=
    h first List.mem_cons_self
  rw [afterBlanks?, if_pos hfirst, dropWhile_blanks h, dropWhile_cons_of_not_blank hc]

theorem eq_of_afterWord? {word : String} {s rest : List Char} (h : afterWord? word s = some rest) :
    s = word.toList ++ rest := by
  rw [afterWord?] at h
  split at h
  · next hprefix =>
    obtain ⟨more, rfl⟩ := List.isPrefixOf_iff_prefix.mp hprefix
    rw [← String.length_toList, List.drop_left] at h
    rw [Option.some.inj h]
  · cases h

theorem exists_of_afterBlanks? {s rest : List Char} (h : afterBlanks? s = some rest) :
    ∃ blanks, Blanks blanks ∧ blanks ≠ [] ∧ s = blanks ++ rest := by
  rw [afterBlanks?] at h
  split at h
  · next hhead =>
    obtain rfl := Option.some.inj h
    refine ⟨s.takeWhile isBlank, blanks_takeWhile s, ?_, List.takeWhile_append_dropWhile.symm⟩
    cases s with
    | nil => simp at hhead
    | cons c rest =>
      have hc : isBlank c = true := hhead
      rw [List.takeWhile_cons_of_pos hc]
      exact List.cons_ne_nil _ _
  · cases h

namespace Spacing

variable (spacing : Spacing)

theorem blanks_each : Blanks spacing.front ∧ Blanks spacing.middle ∧ Blanks spacing.last ∧
    Blanks spacing.back := by
  have h := spacing.blanks
  simp only [Blanks, List.forall_mem_append] at h ⊢
  exact ⟨h.1.1.1, h.1.1.2, h.1.2, h.2⟩

theorem exists_line (digits : List Char) :
    ∃ rest, spacing.line digits = spacing.front ++ '#' :: rest := by
  have hword : "#pragma".toList = '#' :: "pragma".toList := by decide
  rw [line, hword]
  exact ⟨_, rfl⟩

theorem exists_trim_line (digits : List Char) :
    ∃ rest, trim (spacing.line digits) = '#' :: rest := by
  obtain ⟨rest, hrest⟩ := spacing.exists_line digits
  rw [hrest, trim_append spacing.blanks_each.1]
  exact trim_cons (by decide) rest

theorem versionDigits?_line (h : IsNumeral digits) :
    versionDigits? (spacing.line digits) = some digits := by
  obtain ⟨hfront, hmiddle, hlast, hback⟩ := spacing.blanks_each
  have hword : "version".toList = 'v' :: "ersion".toList := by decide
  have hcode : "#pragma".toList = '#' :: "pragma".toList := by decide
  have hstart : (spacing.line digits).dropWhile isBlank = "#pragma".toList ++
      (spacing.middle ++ ("version".toList ++ (spacing.last ++ (digits ++ spacing.back)))) := by
    rw [line, dropWhile_blanks hfront, hcode]
    exact dropWhile_cons_of_not_blank (by decide) _
  have hversion : afterBlanks? (spacing.middle ++ ("version".toList ++
      (spacing.last ++ (digits ++ spacing.back)))) =
        some ("version".toList ++ (spacing.last ++ (digits ++ spacing.back))) := by
    rw [hword]
    exact afterBlanks?_append hmiddle spacing.middle_ne_nil (by decide) _
  have hnumber : afterBlanks? (spacing.last ++ (digits ++ spacing.back)) =
      some (digits ++ spacing.back) := by
    obtain ⟨d, more, rfl⟩ := List.exists_cons_of_ne_nil h.ne_nil
    have hd := isBlank_of_isDecimalDigit (h.isDecimalDigit d List.mem_cons_self)
    exact afterBlanks?_append hlast spacing.last_ne_nil hd _
  have htake : (digits ++ spacing.back).takeWhile isDecimalDigit = digits := by
    rw [List.takeWhile_append_of_pos h.isDecimalDigit, takeWhile_blanks hback, List.append_nil]
  have hsome : digits.isEmpty = false := List.isEmpty_eq_false_iff.mpr h.ne_nil
  have hrest : spacing.back.all isBlank = true := List.all_eq_true.mpr hback
  rw [versionDigits?, hstart]
  simp only [Option.bind_eq_bind, Option.bind_some, afterWord?_append, hversion, hnumber, htake,
    hsome, List.drop_left, hrest]
  rfl

end Spacing

/-- Every line from which digits are read is a declaration of the number with these digits. -/
theorem exists_line_of_versionDigits? {line : List Char} (h : versionDigits? line = some digits) :
    IsNumeral digits ∧ ∃ spacing : Spacing, line = spacing.line digits := by
  simp only [versionDigits?, Option.bind_eq_bind, Option.bind_eq_some_iff] at h
  obtain ⟨afterCode, hcode, beforeWord, hmiddle, afterWord, hword, number, hlast, hdigits⟩ := h
  split at hdigits
  · cases hdigits
  next hnumeral =>
  obtain rfl := Option.some.inj hdigits
  obtain ⟨back, hnumber⟩ := List.takeWhile_prefix isDecimalDigit (l := number)
  have hrest : number.drop (number.takeWhile isDecimalDigit).length = back :=
    (congrArg (List.drop _) hnumber).symm.trans List.drop_left
  rw [hrest, Bool.or_eq_true, not_or, Bool.not_eq_true, Bool.not_eq_true, Bool.not_eq_false',
    List.all_eq_true] at hnumeral
  obtain ⟨hne, hback⟩ := hnumeral
  obtain ⟨middle, hmiddleBlanks, hmiddleNe, rfl⟩ := exists_of_afterBlanks? hmiddle
  obtain ⟨last, hlastBlanks, hlastNe, rfl⟩ := exists_of_afterBlanks? hlast
  have hline := List.takeWhile_append_dropWhile (p := isBlank) (l := line)
  rw [eq_of_afterWord? hcode, eq_of_afterWord? hword] at hline
  refine ⟨⟨List.isEmpty_eq_false_iff.mp hne, fun c => List.mem_takeWhile_imp⟩,
    ⟨line.takeWhile isBlank, middle, last, back, ?_, hmiddleNe, hlastNe⟩, ?_⟩
  · simp only [Blanks, List.forall_mem_append]
    exact ⟨⟨⟨blanks_takeWhile line, hmiddleBlanks⟩, hlastBlanks⟩, hback⟩
  · rw [Spacing.line, hnumber]
    exact hline.symm

theorem toList_pragma (version : UInt8) : (pragma version).toList =
    Spacing.single.line (Decimal.chars version.toNat) ++ ['\n'] := by
  have hwords : "#pragma version ".toList =
      "#pragma".toList ++ ([' '] ++ ("version".toList ++ [' '])) := by
    rfl
  have hend : "\n".toList = ['\n'] := by decide
  have hsame (s : String) : toString s = s := rfl
  unfold pragma
  simp only [String.toList_append, Decimal.toList_toString, hsame, hwords, hend, Spacing.line,
    Spacing.single, List.append_assoc, List.nil_append, List.append_nil]

/-! ## Numbers -/

/-- The digits of a script stand in a run of ten, from zero to nine. -/
def digitValue (c : Char) : Nat :=
  (decimalDigits.find? fun range => range.1 ≤ c.toNat && c.toNat ≤ range.2).elim 0 fun range =>
    (c.toNat - range.1) % 10

def numberOf (digits : List Char) : Nat :=
  digits.foldl (fun n c => n * 10 + digitValue c) 0

theorem digitValue_of_isDigit {c : Char} (h : c.isDigit = true) : digitValue c = c.toNat - 48 := by
  simp only [Char.isDigit, Bool.and_eq_true, decide_eq_true_eq] at h
  have hlow : 48 ≤ c.toNat := h.1
  have hhigh : c.toNat ≤ 57 := h.2
  have hfind : decimalDigits.find? (fun range => range.1 ≤ c.toNat && c.toNat ≤ range.2) =
      some (0x30, 0x39) := by
    refine List.find?_cons_of_pos ?_
    rw [Bool.and_eq_true, decide_eq_true_eq, decide_eq_true_eq]
    exact ⟨hlow, hhigh⟩
  rw [digitValue, hfind, Option.elim_some, Nat.mod_eq_of_lt (by omega)]

theorem numberOf_eq (h : ∀ c ∈ digits, c.isDigit = true) :
    numberOf digits = Decimal.valueFrom 0 digits := by
  refine List.foldl_ext _ _ _ fun n c hc => ?_
  rw [digitValue_of_isDigit (h c hc)]

/-- The digits are ASCII digits, and the number has eight bits. -/
structure IsByteNumeral (digits : List Char) : Prop where
  isDigit : ∀ c ∈ digits, c.isDigit = true
  lt : numberOf digits < 256

theorem readBelow?_of_isByteNumeral (hne : digits ≠ []) (h : IsByteNumeral digits) :
    Decimal.readBelow? 256 digits = some (numberOf digits) := by
  have hread : Decimal.read? digits = some (numberOf digits) := by
    rw [Decimal.read?, if_pos ⟨hne, List.all_eq_true.mpr h.isDigit⟩, numberOf_eq h.isDigit]
  rw [Decimal.readBelow?, hread, Option.filter_some, if_pos (decide_eq_true h.lt)]

theorem readBelow?_of_not_isByteNumeral (h : ¬ IsByteNumeral digits) :
    Decimal.readBelow? 256 digits = none := by
  refine Option.eq_none_iff_forall_ne_some.mpr fun n hread => h ?_
  obtain ⟨hlt, zeros, rfl⟩ := Decimal.readBelow?_eq_some_iff.mp hread
  have hdigits (c : Char) (hc : c ∈ List.replicate zeros '0' ++ Decimal.chars n) :
      c.isDigit = true := Decimal.isDigit_of_mem_zeros_append hc
  have hvalue : numberOf (List.replicate zeros '0' ++ Decimal.chars n) = n := by
    rw [numberOf_eq hdigits, Decimal.valueFrom_zeros_append, Decimal.valueFrom_eq, Decimal.chars,
      Nat.ofDigitChars_ten_toDigits]
  exact ⟨hdigits, by rw [hvalue]; exact hlt⟩

/-! ## Sources -/

/-- The first line that is neither blank nor a comment declares the number with the digits. -/
structure Declares (source : String) (digits : List Char) : Prop where
  isNumeral : IsNumeral digits
  exists_lines : ∃ (before : List (List Char)) (spacing : Spacing) (after : List (List Char)),
    (∀ line ∈ before, Skipped line) ∧
      lines source.toList = before ++ spacing.line digits :: after

theorem declares_iff : Declares source digits ↔
    (firstLine? source).bind versionDigits? = some digits := by
  constructor
  · intro h
    obtain ⟨before, spacing, after, hbefore, hlines⟩ := h.exists_lines
    obtain ⟨rest, htrim⟩ := spacing.exists_trim_line digits
    rw [firstLine?_of_skipped hbefore htrim (by decide) hlines, Option.bind_some,
      spacing.versionDigits?_line h.isNumeral]
  · intro h
    obtain ⟨line, hfirst, hdigits⟩ := Option.bind_eq_some_iff.mp h
    obtain ⟨before, after, hbefore, hlines⟩ := exists_lines_of_firstLine? hfirst
    obtain ⟨hnumeral, spacing, rfl⟩ := exists_line_of_versionDigits? hdigits
    exact ⟨hnumeral, before, spacing, after, hbefore, hlines⟩

theorem declaredVersion_eq (source : String) :
    declaredVersion source = ((firstLine? source).bind versionDigits?).bind fun digits =>
      (Decimal.readBelow? 256 digits).map UInt8.ofNat := by
  rw [Option.bind_assoc]
  simp only [declaredVersion, Option.bind_eq_bind, Option.map_eq_bind]
  rfl

theorem declaredVersion_of_declares (h : Declares source digits) :
    declaredVersion source = (Decimal.readBelow? 256 digits).map UInt8.ofNat := by
  rw [declaredVersion_eq, declares_iff.mp h, Option.bind_some]

/-- A source without a declaration gets the one that is asked for. -/
theorem withPragma_of_not_declares (h : ∀ digits, ¬ Declares source digits) (version : UInt8) :
    withPragma source version = .ok (pragma version ++ source) := by
  have hnone : (firstLine? source).bind versionDigits? = none :=
    Option.eq_none_iff_forall_ne_some.mpr fun digits hdigits => h digits (declares_iff.mpr hdigits)
  rw [withPragma, declaredVersion_eq, hnone]
  rfl

theorem withPragma_of_isByteNumeral (h : Declares source digits) (hbyte : IsByteNumeral digits)
    (version : UInt8) :
    withPragma source version = if numberOf digits = version.toNat then .ok source
      else .error ⟨UInt8.ofNat (numberOf digits), version⟩ := by
  have hsame : UInt8.ofNat (numberOf digits) = version ↔ numberOf digits = version.toNat := by
    rw [← UInt8.toNat_inj, UInt8.toNat_ofNat_of_lt' hbyte.lt]
  rw [withPragma, declaredVersion_of_declares h,
    readBelow?_of_isByteNumeral h.isNumeral.ne_nil hbyte]
  simp only [Option.map_some, hsame]

theorem withPragma_of_not_isByteNumeral (h : Declares source digits)
    (hbyte : ¬ IsByteNumeral digits) (version : UInt8) :
    withPragma source version = .ok (pragma version ++ source) := by
  rw [withPragma, declaredVersion_of_declares h, readBelow?_of_not_isByteNumeral hbyte]
  rfl

/-- What a source that declares the number `n` can expect when the version is asked for. -/
structure Respects (source : String) (n : Nat) (version : UInt8) : Prop where
  kept : n = version.toNat → withPragma source version = .ok source
  refused : n ≠ version.toNat → ∃ conflict : PragmaConflict,
    withPragma source version = .error conflict ∧ conflict.declared.toNat = n ∧
      conflict.requested = version
  single : withPragma source version ≠ .ok (pragma version ++ source)

theorem pragma_append_ne (version : UInt8) (source : String) :
    pragma version ++ source ≠ source := by
  intro heq
  have hlists := congrArg String.toList heq
  rw [String.toList_append, List.append_left_eq_self, toList_pragma] at hlists
  exact List.append_ne_nil_of_right_ne_nil _ (List.cons_ne_nil _ _) hlists

/-- A declaration is respected if its number has eight bits and is spelled with ASCII digits. Any
other gets a second declaration put in front of it, whichever version is asked for. -/
theorem respects_iff (h : Declares source digits) (version : UInt8) :
    Respects source (numberOf digits) version ↔
      numberOf digits < 256 ∧ ∀ c ∈ digits, c.isDigit = true := by
  constructor
  · intro hrespects
    by_contra hnot
    refine hrespects.single (withPragma_of_not_isByteNumeral h (fun hbyte => hnot ?_) version)
    exact ⟨hbyte.lt, hbyte.isDigit⟩
  · rintro ⟨hlt, hdigits⟩
    have hwith := withPragma_of_isByteNumeral h ⟨hdigits, hlt⟩ version
    refine ⟨fun hsame => ?kept, fun hdiffers => ?refused, ?single⟩
    case kept => rw [hwith, if_pos hsame]
    case refused =>
      rw [hwith, if_neg hdiffers]
      exact ⟨_, rfl, UInt8.toNat_ofNat_of_lt' hlt, rfl⟩
    case single =>
      rw [hwith]
      split
      · intro heq
        exact pragma_append_ne version source (Except.ok.inj heq).symm
      · simp

def wideSpacing : Spacing where
  front := ['\t']
  middle := [' ', ' ']
  last := [' ']
  back := [' ']
  blanks := List.all_eq_true.mp rfl
  middle_ne_nil := List.cons_ne_nil _ _
  last_ne_nil := List.cons_ne_nil _ _

def spacedSource : String :=
  "  // counter\n \n\t#pragma  version 008 \r\nint 1"

theorem respects_iff_spaced : Declares spacedSource "008".toList ∧
    Respects spacedSource 8 8 ∧ Respects spacedSource 8 9 := by
  have hnumeral : IsNumeral "008".toList :=
    ⟨by decide, List.all_eq_true.mp (by decide)⟩
  have hbefore : ∀ line ∈ ["  // counter".toList, " ".toList], Skipped line := by
    rintro line (_ | ⟨_, _ | ⟨_, ⟨⟩⟩⟩)
    · exact .comment (show Blanks [' ', ' '] from List.all_eq_true.mp rfl) " counter".toList
    · exact .blank (List.all_eq_true.mp rfl)
  have hdeclares : Declares spacedSource "008".toList :=
    ⟨hnumeral, _, wideSpacing, ["int 1".toList], hbefore, by decide +kernel⟩
  have hnumber : numberOf "008".toList = 8 := by decide
  have hdigits : ∀ c ∈ "008".toList, c.isDigit = true := List.all_eq_true.mp (by decide)
  rw [← hnumber]
  exact ⟨hdeclares, (respects_iff hdeclares 8).mpr ⟨by decide, hdigits⟩,
    (respects_iff hdeclares 9).mpr ⟨by decide, hdigits⟩⟩

/-- The number 256 does not have eight bits, and the source is taken for one that declares none. -/
theorem second_declaration : Declares "#pragma version 256\nint 1" "256".toList ∧
    numberOf "256".toList = 256 ∧
    withPragma "#pragma version 256\nint 1" 8 =
      .ok "#pragma version 8\n#pragma version 256\nint 1" ∧
    ¬ Respects "#pragma version 256\nint 1" 256 8 := by
  have hdeclares : Declares "#pragma version 256\nint 1" "256".toList :=
    ⟨⟨by decide, List.all_eq_true.mp (by decide)⟩, [], Spacing.single, ["int 1".toList],
      List.forall_mem_nil _, by decide +kernel⟩
  have hnone : declaredVersion "#pragma version 256\nint 1" = none := by decide +kernel
  have hprepended : withPragma "#pragma version 256\nint 1" 8 =
      .ok (pragma 8 ++ "#pragma version 256\nint 1") := by
    rw [withPragma, hnone]
  exact ⟨hdeclares, by decide, hprepended, fun hrespects => hrespects.single hprepended⟩

/-! ## The declaration that is put in front -/

theorem mem_single_line {version : Nat} {c : Char}
    (h : c ∈ Spacing.single.line (Decimal.chars version)) : c ≠ '\n' ∧ c ≠ '\r' := by
  have hwords : ∀ c ∈ "#pragma".toList ++ [' '] ++ "version".toList ++ [' '],
      c ≠ '\n' ∧ c ≠ '\r' := by
    simp
  simp only [Spacing.line, Spacing.single, List.nil_append, List.append_nil,
    ← List.append_assoc] at h
  rcases List.mem_append.mp h with hword | hdigit
  · exact hwords c hword
  · have hdigit := Decimal.isDigit_of_mem_chars hdigit
    constructor <;> rintro rfl <;> exact absurd hdigit (by decide)

theorem declares_pragma (version : UInt8) (source : String) :
    Declares (pragma version ++ source) (Decimal.chars version.toNat) := by
  refine ⟨⟨Decimal.chars_ne_nil _, fun c hc => ?_⟩, [], Spacing.single, lines source.toList,
    List.forall_mem_nil _, ?_⟩
  · exact isDecimalDigit_of_isDigit (Decimal.isDigit_of_mem_chars hc)
  · rw [String.toList_append, toList_pragma, List.append_assoc, List.singleton_append,
      lines_append_cons fun c => mem_single_line]
    rfl

theorem declaredVersion_pragma (version : UInt8) (source : String) :
    declaredVersion (pragma version ++ source) = some version := by
  rw [declaredVersion_of_declares (declares_pragma version source),
    Decimal.readBelow?_chars version.toNat_lt]
  exact congrArg some version.ofNat_toNat

theorem withPragma_of_declared {full : String} {version : UInt8}
    (h : declaredVersion full = some version) : withPragma full version = .ok full := by
  rw [withPragma, h]
  exact if_pos rfl

theorem declared_of_withPragma {full : String} {version : UInt8}
    (h : withPragma source version = .ok full) : declaredVersion full = some version := by
  rw [withPragma] at h
  cases hdeclared : declaredVersion source with
  | none =>
    simp only [hdeclared] at h
    obtain rfl := Except.ok.inj h
    exact declaredVersion_pragma version source
  | some declared =>
    simp only [hdeclared] at h
    by_cases hsame : declared = version
    · rw [if_pos hsame] at h
      obtain rfl := Except.ok.inj h
      rw [hdeclared, hsame]
    · rw [if_neg hsame] at h
      cases h

/-- The declaration goes in front, if it is not there. -/
theorem suffix_of_withPragma {full : String} {version : UInt8}
    (h : withPragma source version = .ok full) : source.toList <:+ full.toList := by
  rw [withPragma] at h
  split at h
  · split at h
    · obtain rfl := Except.ok.inj h
      exact List.suffix_rfl
    · cases h
  · obtain rfl := Except.ok.inj h
    rw [String.toList_append]
    exact List.suffix_append _ _

end Program

end AppLedger
