import AppLedger.Abi.Method
import AppLedger.Proofs.Abi.TypeText
import Mathlib.Data.List.TakeWhile

/-! A signature is read back as a method with the name, the arguments and the result that it was
written for. Every text that is read as a method stands for one signature. -/

namespace AppLedger.Abi

open Text (join join_cons_cons isBlank isBlank_eq_false isBlank_of_isDigit)

/-! ## Arguments -/

theorem Ty.isBlank_of_isTextChar {c : Char} (h : Ty.IsTextChar c) : isBlank c = false := by
  rcases h with ⟨hlow, hhigh⟩ | hdigit | hmark
  · have hlow : 97 ≤ c.toNat := hlow
    have hhigh : c.toNat ≤ 122 := hhigh
    exact isBlank_eq_false (by omega) (by omega)
  · exact isBlank_of_isDigit hdigit
  · have hmarks : ∀ c ∈ ['(', ')', '[', ']', ','], isBlank c = false :=
      List.all_iff_forall_prop.mp (by decide)
    exact hmarks c hmark

namespace TransactionKind

theorem read?_eq_some {s : List Char} {kind : TransactionKind} (h : read? s = some kind) :
    s = kind.chars := by
  have hfound := List.find?_some h
  exact (of_decide_eq_true hfound).symm

theorem not_type (kind : TransactionKind) (ty : Ty) : ty.chars ≠ kind.chars := by
  intro heq
  have hread := Ty.read_chars ty
  rw [heq] at hread
  cases kind <;> exact absurd hread nofun

theorem read?_type (ty : Ty) : read? ty.chars = none :=
  Option.eq_none_iff_forall_ne_some.mpr fun kind h => kind.not_type ty (read?_eq_some h)

end TransactionKind

namespace ReferenceKind

theorem read?_eq_some {s : List Char} {kind : ReferenceKind} (h : read? s = some kind) :
    s = kind.chars := by
  have hfound := List.find?_some h
  exact (of_decide_eq_true hfound).symm

theorem not_type (kind : ReferenceKind) (ty : Ty) : ty.chars ≠ kind.chars := by
  intro heq
  have hread := Ty.read_chars ty
  rw [heq] at hread
  cases kind <;> exact absurd hread nofun

theorem read?_type (ty : Ty) : read? ty.chars = none :=
  Option.eq_none_iff_forall_ne_some.mpr fun kind h => kind.not_type ty (read?_eq_some h)

end ReferenceKind

namespace ArgType

/-- No type is written like a transaction or a reference. -/
theorem read_chars (type : ArgType) : read type.chars = .ok type := by
  cases type with
  | value ty =>
    rw [chars, read, TransactionKind.read?_type, ReferenceKind.read?_type, Ty.read_chars]
    rfl
  | transaction kind => cases kind <;> rfl
  | reference kind => cases kind <;> rfl

theorem isItem_chars (type : ArgType) : IsItem type.chars := by
  cases type with
  | value ty => exact Ty.isItem_chars ty
  | transaction kind =>
    cases kind <;> exact isItem_of_plain (by decide) (List.all_iff_forall_prop.mp (by decide))
  | reference kind =>
    cases kind <;> exact isItem_of_plain (by decide) (List.all_iff_forall_prop.mp (by decide))

theorem isTextChar_of_mem_chars (type : ArgType) : ∀ c ∈ type.chars, Ty.IsTextChar c := by
  cases type with
  | value ty => exact Ty.isTextChar_of_mem_chars ty
  | transaction kind => cases kind <;> exact List.all_iff_forall_prop.mp (by decide)
  | reference kind => cases kind <;> exact List.all_iff_forall_prop.mp (by decide)

end ArgType

namespace Method

variable {commas : Bool} {w s : List Char} {m m' : Method}

/-! ## The parts of a signature -/

theorem splitClosing_append (h : Matched commas w) (depth : Nat) (rest : List Char) :
    splitClosing (depth + 1) (w ++ rest) =
      (splitClosing (depth + 1) rest).map fun p => (w ++ p.1, p.2) := by
  induction h generalizing depth rest with
  | nil => simp
  | @char commas c w hopen hclose _ _ ih =>
    rw [List.cons_append, splitClosing, if_neg hopen, ih]
    · simp [Function.comp_def]
    · exact hclose
  | @group commas inner w _ _ ihinner ih =>
    rw [List.cons_append, List.append_assoc, List.cons_append, splitClosing, if_pos rfl, ihinner,
      splitClosing, if_neg (by omega), Nat.add_sub_cancel, ih]
    · simp [Function.comp_def]
    · decide

/-- The parenthesis after the arguments is the one that closes them. -/
theorem splitClosing_matched (h : Matched commas w) (after : List Char) :
    splitClosing 1 (w ++ ')' :: after) = some (w, after) := by
  rw [splitClosing_append h 0, splitClosing, if_pos (Nat.le_refl 1), Option.map_some,
    List.append_nil]

theorem joinCommas_eq (words : List (List Char)) : joinCommas words = join ',' words := by
  induction words with
  | nil => rfl
  | cons w words ih =>
    cases words with
    | nil => rfl
    | cons => rw [joinCommas, ih, join_cons_cons]; nofun

def argTypes (m : Method) : List ArgType :=
  m.args.map (·.type)

/-- The text of what a method returns. -/
def returnsChars (returns : Option Ty) : List Char :=
  returns.elim voidChars Ty.chars

theorem signatureChars_eq (m : Method) :
    m.signatureChars = m.name.toList ++
      '(' :: (join ',' (m.argTypes.map ArgType.chars) ++ ')' :: returnsChars m.returns) := by
  rw [signatureChars, joinCommas_eq, argTypes, List.map_map]
  rfl

theorem readReturns_returnsChars (returns : Option Ty) :
    readReturns (returnsChars returns) = .ok returns := by
  cases returns with
  | none => rfl
  | some ty =>
    have hread := Ty.read_chars ty
    have hvoid : ¬ (ty.chars.isEmpty ∨ ty.chars = voidChars) := by
      rintro (hempty | hvoid)
      · exact (Ty.isItem_chars ty).nonempty (List.isEmpty_iff.mp hempty)
      · rw [hvoid] at hread
        exact absurd hread nofun
    rw [returnsChars, Option.elim_some, readReturns, if_neg hvoid, hread]
    rfl

theorem map_type_argsFrom (index : Nat) (types : List ArgType) :
    (argsFrom index types).map (·.type) = types := by
  induction types generalizing index with
  | nil => rfl
  | cons type types ih => rw [argsFrom, List.map_cons, ih]

/-! ## Names -/

/-- The name ends where the arguments begin. -/
structure PlainName (m : Method) : Prop where
  nonempty : m.name ≠ ""
  noParen : '(' ∉ m.name.toList
  noBlank : ∀ c ∈ m.name.toList, isBlank c = false

theorem isBlank_of_mem_signatureChars (h : m.PlainName) :
    ∀ c ∈ m.signatureChars, isBlank c = false := by
  rw [signatureChars_eq, List.forall_mem_append, List.forall_mem_cons, List.forall_mem_append,
    List.forall_mem_cons]
  refine ⟨h.noBlank, rfl, fun c hc => ?_, rfl, fun c hc => ?_⟩
  · refine Ty.isBlank_of_isTextChar (Ty.isTextChar_of_mem_join (fun w hw => ?_) c hc)
    obtain ⟨type, -, rfl⟩ := List.mem_map.mp hw
    exact type.isTextChar_of_mem_chars
  · cases hreturns : m.returns with
    | none =>
      have hvoid : ∀ c ∈ voidChars, isBlank c = false := List.all_iff_forall_prop.mp (by decide)
      rw [hreturns] at hc
      exact hvoid c hc
    | some ty =>
      rw [hreturns] at hc
      exact Ty.isBlank_of_isTextChar (Ty.isTextChar_of_mem_chars ty c hc)

theorem signature_eq (h : m.PlainName) : m.signature = .ok (String.ofList m.signatureChars) := by
  have hname : ¬ m.name.isEmpty = true := by
    simpa using h.nonempty
  have hblank : ¬ m.signatureChars.any isBlank = true := by
    rw [List.any_eq_true]
    rintro ⟨c, hc, hblank⟩
    exact Bool.false_ne_true ((isBlank_of_mem_signatureChars h c hc).symm.trans hblank)
  rw [signature, if_neg hname, if_neg hblank]

/-! ## Reading -/

/-- What a signature shows of a method. Its arguments go by their places. -/
def canonical (m : Method) : Method where
  name := m.name
  args := argsFrom 0 m.argTypes
  returns := m.returns

/-- The methods may differ in their descriptions and in the names of their arguments. -/
structure Agrees (m m' : Method) : Prop where
  name : m.name = m'.name
  argTypes : m.argTypes = m'.argTypes
  returns : m.returns = m'.returns

theorem read_signatureChars (h : m.PlainName) : read m.signatureChars = .ok m.canonical := by
  have hblank : ¬ m.signatureChars.any isBlank = true := by
    rw [List.any_eq_true]
    rintro ⟨c, hc, hblank⟩
    exact Bool.false_ne_true ((isBlank_of_mem_signatureChars h c hc).symm.trans hblank)
  have hitems : ∀ w ∈ m.argTypes.map ArgType.chars, IsItem w := by
    intro w hw
    obtain ⟨type, -, rfl⟩ := List.mem_map.mp hw
    exact type.isItem_chars
  have hinside : ∀ c ∈ m.name.toList, decide (c ≠ '(') = true := by
    intro c hc
    refine decide_eq_true ?_
    rintro rfl
    exact h.noParen hc
  have hname : m.signatureChars.takeWhile (· ≠ '(') = m.name.toList := by
    rw [signatureChars_eq, List.takeWhile_append_of_pos hinside]
    simp
  have hnonempty : ¬ m.name.toList.isEmpty = true := by
    simpa using h.nonempty
  have hopened : ¬ m.name.toList.length = m.signatureChars.length := by
    rw [signatureChars_eq, List.length_append, List.length_cons]
    omega
  have hdrop : m.signatureChars.drop (m.name.toList.length + 1) =
      join ',' (m.argTypes.map ArgType.chars) ++ ')' :: returnsChars m.returns := by
    rw [signatureChars_eq, List.drop_length_add_append]
    rfl
  have hargs : (m.argTypes.map ArgType.chars).mapM ArgType.read = .ok m.argTypes :=
    mapM_eq_ok.mpr (List.forall₂_map_left_iff.mpr
      (List.forall₂_same.mpr fun type _ => type.read_chars))
  rw [read, if_neg hblank, hname, if_neg hopened, if_neg hnonempty, hdrop,
    splitClosing_matched (join_items hitems).2.2.2]
  simp only [tupleItems_join hitems]
  refine bind_eq_ok.mpr ⟨_, rfl, bind_eq_ok.mpr ⟨_, hargs, bind_eq_ok.mpr ⟨_,
    readReturns_returnsChars m.returns, ?_⟩⟩⟩
  rw [String.ofList_toList]
  rfl

/-- A text that is read as a method shows all of it. -/
theorem read_cases (h : read s = .ok m) : '(' ∈ s ∧ m.PlainName ∧ m = m.canonical := by
  rw [read] at h
  by_cases hblank : s.any isBlank = true
  · simp only [if_pos hblank] at h
    exact absurd h throw_bind_ne_ok
  by_cases hopened : (s.takeWhile (· ≠ '(')).length = s.length
  · simp only [if_neg hblank, if_pos hopened] at h
    exact absurd h throw_bind_ne_ok
  by_cases hempty : (s.takeWhile (· ≠ '(')).isEmpty = true
  · simp only [if_neg hblank, if_neg hopened, if_pos hempty] at h
    exact absurd h throw_bind_ne_ok
  simp only [if_neg hblank, if_neg hopened, if_neg hempty] at h
  split at h
  · exact absurd h throw_ne_ok
  · obtain ⟨words, -, h⟩ := bind_eq_ok.mp h
    obtain ⟨types, -, h⟩ := bind_eq_ok.mp h
    obtain ⟨returns, -, h⟩ := bind_eq_ok.mp h
    obtain rfl := Except.ok.inj h
    refine ⟨?_, ⟨fun hname => ?_, ?_, fun c hc => ?_⟩, ?_⟩
    · by_contra hparen
      refine hopened (congrArg List.length (List.takeWhile_eq_self_iff.mpr fun c hc => ?_))
      exact decide_eq_true fun heq => hparen (heq ▸ hc)
    · rw [← String.toList_inj, String.toList_ofList] at hname
      exact hempty (List.isEmpty_iff.mpr hname)
    · rw [String.toList_ofList]
      intro hparen
      have hother := List.all_eq_true.mp List.all_takeWhile _ hparen
      exact of_decide_eq_true hother rfl
    · rw [String.toList_ofList] at hc
      have hmem := List.takeWhile_subset _ hc
      exact Bool.eq_false_iff.mpr fun hc => hblank (List.any_eq_true.mpr ⟨c, hmem, hc⟩)
    · rw [canonical, argTypes, map_type_argsFrom]

/-! ## Round trips -/

theorem argTypes_canonical (m : Method) : m.canonical.argTypes = m.argTypes :=
  map_type_argsFrom 0 m.argTypes

theorem canonical_eq_of_agrees (h : m.Agrees m') : m.canonical = m'.canonical := by
  rw [canonical, canonical, h.name, h.argTypes, h.returns]

theorem agrees_of_canonical_eq (h : m.canonical = m'.canonical) : m.Agrees m' where
  name := (Method.mk.inj h).1
  argTypes := by rw [← argTypes_canonical m, h, argTypes_canonical]
  returns := (Method.mk.inj h).2.2.1

theorem ofText_of_signature {text : String} (h : m.PlainName) (htext : m.signature = .ok text) :
    ofText text = .ok m.canonical := by
  rw [signature_eq h] at htext
  obtain rfl := Except.ok.inj htext
  rw [ofText, String.toList_ofList, read_signatureChars h]

/-- Signatures tell methods apart that differ in more than descriptions, and a method that was
read from a text, which may be another than its signature, is read from its signature too. -/
theorem ofText_signature :
    (∀ m : Method, m.PlainName →
      ∃ text m', m.signature = .ok text ∧ ofText text = .ok m' ∧ m'.Agrees m) ∧
    (∀ m m' : Method, m.PlainName → m'.PlainName → m.signature = m'.signature → m.Agrees m') ∧
    ∀ (text : String) (m : Method), ofText text = .ok m →
      ∃ shown, m.signature = .ok shown ∧ ofText shown = .ok m ∧
        (ofText shown >>= signature) = .ok shown := by
  refine ⟨fun m h => ?_, fun m m' h h' heq => ?_, fun text m h => ?_⟩
  · have htext := signature_eq h
    exact ⟨_, _, htext, ofText_of_signature h htext, agrees_of_canonical_eq
      (canonical_eq_of_agrees ⟨rfl, argTypes_canonical m, rfl⟩)⟩
  · have htext := ofText_of_signature h (signature_eq h)
    rw [ofText_of_signature h' (heq ▸ signature_eq h)] at htext
    exact agrees_of_canonical_eq (Except.ok.inj htext).symm
  · obtain ⟨-, hplain, hcanonical⟩ := read_cases h
    have hread := ofText_of_signature hplain (signature_eq hplain)
    rw [← hcanonical] at hread
    refine ⟨_, signature_eq hplain, hread, ?_⟩
    rw [hread]
    exact signature_eq hplain

/-- A swap pays in, names an asset and shows the price of each size. -/
def swap : Method where
  name := "swap"
  args := [{ type := .transaction .payment, name := some "in" }, { type := .reference .asset },
    { type := .value (.dynamic (.tuple [.uint64, .bool])) }]
  returns := some (.tuple [.static .byte 4, .string])

theorem ofText_signature_swap :
    swap.signature = .ok "swap(pay,asset,(uint64,bool)[])(byte[4],string)" ∧
    (∃ text m', swap.signature = .ok text ∧ ofText text = .ok m' ∧ m'.Agrees swap) ∧
    swap.Agrees { swap with description := some "Swaps" } ∧
    ∃ m, ofText "swap(uint064)" = .ok m ∧ ∃ shown, m.signature = .ok shown ∧
      ofText shown = .ok m ∧ (ofText shown >>= signature) = .ok shown := by
  have hplain : swap.PlainName :=
    ⟨by decide, by decide, List.all_iff_forall_prop.mp (by decide)⟩
  have hother : PlainName { swap with description := some "Swaps" } :=
    ⟨hplain.nonempty, hplain.noParen, hplain.noBlank⟩
  exact ⟨by rfl, ofText_signature.1 swap hplain, ofText_signature.2.1 _ _ hplain hother rfl,
    _, rfl, ofText_signature.2.2 "swap(uint064)" _ rfl⟩

/-! ## The names of the arguments -/

/-- The name of the argument at a place, which is empty where none is declared. -/
def argName (m : Method) (i : Nat) : String :=
  (m.args[i]?.bind (·.name)).getD ""

variable {text : String} {declared : Arg} {i j : Nat}

theorem getElem?_argsFrom (index : Nat) (types : List ArgType) (i : Nat) :
    (argsFrom index types)[i]? =
      types[i]?.map fun type => { type, name := some s!"arg{index + i}" } := by
  induction types generalizing index i with
  | nil => rfl
  | cons type types ih =>
    rw [argsFrom]
    cases i with
    | zero => rfl
    | succ i =>
      rw [List.getElem?_cons_succ, List.getElem?_cons_succ, ih, Nat.add_right_comm, Nat.add_assoc]

theorem name_of_ofText (h : ofText text = .ok m) (hi : m.args[i]? = some declared) :
    declared.name = some s!"arg{i}" := by
  rw [(read_cases h).2.2, canonical, getElem?_argsFrom, Option.map_eq_some_iff, Nat.zero_add] at hi
  obtain ⟨type, -, rfl⟩ := hi
  rfl

theorem placeName_ne_empty : s!"arg{i}" ≠ "" := by
  intro h
  have hsize := congrArg String.utf8ByteSize h
  simp at hsize

theorem placeName_inj : s!"arg{i}" = s!"arg{j}" ↔ i = j := by
  refine ⟨fun h => ?_, fun h => h ▸ rfl⟩
  have hdigits : toString i = toString j := by
    simpa [← String.toList_inj] using h
  rw [← String.toList_inj, Text.Decimal.toList_toString, Text.Decimal.toList_toString] at hdigits
  rw [← Nat.ofDigitChars_ten_toDigits (n := i), ← Nat.ofDigitChars_ten_toDigits (n := j)]
  exact congrArg _ hdigits

theorem argName_of_getElem? (h : ofText text = .ok m) (hi : m.args[i]? = some declared) :
    m.argName i = s!"arg{i}" := by
  rw [argName, hi, Option.bind_some, name_of_ofText h hi, Option.getD_some]

/-- The names of the arguments are their places, so that each is found by its name. -/
theorem find?_argName (h : ofText text = .ok m) (i : Nat) :
    m.args.find? (·.name = some (m.argName i)) = m.args[i]? := by
  cases hi : m.args[i]? with
  | some declared =>
    obtain ⟨hlt, hdeclared⟩ := List.getElem?_eq_some_iff.mp hi
    rw [argName_of_getElem? h hi, List.find?_eq_some_iff_getElem]
    refine ⟨decide_eq_true (name_of_ofText h hi), i, hlt, hdeclared, fun j hj => ?_⟩
    have hother := name_of_ofText h (List.getElem?_eq_getElem (Nat.lt_trans hj hlt))
    rw [Bool.not_eq_true', decide_eq_false_iff_not, hother, Option.some.injEq, placeName_inj]
    exact Nat.ne_of_lt hj
  | none =>
    rw [argName, hi, List.find?_eq_none]
    intro declared hmem hname
    obtain ⟨j, hj⟩ := List.mem_iff_getElem?.mp hmem
    have hempty := (name_of_ofText h hj).symm.trans (of_decide_eq_true hname)
    exact absurd (Option.some.inj hempty) placeName_ne_empty

end Method

end AppLedger.Abi
