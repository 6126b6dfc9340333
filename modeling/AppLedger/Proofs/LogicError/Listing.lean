import AppLedger.LogicError
import AppLedger.Proofs.Text.Decimal

/-! Which lines of its source an error lists, and which of them it marks. A line is told by the
number at the beginning of its entry, so what stands in the lines does not matter. -/

namespace AppLedger.LogicError

open Text

variable {m n : Nat} {s t : List Char}

/-! ## The number of an entry -/

/-- The digits are found again behind the blanks, up to the blank that follows. -/
theorem takeWhile_lineNumber (n : Nat) (s : List Char) :
    ((lineNumber n ++ ' ' :: s).dropWhile (· = ' ')).takeWhile Char.isDigit = Decimal.chars n := by
  have hblanks : ∀ c ∈ List.replicate (4 - (Decimal.chars n).length) ' ',
      decide (c = ' ') = true :=
    fun c hc => decide_eq_true (List.eq_of_mem_replicate hc)
  have hdigits : (Decimal.chars n ++ ' ' :: s).dropWhile (· = ' ') =
      Decimal.chars n ++ ' ' :: s := by
    cases hchars : Decimal.chars n with
    | nil => exact absurd hchars (Decimal.chars_ne_nil n)
    | cons c rest =>
      have hc : c ≠ ' ' := by
        rintro rfl
        exact absurd (Decimal.isDigit_of_mem_chars (hchars ▸ List.mem_cons_self)) (by decide)
      rw [List.cons_append, List.dropWhile_cons_of_neg (by simpa using hc)]
  rw [lineNumber, List.append_assoc, List.dropWhile_append_of_pos hblanks, hdigits,
    List.takeWhile_append_of_pos fun _ => Decimal.isDigit_of_mem_chars]
  exact List.append_nil _

theorem lineNumber_append_inj (h : lineNumber m ++ ' ' :: s = lineNumber n ++ ' ' :: t) :
    m = n := by
  refine Decimal.chars_injective ?_
  rw [← takeWhile_lineNumber m s, h, takeWhile_lineNumber]

/-- The marker of a line is at the beginning of the entries of that line only, however many digits
the numbers have. -/
theorem isPrefixOf_marker_iff (line : List Char) :
    (marker m).isPrefixOf (entry n line).toList = true ↔ m = n := by
  rw [List.isPrefixOf_iff_prefix, entry, String.toList_ofList]
  constructor
  · rintro ⟨rest, h⟩
    refine lineNumber_append_inj (s := '|' :: rest) (t := '|' :: ' ' :: line) ?_
    simpa [marker] using h
  · rintro rfl
    exact ⟨' ' :: line, by simp [marker]⟩

/-! ## The lines that are listed -/

/-- The lines of a source with their numbers, counted from one. -/
def numbered (source : String) : List (List Char × Nat) :=
  (lines source.toList).zipIdx 1

/-- The lines up to `context` lines before and after a line, as far as there are such lines. -/
def window (source : String) (line context : Nat) : List (List Char × Nat) :=
  (numbered source).filter fun p =>
    max 1 (line - context) ≤ p.2 ∧ p.2 ≤ min (lines source.toList).length (line + context)

theorem entriesFrom_eq (n : Nat) (all : List (List Char)) :
    entriesFrom n all = (all.zipIdx n).map fun p => entry p.2 p.1 := by
  induction all generalizing n with
  | nil => rfl
  | cons line all ih => rw [entriesFrom, ih, List.zipIdx_cons, List.map_cons]

section

variable {α : Type} (as : List α)

theorem filter_ge_zipIdx (n first : Nat) :
    (as.zipIdx n).filter (fun p => first ≤ p.2) = (as.drop (first - n)).zipIdx (max first n) := by
  induction as generalizing n with
  | nil => simp
  | cons a as ih =>
    by_cases hbefore : n < first
    · have hdrop : first - n = first - (n + 1) + 1 := by omega
      have hmax : max first (n + 1) = max first n := by omega
      rw [List.zipIdx_cons, List.filter_cons_of_neg (by simpa using hbefore), ih, hdrop, hmax,
        List.drop_succ_cons]
    · have hfirst : first ≤ n := by omega
      rw [Nat.sub_eq_zero_of_le hfirst, Nat.max_eq_right hfirst, List.drop_zero,
        List.filter_eq_self]
      intro p hp
      exact decide_eq_true (Nat.le_trans hfirst (List.le_snd_of_mem_zipIdx hp))

theorem filter_le_zipIdx (n last : Nat) :
    (as.zipIdx n).filter (fun p => p.2 ≤ last) = (as.take (last + 1 - n)).zipIdx n := by
  induction as generalizing n with
  | nil => simp
  | cons a as ih =>
    by_cases hlast : n ≤ last
    · have htake : last + 1 - n = last + 1 - (n + 1) + 1 := by omega
      rw [List.zipIdx_cons, List.filter_cons_of_pos (by simpa using hlast), ih, htake,
        List.take_succ_cons, List.zipIdx_cons]
    · have htake : last + 1 - n = 0 := by omega
      rw [htake, List.take_zero, List.zipIdx_nil, List.filter_eq_nil_iff]
      intro p hp
      have hle := List.le_snd_of_mem_zipIdx hp
      simp only [decide_eq_true_eq]
      omega

/-- The items whose numbers are from `first` up to `last` follow one another. -/
theorem filter_zipIdx (n first last : Nat) :
    (as.zipIdx n).filter (fun p => first ≤ p.2 ∧ p.2 ≤ last) =
      ((as.drop (first - n)).take (last + 1 - max first n)).zipIdx (max first n) := by
  rw [← filter_le_zipIdx, ← filter_ge_zipIdx, List.filter_filter]
  exact List.filter_congr fun p _ => by rw [Bool.decide_and, Bool.and_comm]

end

/-- What is cut out of the source are the lines of the window. -/
theorem listingAround_eq (source : String) {line : Nat} (hline : 1 ≤ line) (context : Nat) :
    listingAround source line context =
      (window source line context).map fun p => entry p.2 p.1 := by
  have hwindow : window source line context = (numbered source).filter fun p =>
      max 1 (line - context) ≤ p.2 ∧ p.2 ≤ line + context := by
    -- No line has a number beyond the last one, so it need not be compared with that.
    refine List.filter_congr fun p hp => ?_
    have hle : p.2 < (lines source.toList).length + 1 := List.snd_lt_of_mem_zipIdx hp
    rw [decide_eq_decide]
    omega
  have hdrop : max 1 (line - context) - 1 = line - 1 - context := by omega
  have hfirst : max (max 1 (line - context)) 1 = line - 1 - context + 1 := by omega
  have htake : line + context + 1 - (line - 1 - context + 1) =
      line - 1 - (line - 1 - context) + context + 1 := by omega
  rw [listingAround, entriesFrom_eq, hwindow, numbered, filter_zipIdx, hdrop, hfirst, htake]

theorem map_snd_window (source : String) (line context : Nat) :
    (window source line context).map Prod.snd =
      List.range' (max 1 (line - context))
        (min (lines source.toList).length (line + context) + 1 - max 1 (line - context)) := by
  rw [window, numbered, filter_zipIdx, List.zipIdx_map_snd, List.length_take, List.length_drop]
  congr 1
  · omega
  · omega

/-- Of the window only the line itself has its number, if the source is that long. -/
theorem filter_window (source : String) {line : Nat} (hline : 1 ≤ line) (context : Nat) :
    (window source line context).filter (fun p => p.2 = line) =
      ((lines source.toList)[line - 1]?).toList.map (·, line) := by
  have hself : (window source line context).filter (fun p => p.2 = line) =
      (numbered source).filter fun p => line ≤ p.2 ∧ p.2 ≤ line := by
    rw [window, List.filter_filter]
    refine List.filter_congr fun p hp => ?_
    have hle : p.2 < (lines source.toList).length + 1 := List.snd_lt_of_mem_zipIdx hp
    rw [← Bool.decide_and, decide_eq_decide]
    omega
  have hone : line + 1 - line = 1 := by omega
  rw [hself, numbered, filter_zipIdx, Nat.max_eq_left hline, hone, List.take_one, List.head?_drop]
  cases (lines source.toList)[line - 1]? with
  | none => rfl
  | some text => rfl

/-! ## The line that is marked -/

theorem traceEntry_entry (line n : Nat) (text : List Char) :
    traceEntry line (entry n text) =
      entry n text ++ (if n = line then "\t<--- Error" else "") ++ "\n" := by
  rw [traceEntry]
  by_cases h : n = line
  · rw [if_pos ((isPrefixOf_marker_iff text).mpr h.symm), if_pos h]
  · rw [if_neg fun hmarked => h ((isPrefixOf_marker_iff text).mp hmarked).symm, if_neg h,
      String.append_empty]

/-- An error lists the lines of its source from three before its own up to three after it, and
marks its own. A line beyond the source is not listed, and then no line is marked. -/
theorem trace_of_listingAround (source : String) {line : Nat} (hline : 1 ≤ line) {e : LogicError}
    (he : e.line = some line) (hlisting : e.listing = listingAround source line 3) :
    let shown := window source line 3
    let first := max 1 (line - 3)
    let last := min (lines source.toList).length (line + 3)
    (e.listing = shown.map fun p => entry p.2 p.1) ∧
      shown.map Prod.snd = List.range' first (last + 1 - first) ∧
      (e.trace? = if shown = [] then none else some (String.join (shown.map fun p =>
        entry p.2 p.1 ++ (if p.2 = line then "\t<--- Error" else "") ++ "\n"))) ∧
      shown.filter (fun p => p.2 = line) =
        ((lines source.toList)[line - 1]?).toList.map (·, line) := by
  intro shown first last
  have hshown : e.listing = shown.map fun p => entry p.2 p.1 :=
    hlisting.trans (listingAround_eq source hline 3)
  refine ⟨hshown, map_snd_window source line 3, ?_, filter_window source hline 3⟩
  simp only [trace?, he, hshown, List.isEmpty_map, List.isEmpty_iff, List.map_map,
    Function.comp_def, traceEntry_entry]

/-- The number of the line stands at the beginning of another line, and a line is asked for that the
source does not have. -/
theorem trace_of_listingAround_lookalike :
    let source := "a\nb\nc\nd\ne\nf\ng\n 10 |\n  10 | err\n\tint 1\nerr"
    let e (line : Nat) : LogicError :=
      { reason := "", line := some line, listing := listingAround source line 3 }
    1 ≤ 10 ∧ 1 ≤ 13 ∧ 1 ≤ 15 ∧ (∀ line, (e line).line = some line) ∧
      (∀ line, (e line).listing = listingAround source line 3) ∧
      (e 10).trace? = some ("   7 | g\n   8 |  10 |\n   9 |   10 | err\n" ++
        "  10 | \tint 1\t<--- Error\n  11 | err\n") ∧
      (e 13).trace? = some "  10 | \tint 1\n  11 | err\n" ∧ (e 15).trace? = none := by
  intro source e
  have hown (line : Nat) : (e line).line = some line := rfl
  have htrace {line : Nat} (hline : 1 ≤ line) :=
    (trace_of_listingAround source hline (hown line) rfl).2.2.1
  refine ⟨by decide, by decide, by decide, hown, fun _ => rfl, ?_, ?_, ?_⟩
  · rw [htrace (by decide : 1 ≤ 10)]
    decide +kernel
  · rw [htrace (by decide : 1 ≤ 13)]
    decide +kernel
  · rw [htrace (by decide : 1 ≤ 15)]
    decide +kernel

end AppLedger.LogicError
