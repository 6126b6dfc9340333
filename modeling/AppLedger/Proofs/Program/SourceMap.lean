import AppLedger.Program.SourceMap
import AppLedger.Proofs.Outcome
import AppLedger.Proofs.Text.Split
import AppLedger.Proofs.Text.Vlq
import Mathlib.Algebra.Ring.Int.Defs

/-! The lines of a source map are the running sums of the steps for which its segments were
written. -/

namespace AppLedger.Program.SourceMap

open Text

/-- The step to the line of a segment with the given numbers. Without numbers it is empty. -/
def stepOf (numbers : List Int) : Int :=
  numbers[2]?.getD 0

/-- The running sum of the steps up to a program counter. -/
def lineAt (segments : List (List Int)) (pc : Nat) : Int :=
  ((segments.take (pc + 1)).map stepOf).sum

/-- The segments of the program counters, one after the other. -/
def mappingsOf (segments : List (List Int)) : String :=
  String.ofList (join ';' (segments.map Vlq.encode))

/-- The numbers of a segment: none, or as many as reach to the step. -/
structure IsSegment (numbers : List Int) : Prop where
  reaches : numbers = [] ∨ 3 ≤ numbers.length
  bounded : ∀ i ∈ numbers, i.natAbs < 2 ^ 59

variable {segments : List (List Int)} {numbers : List Int}

theorem lineStep_encode (h : IsSegment numbers) (pc : Nat) :
    lineStep pc (Vlq.encode numbers) = .ok (stepOf numbers) := by
  rcases h.reaches with rfl | hlength
  · rfl
  · have hdecode := Vlq.decode_encode_numbers h.bounded
    have hstep : numbers[2]? = some numbers[2] := List.getElem?_eq_getElem hlength
    have hne : ¬ (Vlq.encode numbers).isEmpty = true := by
      intro hempty
      rw [List.isEmpty_iff.mp hempty] at hdecode
      obtain rfl := Except.ok.inj hdecode
      simp at hlength
    rw [lineStep, if_neg hne]
    simp only [hdecode, hstep, stepOf, Option.getD_some]

/-- One segment is read: its line must not be negative, and reading goes on after it. -/
theorem linesFrom_cons_eq_ok {pc : Nat} {line step : Int} {segment : List Char}
    {rest : List (List Char)} {lines : List Nat} (h : lineStep pc segment = .ok step) :
    linesFrom pc line (segment :: rest) = .ok lines ↔ 0 ≤ line + step ∧
      ∃ more, linesFrom (pc + 1) (line + step) rest = .ok more ∧
        lines = (line + step).toNat :: more := by
  rw [linesFrom, h]
  by_cases hneg : line + step < 0
  · simp only [bind, Except.bind, if_pos hneg]
    exact ⟨fun heq => absurd heq (by simp), fun hok => absurd hok.1 (by omega)⟩
  · have hnonneg : 0 ≤ line + step := by omega
    simp only [bind, Except.bind, if_neg hneg, hnonneg, true_and]
    cases linesFrom (pc + 1) (line + step) rest with
    | error why => simp
    | ok more => simp [pure, Except.pure, eq_comm]

/-- The running sums from `line` on. -/
def sumsFrom (line : Int) : List (List Int) → List Int
  | [] => []
  | numbers :: segments => (line + stepOf numbers) :: sumsFrom (line + stepOf numbers) segments

theorem getElem?_sumsFrom (line : Int) (segments : List (List Int)) (pc : Nat) :
    (sumsFrom line segments)[pc]? =
      if pc < segments.length then some (line + lineAt segments pc) else none := by
  induction segments generalizing line pc with
  | nil => simp [sumsFrom]
  | cons numbers segments ih =>
    cases pc with
    | zero => simp [sumsFrom, lineAt]
    | succ pc => simp [sumsFrom, lineAt, ih, Int.add_assoc]

theorem linesFrom_encode (h : ∀ numbers ∈ segments, IsSegment numbers) (pc : Nat) (line : Int)
    (lines : List Nat) :
    linesFrom pc line (segments.map Vlq.encode) = .ok lines ↔
      lines.map Int.ofNat = sumsFrom line segments := by
  induction segments generalizing pc line lines with
  | nil => cases lines <;> simp [linesFrom, sumsFrom]
  | cons numbers segments ih =>
    rw [List.forall_mem_cons] at h
    rw [List.map_cons, linesFrom_cons_eq_ok (lineStep_encode h.1 pc), sumsFrom]
    simp only [ih h.2]
    constructor
    · rintro ⟨hnonneg, more, hmore, rfl⟩
      rw [List.map_cons, hmore, Int.ofNat_eq_natCast, Int.toNat_of_nonneg hnonneg]
    · intro hsums
      obtain ⟨first, more, rfl, hfirst, hmore⟩ := List.map_eq_cons_iff.mp hsums
      rw [← hfirst]
      exact ⟨Int.natCast_nonneg first, more, hfirst ▸ hmore, rfl⟩

theorem ofJson_eq_ofMappings {json : Json.Value} {mappings : String}
    (h : (json.member? "mappings").bind Json.Value.text? = some mappings) :
    ofJson json = ofMappings mappings := by
  simp only [ofJson, h]

theorem ofMappings_eq_ok_iff (hne : segments ≠ []) (h : ∀ numbers ∈ segments, IsSegment numbers)
    {map : SourceMap} :
    ofMappings (mappingsOf segments) = .ok map ↔ map.lines.map Int.ofNat = sumsFrom 0 segments := by
  have hsplit : split ';' (mappingsOf segments).toList = segments.map Vlq.encode := by
    rw [mappingsOf, String.toList_ofList]
    have hparts : segments.map Vlq.encode ≠ [] := fun hnil => hne (List.map_eq_nil_iff.mp hnil)
    refine split_join hparts fun part hpart => ?_
    obtain ⟨numbers, -, rfl⟩ := List.mem_map.mp hpart
    exact Vlq.not_mem_encode rfl numbers
  rw [ofMappings, hsplit, map_eq_ok]
  simp only [linesFrom_encode h]
  constructor
  · rintro ⟨lines, hlines, rfl⟩
    exact hlines
  · intro hlines
    exact ⟨map.lines, hlines, rfl⟩

theorem exists_map_ofNat_iff {sums : List Int} :
    (∃ lines : List Nat, lines.map Int.ofNat = sums) ↔ ∀ sum ∈ sums, 0 ≤ sum := by
  constructor
  · rintro ⟨lines, rfl⟩ sum hsum
    obtain ⟨n, -, rfl⟩ := List.mem_map.mp hsum
    exact Int.natCast_nonneg n
  · intro h
    have hsame : sums.map (fun sum => Int.ofNat sum.toNat) = sums.map id :=
      List.map_congr_left fun sum hsum => Int.toNat_of_nonneg (h sum hsum)
    refine ⟨sums.map Int.toNat, ?_⟩
    rw [List.map_map]
    exact hsame.trans (List.map_id sums)

theorem forall_mem_sumsFrom {P : Int → Prop} {line : Int} :
    (∀ sum ∈ sumsFrom line segments, P sum) ↔
      ∀ pc < segments.length, P (line + lineAt segments pc) := by
  simp only [List.mem_iff_getElem?, getElem?_sumsFrom]
  constructor
  · intro h pc hpc
    exact h _ ⟨pc, if_pos hpc⟩
  · rintro h sum ⟨pc, hsum⟩
    split at hsum
    · next hpc =>
      obtain rfl := Option.some.inj hsum
      exact h pc hpc
    · simp at hsum

/-- A map that is written for steps is read if no running sum of them is negative, and only then.
Each program counter has its running sum as its line, and there are no others. -/
theorem ofJson_encoded (hne : segments ≠ []) (h : ∀ numbers ∈ segments, IsSegment numbers)
    {json : Json.Value}
    (hjson : (json.member? "mappings").bind Json.Value.text? = some (mappingsOf segments)) :
    ((∃ map, ofJson json = .ok map) ↔ ∀ pc < segments.length, 0 ≤ lineAt segments pc) ∧
      ∀ map, ofJson json = .ok map → ∀ pc, (map.line? pc).map Int.ofNat =
        if pc < segments.length then some (lineAt segments pc) else none := by
  have hread : ofJson json = ofMappings (mappingsOf segments) := by
    simp only [ofJson, hjson]
  have hsums (map : SourceMap) : ofJson json = .ok map ↔
      map.lines.map Int.ofNat = sumsFrom 0 segments := by
    rw [hread]
    exact ofMappings_eq_ok_iff hne h
  refine ⟨?_, fun map hmap pc => ?_⟩
  · calc (∃ map, ofJson json = .ok map)
        ↔ ∃ lines : List Nat, lines.map Int.ofNat = sumsFrom 0 segments :=
          ⟨fun ⟨map, hmap⟩ => ⟨map.lines, (hsums map).mp hmap⟩,
            fun ⟨lines, hlines⟩ => ⟨⟨lines⟩, (hsums ⟨lines⟩).mpr hlines⟩⟩
      _ ↔ ∀ sum ∈ sumsFrom 0 segments, 0 ≤ sum := exists_map_ofNat_iff
      _ ↔ ∀ pc < segments.length, 0 ≤ lineAt segments pc := by
        simp only [forall_mem_sumsFrom, Int.zero_add]
  · rw [line?, ← List.getElem?_map, (hsums map).mp hmap, getElem?_sumsFrom, Int.zero_add]

/-- Numbers of twelve digits, an empty segment, and a step that leads in front of the first line. -/
theorem ofJson_encoded_wide :
    let far : Int := 2 ^ 59 - 1
    let segments : List (List Int) := [[0, 0, far], [], [1, -far, -far, 7]]
    let json (segments : List (List Int)) : Json.Value :=
      .object [("version", .int 3), ("mappings", .string (mappingsOf segments))]
    (∀ numbers ∈ segments ++ [[0, 0, -1]], IsSegment numbers) ∧
      (∃ map, ofJson (json segments) = .ok map ∧
        [0, 1, 2, 3].map (fun pc => (map.line? pc).map Int.ofNat) =
          [some far, some far, some 0, none]) ∧
      ¬ ∃ map, ofJson (json (segments ++ [[0, 0, -1]])) = .ok map := by
  intro far segments json
  have hsegments : ∀ numbers ∈ segments ++ [[0, 0, -1]], IsSegment numbers := by
    have hnumbers : ∀ numbers ∈ segments ++ [[0, 0, -1]], (numbers = [] ∨ 3 ≤ numbers.length) ∧
        ∀ i ∈ numbers, i.natAbs < 2 ^ 59 := by
      decide
    exact fun numbers hmem => ⟨(hnumbers numbers hmem).1, (hnumbers numbers hmem).2⟩
  have hfirst : ∀ numbers ∈ segments, IsSegment numbers :=
    fun numbers hmem => hsegments numbers (List.mem_append_left _ hmem)
  have hjson (segments : List (List Int)) :
      ((json segments).member? "mappings").bind Json.Value.text? = some (mappingsOf segments) := rfl
  obtain ⟨hread, hlines⟩ := ofJson_encoded (by decide) hfirst (hjson segments)
  obtain ⟨hreadAll, -⟩ :=
    ofJson_encoded (by decide) hsegments (hjson (segments ++ [[0, 0, -1]]))
  obtain ⟨map, hmap⟩ := hread.mpr (by decide)
  refine ⟨hsegments, ⟨map, hmap, ?_⟩, fun hall => absurd (hreadAll.mp hall) (by decide)⟩
  simp only [List.map_cons, List.map_nil, hlines map hmap]
  decide

end AppLedger.Program.SourceMap
