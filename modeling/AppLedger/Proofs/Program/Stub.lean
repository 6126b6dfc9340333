import AppLedger.Program.Stub
import AppLedger.Proofs.Program.Pragma
import AppLedger.Proofs.Program.SourceMap

/-! Which line of its source a stub fails at, and which line its source map gives for a program
counter, that at which it fails among them. The code is of one length, so the map ends at its last
byte. -/

namespace AppLedger.Program

open Text

namespace Stub

variable {source full : String} {version : UInt8}

theorem fullSource_of_withPragma (h : withPragma source version = .ok full) :
    fullSource source version = full := by
  rw [fullSource, h]

/-- A source that declares its version is compiled as it is. -/
theorem fullSource_of_declared (h : declaredVersion full = some version) :
    fullSource full version = full :=
  fullSource_of_withPragma (withPragma_of_declared h)

theorem bytecode_of_withPragma (h : withPragma source version = .ok full) :
    bytecode source version = version :: Hash.sha512_256 (Bytes.ofText full) := by
  simp only [bytecode, fullSource_of_withPragma h, declared_of_withPragma h, Option.getD_some]

/-- The code is that of the source with its declaration. -/
theorem bytecode_full (h : withPragma source version = .ok full) :
    bytecode full version = bytecode source version := by
  have hdeclared := declared_of_withPragma h
  rw [bytecode_of_withPragma h]
  simp only [bytecode, fullSource_of_declared hdeclared, hdeclared, Option.getD_some]

theorem length_bytecode (source : String) (version : UInt8) :
    (bytecode source version).length = 33 := by
  simp [bytecode]

/-! ## Lines -/

/-- The number of the line, counted from one, at which a program with the source fails: that of the
first line that is `err`, or else of the last line. -/
def failingLine (source : String) : Nat :=
  ((lines source.toList).findIdx? isErr).elim (lines source.toList).length (· + 1)

/-- The last line, counted from zero. -/
def lastLine (source : String) : Nat :=
  (lines source.toList).length - 1

theorem lines_ne_nil_of_declared (h : declaredVersion full = some version) :
    lines full.toList ≠ [] := by
  intro hnil
  have hfirst : firstLine? full = none := by rw [firstLine?, hnil]; rfl
  rw [declaredVersion, hfirst] at h
  cases h

theorem failingLine_le (source : String) (hne : lines source.toList ≠ []) :
    failingLine source ≤ lastLine source + 1 := by
  have hpos : 0 < (lines source.toList).length := List.length_pos_iff.mpr hne
  rw [failingLine, lastLine]
  cases hfirst : (lines source.toList).findIdx? isErr with
  | none =>
    rw [Option.elim_none]
    omega
  | some i =>
    have hi := (List.findIdx?_eq_some_iff_getElem.mp hfirst).1
    rw [Option.elim_some]
    omega

/-- The program counter stays in the code, however far down the source the failing line is. -/
theorem failingPc_eq (hne : lines source.toList ≠ []) (length : Nat) (hlength : length ≠ 0) :
    failingPc source length + 1 = min (failingLine source) length := by
  have hpos : 0 < (lines source.toList).length := List.length_pos_iff.mpr hne
  simp only [failingPc, failingLine]
  cases (lines source.toList).findIdx? isErr with
  | none =>
    rw [Option.elim_none, Option.getD_none]
    omega
  | some i =>
    rw [Option.elim_some, Option.getD_some]
    omega

/-! ## Source maps -/

/-- The numbers of the segment of a program counter. -/
def numbersAt (last pc : Nat) : List Int :=
  if pc = 0 then [0, 0, 0, 0] else if pc ≤ last then [0, 0, 1, 0] else []

theorem segment_eq (last : Nat) : segment last = Vlq.encode ∘ numbersAt last := by
  funext pc
  unfold segment
  rw [Function.comp_apply, numbersAt]
  split
  · rfl
  · split <;> rfl

/-- A line has the step from the line before; the counters beyond the last line have none. -/
example : mappings "int 1\nint 2\nerr" 5 = "AAAA;AACA;AACA;;" := by decide +kernel

theorem isSegment_numbersAt (last pc : Nat) : SourceMap.IsSegment (numbersAt last pc) := by
  unfold numbersAt
  split
  · exact ⟨by decide, by decide⟩
  · split
    · exact ⟨by decide, by decide⟩
    · exact ⟨by decide, by decide⟩

theorem stepOf_numbersAt (last pc : Nat) :
    SourceMap.stepOf (numbersAt last pc) = if pc = 0 then 0 else if pc ≤ last then 1 else 0 := by
  unfold numbersAt
  split
  · rfl
  · split <;> rfl

/-- Each counter has the line of its number, as long as there is one. -/
theorem sumsFrom_numbersAt (last pc count : Nat) :
    SourceMap.sumsFrom (min (pc - 1) last : Nat) ((List.range' pc count).map (numbersAt last)) =
      (List.range' pc count).map fun pc => ((min pc last : Nat) : Int) := by
  induction count generalizing pc with
  | zero => rfl
  | succ count ih =>
    have hline : ((min (pc - 1) last : Nat) : Int) + SourceMap.stepOf (numbersAt last pc) =
        (min pc last : Nat) := by
      rw [stepOf_numbersAt]
      split
      · omega
      · split <;> omega
    have hrest := ih (pc + 1)
    rw [Nat.add_sub_cancel] at hrest
    rw [List.range'_succ, List.map_cons, List.map_cons, SourceMap.sumsFrom, hline, hrest]

theorem ofMappings_mappings (source : String) (length : Nat) (hlength : length ≠ 0) :
    SourceMap.ofMappings (mappings source length) =
      .ok ⟨(List.range length).map (min · (lastLine source))⟩ := by
  have hmappings : mappings source length =
      SourceMap.mappingsOf ((List.range length).map (numbersAt (lastLine source))) := by
    rw [mappings, SourceMap.mappingsOf, List.map_map, ← segment_eq]
    rfl
  have hne : (List.range length).map (numbersAt (lastLine source)) ≠ [] := by simp [hlength]
  have hsegments : ∀ numbers ∈ (List.range length).map (numbersAt (lastLine source)),
      SourceMap.IsSegment numbers := by
    intro numbers hmem
    obtain ⟨pc, -, rfl⟩ := List.mem_map.mp hmem
    exact isSegment_numbersAt _ _
  have hsums := sumsFrom_numbersAt (lastLine source) 0 length
  rw [← List.range_eq_range'] at hsums
  rw [hmappings, SourceMap.ofMappings_eq_ok_iff hne hsegments, List.map_map]
  exact hsums.symm

/-- A map of stub mappings is read whatever the lengths of source and code are. It has a line for
each program counter of the code and no other: the line of its number, or else the last line. -/
theorem ofJson_mappings (source : String) {length : Nat} (hlength : 1 ≤ length)
    {json : Json.Value}
    (hjson : (json.member? "mappings").bind Json.Value.text? = some (mappings source length)) :
    ∃ map, SourceMap.ofJson json = .ok map ∧ map.lines.length = length ∧
      ∀ pc, map.line? pc =
        if pc < length then some (min pc ((lines source.toList).length - 1)) else none := by
  have hread := ofMappings_mappings source length (Nat.ne_of_gt hlength)
  refine ⟨⟨(List.range length).map (min · (lastLine source))⟩, ?_, ?_, fun pc => ?_⟩
  · rw [SourceMap.ofJson_eq_ofMappings hjson, hread]
  · rw [List.length_map, List.length_range]
  · rw [SourceMap.line?, List.getElem?_map]
    split
    · next hpc =>
      rw [List.getElem?_range hpc]
      rfl
    · next hpc =>
      rw [List.getElem?_eq_none (by rw [List.length_range]; omega)]
      rfl

/-- Code that is longer than the source, shorter, and for a source of one line. -/
theorem ofJson_mappings_lengths :
    let json (source : String) (length : Nat) : Json.Value :=
      .object [("version", .int 3), ("mappings", .string (mappings source length))]
    let read (source : String) (length : Nat) (lines : List (Option Nat)) : Prop :=
      ∃ map, SourceMap.ofJson (json source length) = .ok map ∧
        (List.range (length + 1)).map map.line? = lines
    1 ≤ 5 ∧ read "int 1\nint 2\nerr" 5 [some 0, some 1, some 2, some 2, some 2, none] ∧
      1 ≤ 2 ∧ read "int 1\nint 2\nerr" 2 [some 0, some 1, none] ∧
      1 ≤ 1 ∧ read "err" 1 [some 0, none] := by
  intro json read
  have hread (source : String) {length : Nat} (hlength : 1 ≤ length) :
      read source length ((List.range (length + 1)).map fun pc =>
        if pc < length then some (min pc ((lines source.toList).length - 1)) else none) := by
    have hjson : ((json source length).member? "mappings").bind Json.Value.text? =
        some (mappings source length) := rfl
    obtain ⟨map, hmap, -, hlines⟩ := ofJson_mappings source hlength hjson
    exact ⟨map, hmap, List.map_congr_left fun pc _ => hlines pc⟩
  exact ⟨by decide, hread _ (by decide), by decide, hread _ (by decide), by decide,
    hread _ (by decide)⟩

/-- The map of a stub gives the line at which it fails, or the line of the last byte of the code
where that comes before. -/
theorem line?_failingPc (h : withPragma source version = .ok full) :
    ∃ map, (compile full version).lines? = some (.ok map) ∧
      (map.line? (failingPc full 33)).map (· + 1) = some (min (failingLine full) 33) := by
  have hdeclared := declared_of_withPragma h
  have hne := lines_ne_nil_of_declared hdeclared
  have hpc := failingPc_eq hne 33 (by decide)
  have hlast := failingLine_le full hne
  refine ⟨⟨(List.range 33).map (min · (lastLine full))⟩, ?_, ?_⟩
  · have hmap := ofMappings_mappings full 33 (by decide)
    have hjson (text : String) : SourceMap.ofJson (.object [("version", .int 3),
        ("sources", .array []), ("names", .array []), ("mappings", .string text)]) =
        SourceMap.ofMappings text := rfl
    simp only [compile, CompiledProgram.lines?, Option.map_some, length_bytecode,
      fullSource_of_declared hdeclared, hjson, hmap]
    rfl
  · have hlt : failingPc full 33 < 33 := by omega
    have hmin : min (failingPc full 33) (lastLine full) = failingPc full 33 := by omega
    rw [SourceMap.line?, List.getElem?_map, List.getElem?_range hlt, Option.map_some,
      Option.map_some, hmin, hpc]

end Stub

end AppLedger.Program
