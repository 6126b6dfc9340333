import AppLedger.Json.Value
import AppLedger.Text.Split
import AppLedger.Text.Vlq

/-! The source line of each instruction of a program. In a source map each program counter has a
segment; the third number of the segment is the step from the line of the counter before. -/

namespace AppLedger.Program

open Text

/-- The line of each program counter, counted from zero. -/
structure SourceMap where
  lines : List Nat
  deriving DecidableEq

namespace SourceMap

inductive Invalid
  | noMappings
  | segment (text : String) (why : Vlq.Invalid)
  | noLine (text : String) (pc : Nat)
  | negativeLine (pc : Nat) (line : Int)
  deriving DecidableEq

def Invalid.message : Invalid → String
  | .noMappings => "missing mappings"
  | .segment text .digit => s!"segment {text} is not base64"
  | .segment text .overflow => s!"segment {text} overflows"
  | .segment text .unfinished => s!"segment {text} ends mid value"
  | .noLine text pc => s!"segment {text} for pc {pc} has no line field"
  | .negativeLine pc line => s!"pc {pc} maps to negative line {line}"

/-- The step to the line of a segment. An empty segment stays on the line. -/
def lineStep (pc : Nat) (segment : List Char) : Except Invalid Int :=
  if segment.isEmpty then .ok 0
  else
    match Vlq.decode segment with
    | .error why => .error (.segment (String.ofList segment) why)
    | .ok numbers =>
      match numbers[2]? with
      | some step => .ok step
      | none => .error (.noLine (String.ofList segment) pc)

/-- The lines of the program counters from `pc` on, after `line`. -/
def linesFrom (pc : Nat) (line : Int) : List (List Char) → Except Invalid (List Nat)
  | [] => .ok []
  | segment :: rest => do
    let line := line + (← lineStep pc segment)
    if line < 0 then throw (.negativeLine pc line)
    let more ← linesFrom (pc + 1) line rest
    return line.toNat :: more

def ofMappings (mappings : String) : Except Invalid SourceMap :=
  (linesFrom 0 0 (split ';' mappings.toList)).map SourceMap.mk

def ofJson (map : Json.Value) : Except Invalid SourceMap :=
  match (map.member? "mappings").bind Json.Value.text? with
  | some mappings => ofMappings mappings
  | none => .error .noMappings

def line? (map : SourceMap) (pc : Nat) : Option Nat :=
  map.lines[pc]?

end SourceMap

end AppLedger.Program
