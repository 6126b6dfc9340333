import AppLedger.Hash.Sha512
import AppLedger.LogicSig
import AppLedger.Program.Compiler

/-! Bytecode that stands for a source and is not run. It holds the version and the hash of the
source; its program counters are the lines of the source, the last line taking those that are
left. -/

namespace AppLedger.Program.Stub

open Text

/-- The source as it is hashed. A source that declares another version is left as it is. -/
def fullSource (source : String) (version : UInt8) : String :=
  match withPragma source version with
  | .ok source => source
  | .error _ => source

def bytecode (source : String) (version : UInt8) : Bytes :=
  let source := fullSource source version
  (declaredVersion source).getD version :: Hash.sha512_256 (Bytes.ofText source)

/-- The segment of a program counter: empty where the line is that of the counter before. -/
def segment (lastLine pc : Nat) : List Char :=
  if pc = 0 then Vlq.encode [0, 0, 0, 0]
  else if pc ≤ lastLine then Vlq.encode [0, 0, 1, 0]
  else []

def mappings (source : String) (length : Nat) : String :=
  let lastLine := (lines source.toList).length - 1
  String.ofList (join ';' ((List.range length).map (segment lastLine)))

def isErr (line : List Char) : Bool :=
  trim line = ['e', 'r', 'r']

/-- The program counter at which a program of the given length fails: that of the first line that
is `err`, or else of the last line. -/
def failingPc (source : String) (length : Nat) : Nat :=
  let all := lines source.toList
  min ((all.findIdx? isErr).getD (all.length - 1)) (length - 1)

/-- The program of a source. -/
def compile (source : String) (version : UInt8) : CompiledProgram :=
  let code := bytecode source version
  { bytecode := code
    hash := (LogicSig.address { logic := code }).text
    sourceMap := some (.object [("version", .int 3), ("sources", .array []), ("names", .array []),
      ("mappings", .string (mappings (fullSource source version) code.length))]) }

end AppLedger.Program.Stub
