import AppLedger.Node.Basic
import AppLedger.Program.Pragma
import AppLedger.Program.SourceMap

/-! Compilers of program sources. -/

namespace AppLedger

inductive CompilerError
  /-- The diagnostic is in the words of the compiler. -/
  | rejected (diagnostic : String)
  | pragma (conflict : Program.PragmaConflict)
  | unavailable (reason : String)
  | badAnswer (why : BadAnswer)
  | sourceMap (why : Program.SourceMap.Invalid)
  deriving DecidableEq

def CompilerError.message : CompilerError → String
  | .rejected diagnostic => diagnostic
  | .pragma conflict => conflict.message
  | .unavailable reason => s!"Compiler unavailable: {reason}"
  | .badAnswer why => s!"Compiler unavailable: {why.message}"
  | .sourceMap why => s!"Invalid source map: {why.message}"

/-- The hash is the address of the program as a signature. -/
structure CompiledProgram where
  bytecode : Bytes
  hash : String
  sourceMap : Option Json.Value

/-- The line of each program counter. Absent without a source map. -/
def CompiledProgram.lines? (p : CompiledProgram) :
    Option (Except CompilerError Program.SourceMap) :=
  p.sourceMap.map fun map => (Program.SourceMap.ofJson map).mapError .sourceMap

structure Compiler (σ : Type) where
  compile : (source : String) → (version : UInt8) → Effect CompilerError σ CompiledProgram

/-- The compiler as a part of a larger world. -/
def Compiler.lift {σ τ : Type} (compiler : Compiler σ)
    (f : ∀ {α : Type}, Effect CompilerError σ α → Effect CompilerError τ α) : Compiler τ where
  compile source version := f (compiler.compile source version)

end AppLedger
