import AppLedger.Text.Blank
import AppLedger.Text.Decimal
import AppLedger.Text.DecimalDigit
import AppLedger.Text.Split

/-! The line of a program's source that declares the version it is written for. -/

namespace AppLedger.Program

open Text

def isComment (line : List Char) : Bool :=
  ['/', '/'].isPrefixOf line

/-- The first line that holds more than blanks and a comment. -/
def firstLine? (source : String) : Option (List Char) :=
  (lines source.toList).find? fun line => !(trim line).isEmpty && !isComment (trim line)

/-- The rest of the line after a keyword. -/
def afterWord? (word : String) (line : List Char) : Option (List Char) :=
  if word.toList.isPrefixOf line then some (line.drop word.length) else none

/-- The rest of the line after at least one blank. -/
def afterBlanks? (line : List Char) : Option (List Char) :=
  if (line.head?.map isBlank).getD false then some (line.dropWhile isBlank) else none

/-- The digits of a line that declares a version. They may be of any script. -/
def versionDigits? (line : List Char) : Option (List Char) := do
  let rest ← afterWord? "#pragma" (line.dropWhile isBlank)
  let rest ← afterWord? "version" (← afterBlanks? rest)
  let rest ← afterBlanks? rest
  let digits := rest.takeWhile isDecimalDigit
  if digits.isEmpty || !(rest.drop digits.length).all isBlank then none else some digits

/-- A version that is no number of eight bits in ASCII digits counts as not declared. -/
def declaredVersion (source : String) : Option UInt8 := do
  let digits ← versionDigits? (← firstLine? source)
  let n ← Decimal.readBelow? 256 digits
  return UInt8.ofNat n

def pragma (version : UInt8) : String :=
  s!"#pragma version {version.toNat}\n"

/-- The source declares another version than the one that is asked for. -/
structure PragmaConflict where
  declared : UInt8
  requested : UInt8
  deriving DecidableEq

def PragmaConflict.message (c : PragmaConflict) : String :=
  s!"Source declares #pragma version {c.declared.toNat} but version " ++
    s!"{c.requested.toNat} was requested"

/-- The source, with a declaration in front if it has none. -/
def withPragma (source : String) (version : UInt8) : Except PragmaConflict String :=
  match declaredVersion source with
  | some declared =>
    if declared = version then .ok source else .error ⟨declared, version⟩
  | none => .ok (pragma version ++ source)

end AppLedger.Program
