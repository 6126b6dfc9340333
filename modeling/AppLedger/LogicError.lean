import AppLedger.Text.Decimal
import AppLedger.Text.Split

/-! The failure of an approval program, with the lines of the source around the line that
failed. -/

namespace AppLedger

/-- The line is counted from one. The reason is the text of the node. -/
structure LogicError where
  reason : String
  transaction : Option String := none
  pc : Option Nat := none
  line : Option Nat := none
  listing : List String := []
  deriving DecidableEq

namespace LogicError

open Text

/-- The number of a line, at the right end of four places. -/
def lineNumber (n : Nat) : List Char :=
  List.replicate (4 - (Decimal.chars n).length) ' ' ++ Decimal.chars n

def entry (n : Nat) (line : List Char) : String :=
  String.ofList (lineNumber n ++ [' ', '|', ' '] ++ line)

/-- What the entries of a line begin with. -/
def marker (n : Nat) : List Char :=
  lineNumber n ++ [' ', '|']

def entriesFrom (n : Nat) : List (List Char) → List String
  | [] => []
  | line :: rest => entry n line :: entriesFrom (n + 1) rest

/-- The lines up to `context` lines before and after a line, with their numbers. -/
def listingAround (source : String) (line context : Nat) : List String :=
  let center := line - 1
  let start := center - context
  entriesFrom (start + 1) (((lines source.toList).drop start).take (center - start + context + 1))

def traceEntry (line : Nat) (entry : String) : String :=
  (if (marker line).isPrefixOf entry.toList then entry ++ "\t<--- Error" else entry) ++ "\n"

/-- The listing with the failing line marked. -/
def trace? (e : LogicError) : Option String :=
  match e.line with
  | some line =>
    if e.listing.isEmpty then none else some (String.join (e.listing.map (traceEntry line)))
  | none => none

def transactionText (e : LogicError) : String :=
  e.transaction.getD "N/A"

def pcText (e : LogicError) : String :=
  e.pc.elim "N/A" toString

def lineText (e : LogicError) : String :=
  e.line.elim "" fun line => s!" and Source Line {line}"

def message (e : LogicError) : String :=
  s!"Txn {e.transactionText} had error '{e.reason}' at PC {e.pcText}" ++ e.lineText ++
    e.trace?.elim "" ("\n" ++ ·)

end LogicError

end AppLedger
