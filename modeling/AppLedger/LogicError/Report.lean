import AppLedger.Text.Decimal
import AppLedger.Text.WordChar

/-! The report of a failed program in the text of a rejection: which transaction failed, what the
program said, at which program counter, and in which application. -/

namespace AppLedger.LogicError

structure Report where
  transaction : String
  message : String
  pc : Nat
  app : Option Nat
  deriving DecidableEq

namespace Report

open Text

/-- The text after something that it begins with. -/
def after? (word : String) (s : List Char) : Option (List Char) :=
  if word.toList.isPrefixOf s then some (s.drop word.length) else none

/-- Splits at the last place where the text goes on with `word` and with something that `read`
accepts. -/
def splitLast? {α : Type} (word : String) (read : List Char → Option α) :
    List Char → Option (List Char × α)
  | [] => none
  | c :: rest =>
    match splitLast? word read rest with
    | some (before, a) => some (c :: before, a)
    | none => ((after? word (c :: rest)).bind read).map ([], ·)

/-- The digits at the beginning of a text, if there is one. -/
def digits? (s : List Char) : Option (List Char) :=
  let digits := s.takeWhile Char.isDigit
  if digits.isEmpty then none else some digits

def isIdChar (c : Char) : Bool :=
  ('A' ≤ c && c ≤ 'Z') || ('2' ≤ c && c ≤ '7')

def idLength : Nat := 52

def id? (s : List Char) : Option (List Char × List Char) :=
  let id := s.take idLength
  if id.length = idLength ∧ id.all isIdChar then some (id, s.drop idLength) else none

/-- The last program counter that the details name. -/
def pcDigits? (details : List Char) : Option (List Char) :=
  (splitLast? "pc=" digits? details).map Prod.snd

/-- The transaction, the message and the digits of the program counter, from a text that begins
with a report. A report ends with its line. -/
def parts? (s : List Char) : Option (List Char × List Char × List Char) := do
  let (id, rest) ← id? (← after? "transaction " s)
  let rest ← after? ": logic eval error: " rest
  let (message, pc) ← splitLast? ". Details: " pcDigits? (rest.takeWhile (· ≠ '\n'))
  return (id, message, pc)

/-- What `read` makes of the first end of the text that it accepts. -/
def first? {α : Type} (read : List Char → Option α) : List Char → Option α
  | [] => read []
  | c :: rest => (read (c :: rest)).or (first? read rest)

/-- The digits of the first application that is named. The name is a word of its own; `word` says
whether the character before the text belongs to a word. -/
def appDigits? (word : Bool) : List Char → Option (List Char)
  | [] => none
  | c :: rest =>
    (if word then none else (after? "app=" (c :: rest)).bind digits?).or
      (appDigits? (isWordChar c) rest)

def ofText? (text : String) : Option Report := do
  let (transaction, message, pc) ← first? parts? text.toList
  let pc ← Decimal.readBelow? UInt64.size pc
  let app := (appDigits? false text.toList).bind (Decimal.readBelow? UInt64.size)
  return { transaction := String.ofList transaction, message := String.ofList message, pc, app }

end Report

end AppLedger.LogicError
