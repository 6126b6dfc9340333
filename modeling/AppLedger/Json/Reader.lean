import AppLedger.Bytes
import AppLedger.Json.Tree
import AppLedger.Text.Decimal

/-! Reading JSON texts. Nothing but blanks may follow the value. -/

namespace AppLedger.Json.Reader

open Text

def isBlank (c : Char) : Bool :=
  c = ' ' || c = '\n' || c = '\t' || c = '\r'

def skipBlanks (s : List Char) : List Char :=
  s.dropWhile isBlank

def hex4? (a b c d : Char) : Option Nat := do
  let a ← Bytes.hexValue? a
  let b ← Bytes.hexValue? b
  let c ← Bytes.hexValue? c
  let d ← Bytes.hexValue? d
  return ((a * 16 + b) * 16 + c) * 16 + d

def isHighSurrogate (n : Nat) : Bool := 0xD800 ≤ n && n < 0xDC00

def isLowSurrogate (n : Nat) : Bool := 0xDC00 ≤ n && n < 0xE000

def simpleEscape? : Char → Option Char
  | '"' => some '"'
  | '\\' => some '\\'
  | '/' => some '/'
  | 'b' => some '\x08'
  | 'f' => some '\x0c'
  | 'n' => some '\n'
  | 'r' => some '\r'
  | 't' => some '\t'
  | _ => none

/-- What was read of a text: its characters in reverse order, a high surrogate that waits for a
low one, and whether all surrogates were paired so far. -/
structure TextSoFar where
  chars : List Char := []
  high : Option Nat := none
  paired : Bool := true

namespace TextSoFar

def add (t : TextSoFar) (c : Char) : TextSoFar :=
  { chars := c :: t.chars, paired := t.paired && t.high.isNone }

def addUnit (t : TextSoFar) (n : Nat) : TextSoFar :=
  match t.high with
  | some high =>
    if isLowSurrogate n then
      { t with chars := Char.ofNat (0x10000 + (high - 0xD800) * 0x400 + (n - 0xDC00)) :: t.chars
               high := none }
    else { t with paired := false }
  | none =>
    if isHighSurrogate n then { t with high := some n }
    else if isLowSurrogate n then { t with paired := false }
    else t.add (Char.ofNat n)

def text? (t : TextSoFar) : Option String :=
  if t.paired && t.high.isNone then some (String.ofList t.chars.reverse) else none

end TextSoFar

/-- The rest of a text after its opening quote. -/
def readText? (t : TextSoFar) : List Char → Option (Option String × List Char)
  | [] => none
  | '"' :: rest => some (t.text?, rest)
  | '\\' :: 'u' :: a :: b :: c :: d :: rest =>
    match hex4? a b c d with
    | some n => readText? (t.addUnit n) rest
    | none => none
  | '\\' :: e :: rest =>
    match simpleEscape? e with
    | some c => readText? (t.add c) rest
    | none => none
  | c :: rest => if c.toNat < 0x20 ∨ c = '\\' then none else readText? (t.add c) rest

/-- The whole part of a number: zero, or digits of which the first is not zero. -/
def readWhole? (s : List Char) : Option (List Char × List Char) :=
  match s with
  | '0' :: rest => some (['0'], rest)
  | _ =>
    let digits := s.takeWhile Char.isDigit
    if digits.isEmpty then none else some (digits, s.drop digits.length)

/-- The part of a number that begins with a point. -/
def readFraction? (s : List Char) : Option (List Char × List Char) :=
  match s with
  | '.' :: rest =>
    let digits := rest.takeWhile Char.isDigit
    if digits.isEmpty then none else some ('.' :: digits, rest.drop digits.length)
  | _ => some ([], s)

def readExponent? (s : List Char) : Option (List Char × List Char) :=
  match s with
  | e :: rest =>
    if e = 'e' ∨ e = 'E' then
      let sign := if rest.head? = some '+' ∨ rest.head? = some '-' then rest.take 1 else []
      let digits := (rest.drop sign.length).takeWhile Char.isDigit
      if digits.isEmpty then none
      else some (e :: sign ++ digits, rest.drop (sign.length + digits.length))
    else some ([], s)
  | [] => some ([], s)

def exponentValue (exponent : List Char) : Int :=
  let n := Decimal.valueFrom 0 (exponent.filter Char.isDigit)
  if exponent.contains '-' then -n else n

/-- The number that the first digits make after `n` as long as it has 64 bits, and the digits
that are left. -/
def takeDigits (n : Nat) : List Char → Nat × List Char
  | [] => (n, [])
  | c :: rest =>
    let longer := Decimal.valueFrom n [c]
    if longer < UInt64.size then takeDigits longer rest else (n, c :: rest)

/-- The magnitude of a number as a double. Digits that do not fit into the significand stand for
zeros. -/
def magnitude? (whole fraction exponent : List Char) : Option Nat :=
  let (n, left) := takeDigits 0 whole
  let (significand, unused) := takeDigits n (fraction.drop 1)
  let places : Int := left.length + unused.length - (fraction.drop 1).length
  Double.ofDecimal? significand (places + exponentValue exponent)

/-- Integers of 64 bits, with a sign or without one, are integers; zero with a sign is not. -/
def numberTree (negative : Bool) (whole fraction exponent : List Char) : Tree :=
  let n := Decimal.valueFrom 0 whole
  let isInt := fraction.isEmpty && exponent.isEmpty &&
    (if negative then 0 < n && n ≤ Int64.size / 2 else n < UInt64.size)
  if isInt then .int (if negative then -n else n)
  else .number ((magnitude? whole fraction exponent).map (⟨negative, ·⟩))

def readNumber? (s : List Char) : Option (Tree × List Char) := do
  let negative := s.head? = some '-'
  let (whole, rest) ← readWhole? (if negative then s.tail else s)
  let (fraction, rest) ← readFraction? rest
  let (exponent, rest) ← readExponent? rest
  return (numberTree negative whole fraction exponent, rest)

def readWord? (word : String) (tree : Tree) (s : List Char) : Option (Tree × List Char) :=
  if word.toList.isPrefixOf s then some (tree, s.drop word.length) else none

mutual

/-- Reads a value in at most `fuel` steps. -/
def readTree? : (fuel : Nat) → List Char → Option (Tree × List Char)
  | 0, _ => none
  | fuel + 1, s =>
    match skipBlanks s with
    | '{' :: rest =>
      match skipBlanks rest with
      | '}' :: rest => some (.object [], rest)
      | rest => (readMembers? fuel rest).map fun (members, rest) => (.object members, rest)
    | '[' :: rest =>
      match skipBlanks rest with
      | ']' :: rest => some (.array [], rest)
      | rest => (readItems? fuel rest).map fun (items, rest) => (.array items, rest)
    | '"' :: rest => (readText? {} rest).map fun (text, rest) => (.string text, rest)
    | 'n' :: rest => readWord? "null" .null ('n' :: rest)
    | 't' :: rest => readWord? "true" (.bool true) ('t' :: rest)
    | 'f' :: rest => readWord? "false" (.bool false) ('f' :: rest)
    | rest => readNumber? rest

def readItems? : (fuel : Nat) → List Char → Option (List Tree × List Char)
  | 0, _ => none
  | fuel + 1, s => do
    let (item, rest) ← readTree? fuel s
    match skipBlanks rest with
    | ',' :: rest =>
      let (items, rest) ← readItems? fuel rest
      return (item :: items, rest)
    | ']' :: rest => return ([item], rest)
    | _ => none

def readMembers? : (fuel : Nat) → List Char → Option (List (Option String × Tree) × List Char)
  | 0, _ => none
  | fuel + 1, s => do
    match skipBlanks s with
    | '"' :: rest =>
      let (name, rest) ← readText? {} rest
      match skipBlanks rest with
      | ':' :: rest =>
        let (tree, rest) ← readTree? fuel rest
        match skipBlanks rest with
        | ',' :: rest =>
          let (members, rest) ← readMembers? fuel rest
          return ((name, tree) :: members, rest)
        | '}' :: rest => return ([(name, tree)], rest)
        | _ => none
      | _ => none
    | _ => none

end

end Reader

/-- Each step of reading takes a character or ends it. -/
def read? (text : String) : Option Tree := do
  let s := text.toList
  let (tree, rest) ← Reader.readTree? (2 * s.length + 2) s
  if (Reader.skipBlanks rest).isEmpty then return tree else none

end AppLedger.Json
