import AppLedger.Abi.Error
import AppLedger.Text.Decimal
import AppLedger.Text.DecimalDigit

/-! The types of encoded values: their layout properties, their texts and the reader of
those texts. -/

namespace AppLedger.Abi

/-- The width of an unsigned integer: whole bytes, from one to sixty-four. -/
structure BitSize where
  bits : Nat
  valid : 8 ≤ bits ∧ bits ≤ 512 ∧ bits % 8 = 0
  deriving DecidableEq

namespace BitSize

def ofNat (bits : Nat) : Except Invalid BitSize :=
  if h : 8 ≤ bits ∧ bits ≤ 512 ∧ bits % 8 = 0 then .ok ⟨bits, h⟩ else .error (.bitSize bits)

def width (size : BitSize) : Nat :=
  size.bits / 8

end BitSize

inductive Ty
  | uint (size : BitSize)
  | address
  | tuple (items : List Ty)
  | string
  | byte
  | bool
  | static (item : Ty) (length : UInt64)
  | dynamic (item : Ty)

/-- How an item takes part in the head of a tuple: as one bit of a packed byte, as bytes of a
fixed number, or as a two-byte offset to bytes that follow the head. -/
inductive Shape
  | bit
  | fixed (size : Nat)
  | dynamic
  deriving DecidableEq

/-- The size of a head, of which `used` bits of its last byte are taken, and more items.
Absent when an item has no fixed size. -/
def Shape.fixedSize? : (used : Nat) → List Shape → Option Nat
  | _, [] => some 0
  | used, .bit :: shapes => do
    let size ← fixedSize? ((used + 1) % 8) shapes
    return (if used = 0 then 1 else 0) + size
  | _, .fixed n :: shapes => do
    let size ← fixedSize? 0 shapes
    return n + size
  | _, .dynamic :: _ => none

namespace Ty

def uint8 : Ty := .uint ⟨8, by decide⟩

def uint64 : Ty := .uint ⟨64, by decide⟩

mutual

def same : Ty → Ty → Bool
  | .uint a, .uint b => a = b
  | .address, .address | .string, .string | .byte, .byte | .bool, .bool => true
  | .tuple as, .tuple bs => sameItems as bs
  | .static a n, .static b m => n = m && same a b
  | .dynamic a, .dynamic b => same a b
  | _, _ => false

def sameItems : List Ty → List Ty → Bool
  | [], [] => true
  | a :: as, b :: bs => same a b && sameItems as bs
  | _, _ => false

end

mutual

theorem same_iff : ∀ (a b : Ty), same a b = true ↔ a = b
  | .uint a, b => by cases b <;> simp [same]
  | .address, b => by cases b <;> simp [same]
  | .string, b => by cases b <;> simp [same]
  | .byte, b => by cases b <;> simp [same]
  | .bool, b => by cases b <;> simp [same]
  | .tuple as, b => by cases b <;> simp [same, sameItems_iff as]
  | .static a n, b => by cases b <;> simp [same, same_iff a, and_comm]
  | .dynamic a, b => by cases b <;> simp [same, same_iff a]

theorem sameItems_iff : ∀ (as bs : List Ty), sameItems as bs = true ↔ as = bs
  | [], bs => by cases bs <;> simp [sameItems]
  | a :: as, bs => by cases bs <;> simp [sameItems, same_iff a, sameItems_iff as]

end

instance : DecidableEq Ty := fun a b => decidable_of_iff _ (same_iff a b)

mutual

def isDynamic : Ty → Bool
  | .static item _ => item.isDynamic
  | .tuple items => anyDynamic items
  | .dynamic _ | .string => true
  | .uint _ | .address | .byte | .bool => false

def anyDynamic : List Ty → Bool
  | [] => false
  | item :: items => item.isDynamic || anyDynamic items

end

/-- The shape of an item, from the size that all its encodings have. -/
def shapeOf : Ty → Option Nat → Shape
  | .bool, _ => .bit
  | _, some size => .fixed size
  | _, none => .dynamic

mutual

/-- The size of every encoding of a type. Absent for a type with encodings of several sizes. -/
def size? : Ty → Option Nat
  | .uint size => some size.width
  | .address => some 32
  | .byte | .bool => some 1
  | .string | .dynamic _ => none
  | .tuple items => Shape.fixedSize? 0 (shapes items)
  | .static item length =>
    match shapeOf item item.size? with
    | .bit => some ((length.toNat + 7) / 8)
    | .fixed size => some (size * length.toNat)
    | .dynamic => none

def shapes : List Ty → List Shape
  | [] => []
  | item :: items => shapeOf item item.size? :: shapes items

end

def shape (ty : Ty) : Shape :=
  shapeOf ty ty.size?

mutual

def chars : Ty → List Char
  | .uint size => ['u', 'i', 'n', 't'] ++ Text.Decimal.chars size.bits
  | .address => ['a', 'd', 'd', 'r', 'e', 's', 's']
  | .string => ['s', 't', 'r', 'i', 'n', 'g']
  | .byte => ['b', 'y', 't', 'e']
  | .bool => ['b', 'o', 'o', 'l']
  | .tuple items => '(' :: (listChars items ++ [')'])
  | .static item length => item.chars ++ '[' :: (Text.Decimal.chars length.toNat ++ [']'])
  | .dynamic item => item.chars ++ ['[', ']']

/-- The texts of several types, with commas between them. -/
def listChars : List Ty → List Char
  | [] => []
  | [item] => item.chars
  | item :: items => item.chars ++ ',' :: listChars items

end

def text (ty : Ty) : String :=
  String.ofList ty.chars

instance : ToString Ty := ⟨text⟩

/-- Splits at the commas outside parentheses, of which `depth` are open around `word`, the
text since the last such comma. Also yields the number of parentheses that stay open. -/
def splitItems (depth : Int) (word : List Char) : List Char → List (List Char) × Int
  | [] => (if word.isEmpty then [] else [word], depth)
  | c :: rest =>
    if c = ',' ∧ depth = 0 then
      let (words, depth) := splitItems depth [] rest
      (word :: words, depth)
    else
      let depth := if c = '(' then depth + 1 else if c = ')' then depth - 1 else depth
      splitItems depth (word ++ [c]) rest

/-- The items of a tuple, from the text between its parentheses. -/
def tupleItems (content : List Char) : Except Invalid (List (List Char)) :=
  if content.isEmpty then .ok []
  else if content.head? = some ',' ∨ content.getLast? = some ',' then .error .tupleEdgeComma
  else if (content.zip content.tail).contains (',', ',') then .error .tupleDoubleComma
  else
    let (words, depth) := splitItems 0 [] content
    if depth = 0 then .ok words else .error .tupleParens

def isElementChar (c : Char) : Bool :=
  ('a' ≤ c && c ≤ 'z') || Text.isDecimalDigit c || c == '[' || c == ']' || c == '(' || c == ')' ||
    c == ','

/-- Zero, or digits of which the first is an ASCII digit other than zero. -/
def isLengthText : List Char → Bool
  | ['0'] => true
  | c :: rest => '1' ≤ c && c ≤ '9' && rest.all Text.isDecimalDigit
  | [] => false

/-- The text of the element type and that of the length, from the text of a static array. -/
def staticParts? (s : List Char) : Option (List Char × List Char) :=
  let body := s.dropLast
  let length := (body.reverse.takeWhile (· ≠ '[')).reverse
  let element := (body.take (body.length - length.length)).dropLast
  if body.contains '[' && !element.isEmpty && element.all isElementChar && isLengthText length then
    some (element, length)
  else none

/-- Reads a type, whose parts are read by `inner`. -/
def readWith (inner : List Char → Except Invalid Ty) (s : List Char) : Except Invalid Ty := do
  if ['[', ']'].isSuffixOf s then
    return .dynamic (← inner (s.take (s.length - 2)))
  else if s.getLast? = some ']' then
    match staticParts? s with
    | none => throw (.staticArray (String.ofList s))
    | some (element, length) =>
      match Text.Decimal.readBelow? UInt64.size length with
      | none => throw (.arrayLength (String.ofList length))
      | some n => return .static (← inner element) (UInt64.ofNat n)
  else if ['u', 'i', 'n', 't'].isPrefixOf s then
    let size := s.drop 4
    if size.isEmpty || !size.all Char.isDigit then throw (.uintText (String.ofList size))
    else
      match Text.Decimal.readBelow? UInt16.size size with
      | none => throw (.uintSize (String.ofList size))
      | some n => return .uint (← BitSize.ofNat n)
  else if 2 ≤ s.length ∧ s.head? = some '(' ∧ s.getLast? = some ')' then
    return .tuple (← (← tupleItems s.tail.dropLast).mapM inner)
  else if s = byte.chars then return .byte
  else if s = bool.chars then return .bool
  else if s = address.chars then return .address
  else if s = string.chars then return .string
  else throw (.unknownType (String.ofList s))

/-- Reads a type with at most `depth` levels of nesting. -/
def readWithin : (depth : Nat) → List Char → Except Invalid Ty
  | 0, s => .error (.unknownType (String.ofList s))
  | depth + 1, s => readWith (readWithin depth) s

/-- A level of nesting takes at least one character. -/
def read (s : List Char) : Except Invalid Ty :=
  readWithin (s.length + 1) s

def ofText (s : String) : Except Invalid Ty :=
  read s.toList

end Ty

end AppLedger.Abi
