import AppLedger.Abi.Codec
import AppLedger.Text.Blank

/-! Methods: their signatures and selectors, the packing of their arguments, and the values
that they return through a log. -/

namespace AppLedger.Abi

/-- A kind of transaction that a method takes as an argument. -/
inductive TransactionKind
  | any
  | payment
  | keyRegistration
  | assetConfig
  | assetTransfer
  | assetFreeze
  | applicationCall
  deriving DecidableEq

namespace TransactionKind

def chars : TransactionKind → List Char
  | .any => ['t', 'x', 'n']
  | .payment => ['p', 'a', 'y']
  | .keyRegistration => ['k', 'e', 'y', 'r', 'e', 'g']
  | .assetConfig => ['a', 'c', 'f', 'g']
  | .assetTransfer => ['a', 'x', 'f', 'e', 'r']
  | .assetFreeze => ['a', 'f', 'r', 'z']
  | .applicationCall => ['a', 'p', 'p', 'l']

def all : List TransactionKind :=
  [.any, .payment, .keyRegistration, .assetConfig, .assetTransfer, .assetFreeze, .applicationCall]

def read? (s : List Char) : Option TransactionKind :=
  all.find? (·.chars = s)

def ofText (s : String) : Except Invalid TransactionKind :=
  (read? s.toList).elim (.error (.transactionKind s)) .ok

instance : ToString TransactionKind := ⟨fun kind => String.ofList kind.chars⟩

end TransactionKind

/-- A resource that a method takes as an index into an array of the call. -/
inductive ReferenceKind
  | account
  | application
  | asset
  deriving DecidableEq

namespace ReferenceKind

def chars : ReferenceKind → List Char
  | .account => ['a', 'c', 'c', 'o', 'u', 'n', 't']
  | .application => ['a', 'p', 'p', 'l', 'i', 'c', 'a', 't', 'i', 'o', 'n']
  | .asset => ['a', 's', 's', 'e', 't']

def all : List ReferenceKind :=
  [.account, .application, .asset]

def read? (s : List Char) : Option ReferenceKind :=
  all.find? (·.chars = s)

def ofText (s : String) : Except Invalid ReferenceKind :=
  (read? s.toList).elim (.error (.referenceKind s)) .ok

instance : ToString ReferenceKind := ⟨fun kind => String.ofList kind.chars⟩

end ReferenceKind

/-- What a method takes at one position. A transaction goes into the group, before the call. -/
inductive ArgType
  | value (ty : Ty)
  | transaction (kind : TransactionKind)
  | reference (kind : ReferenceKind)

namespace ArgType

def isValue : ArgType → Bool
  | .value _ => true
  | _ => false

def isTransaction : ArgType → Bool
  | .transaction _ => true
  | _ => false

def isReference : ArgType → Bool
  | .reference _ => true
  | _ => false

def chars : ArgType → List Char
  | .value ty => ty.chars
  | .transaction kind => kind.chars
  | .reference kind => kind.chars

def read (s : List Char) : Except Invalid ArgType :=
  match TransactionKind.read? s, ReferenceKind.read? s with
  | some kind, _ => .ok (.transaction kind)
  | none, some kind => .ok (.reference kind)
  | none, none => (Ty.read s).map .value

def ofText (s : String) : Except Invalid ArgType :=
  read s.toList

instance : ToString ArgType := ⟨fun type => String.ofList type.chars⟩

end ArgType

structure Arg where
  type : ArgType
  name : Option String := none
  description : Option String := none

/-- A method without a return type returns nothing. -/
structure Method where
  name : String
  args : List Arg := []
  returns : Option Ty := none
  description : Option String := none

namespace Method

def countArgs (m : Method) (p : ArgType → Bool) : Nat :=
  m.args.countP (p ·.type)

def voidChars : List Char := ['v', 'o', 'i', 'd']

/-- The texts with commas between them. -/
def joinCommas : List (List Char) → List Char
  | [] => []
  | [word] => word
  | word :: words => word ++ ',' :: joinCommas words

def signatureChars (m : Method) : List Char :=
  m.name.toList ++ '(' :: (joinCommas (m.args.map (·.type.chars)) ++
    ')' :: m.returns.elim voidChars Ty.chars)

def signature (m : Method) : Except Invalid String :=
  if m.name.isEmpty then .error .emptyMethodName
  else if m.signatureChars.any Text.isBlank then .error .generatedBlank
  else .ok (String.ofList m.signatureChars)

/-- The first four bytes of the hash of the signature. -/
def selector (m : Method) : Except Invalid Bytes := do
  let signature ← m.signature
  return (Hash.sha512_256 (Bytes.ofText signature)).take 4

/-- The text up to the parenthesis that closes the last of the `depth` open ones, and the text
after it. -/
def splitClosing (depth : Nat) : List Char → Option (List Char × List Char)
  | [] => none
  | ')' :: rest =>
    if depth ≤ 1 then some ([], rest)
    else (splitClosing (depth - 1) rest).map fun (inner, after) => (')' :: inner, after)
  | c :: rest =>
    let depth := if c = '(' then depth + 1 else depth
    (splitClosing depth rest).map fun (inner, after) => (c :: inner, after)

def argsFrom (index : Nat) : List ArgType → List Arg
  | [] => []
  | type :: types => { type, name := some s!"arg{index}" } :: argsFrom (index + 1) types

def readReturns (s : List Char) : Except Invalid (Option Ty) :=
  if s.isEmpty ∨ s = voidChars then .ok none else (Ty.read s).map some

def read (s : List Char) : Except Invalid Method := do
  if s.any Text.isBlank then throw .signatureBlank
  let name := s.takeWhile (· ≠ '(')
  if name.length = s.length then throw .signatureNotOpened
  if name.isEmpty then throw .emptyMethodName
  match splitClosing 1 (s.drop (name.length + 1)) with
  | none => throw .signatureNotClosed
  | some (inner, after) =>
    let types ← (← Ty.tupleItems inner).mapM ArgType.read
    let returns ← readReturns after
    return { name := String.ofList name, args := argsFrom 0 types, returns }

def ofText (s : String) : Except Invalid Method :=
  read s.toList

end Method

/-- The value that a method returned, and its encoding. -/
structure Return where
  method : Method
  raw : Bytes
  value : Option Value

/-- The first bytes of a log that holds a return value. -/
def returnPrefix : Bytes := [0x15, 0x1f, 0x7c, 0x75]

namespace Method

/-- Only the last log is considered. -/
def parseReturn (m : Method) (logs : List Bytes) : Except Error Return := do
  match m.returns, logs.getLast? with
  | none, _ => return { method := m, raw := [], value := none }
  | some _, none => throw (.undecodable (.noReturn m.name))
  | some ty, some log =>
    if returnPrefix.isPrefixOf log then
      let raw := log.drop returnPrefix.length
      return { method := m, raw, value := some (← ty.decode raw) }
    else throw (.undecodable (.notReturn m.name))

/-- The arguments that a call holds besides the selector. -/
def maxSlots : Nat := 15

def encodeEach : List Ty → List Value → Except Error (List Bytes)
  | ty :: types, v :: vs => do
    let bytes ← ty.encode v
    let rest ← encodeEach types vs
    return bytes :: rest
  | _, _ => .ok []

/-- Values that are more than the slots share the last slot, as a tuple. -/
def encodeArgs (types : List Ty) (values : List Value) : Except Error (List Bytes) := do
  if types.length ≠ values.length then
    throw (.unencodable (.methodArity types.length values.length))
  if types.length ≤ maxSlots then encodeEach types values
  else
    let split := maxSlots - 1
    let slots ← encodeEach (types.take split) (values.take split)
    let last ← (Ty.tuple (types.drop split)).encode (.array (values.drop split))
    return slots ++ [last]

end Method

end AppLedger.Abi
