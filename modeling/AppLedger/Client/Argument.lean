import AppLedger.AtomicGroup.Member
import AppLedger.Client.Description

/-! The arguments of a method call. Values are encoded, references become indices into the arrays
of the call, and transactions are put in front of the call. -/

namespace AppLedger

inductive MethodArg
  | value (v : Abi.Value)
  | account (address : Address)
  | asset (id : UInt64)
  | application (id : UInt64)
  | transaction (member : Member)
  | returned (r : Abi.Return)
  /-- A tuple, given by the names of its fields. -/
  | struct (fields : List (String × Abi.Value))
  | byDefault

def MethodArg.kind : MethodArg → String
  | .value _ => "a value"
  | .account _ => "an account reference"
  | .asset _ => "an asset reference"
  | .application _ => "an application reference"
  | .transaction _ => "a transaction"
  | .returned _ => "a method return"
  | .struct _ => "a struct without a hint"
  | .byDefault => "an unresolved default"

/-- The resources that a call names. -/
structure References where
  accounts : List Address := []
  apps : List UInt64 := []
  assets : List UInt64 := []
  boxes : List BoxRef := []
  deriving DecidableEq

namespace References

/-- The list with the item in it, and the place of the item. -/
def place {α : Type} [DecidableEq α] (items : List α) (item : α) : List α × Nat :=
  match items.findIdx? (· = item) with
  | some i => (items, i)
  | none => (items ++ [item], items.length)

/-- Index 0 is the sender. -/
def placeAccount (refs : References) (sender account : Address) : References × Nat :=
  if account = sender then (refs, 0)
  else
    let (accounts, i) := place refs.accounts account
    ({ refs with accounts }, i + 1)

/-- Index 0 is the application that is called. -/
def placeApp (refs : References) (current app : UInt64) : References × Nat :=
  if app = current ∧ current ≠ 0 then (refs, 0)
  else
    let (apps, i) := place refs.apps app
    ({ refs with apps }, i + 1)

def placeAsset (refs : References) (asset : UInt64) : References × Nat :=
  let (assets, i) := place refs.assets asset
  ({ refs with assets }, i)

def count (refs : References) : Nat :=
  refs.accounts.length + refs.apps.length + refs.assets.length + refs.boxes.length

/-- The first limit on references that is exceeded. -/
def excess? (refs : References) : Option BadArgument :=
  if 4 < refs.accounts.length then some (.references refs.accounts.length "accounts" 4)
  else if 8 < refs.apps.length then some (.references refs.apps.length "applications" 8)
  else if 8 < refs.assets.length then some (.references refs.assets.length "assets" 8)
  else if 8 < refs.count then some (.allReferences refs.count)
  else none

end References

/-- A call with its arguments in the form that the network takes. -/
structure ResolvedCall where
  /-- The selector and the encoded arguments. -/
  args : List Bytes
  references : References
  transactions : List Member

namespace MethodArg

/-- The values of the fields in the order of the hint. Each value is used once; the values that
are left come second. -/
def takeFields (missing : String → BadArgument) :
    List (String × String) → List (String × Abi.Value) →
      Except BadArgument (List Abi.Value × List (String × Abi.Value))
  | [], given => .ok ([], given)
  | (field, _) :: fields, given =>
    match given.find? (·.1 = field) with
    | none => .error (missing field)
    | some (_, v) => do
      let (values, unused) ← takeFields missing fields (given.filter (·.1 ≠ field))
      return (v :: values, unused)

/-- Turns a struct into the tuple that its hint describes. -/
def orderFields (m : Abi.Method) (hints : MethodHints) (name : String) :
    MethodArg → Except BadArgument MethodArg
  | .struct given =>
    match hints.struct? name with
    | none => .error (.noStructFields name m.name)
    | some hint => do
      let (values, unused) ← takeFields (.missingField hint.name name m.name) hint.fields given
      match unused with
      | [] => return .value (.array values)
      | (field, _) :: _ => throw (.unknownField hint.name name m.name field)
  | arg => .ok arg

/-- Arguments beyond the declared ones have no name. -/
def orderAllFields (m : Abi.Method) (hints : MethodHints) :
    List Abi.Arg → List MethodArg → Except BadArgument (List MethodArg)
  | _, [] => .ok []
  | declared, arg :: args => do
    let name := (declared.head?.bind (·.name)).getD ""
    let arg ← orderFields m hints name arg
    let args ← orderAllFields m hints declared.tail args
    return arg :: args

/-- Who calls what, for the indices that are not taken from the arrays. -/
structure Caller where
  signature : String
  sender : Address
  app : UInt64

/-- What the arguments so far have become. -/
structure Packing where
  references : References
  types : List Abi.Ty := []
  values : List Abi.Value := []
  transactions : List Member := []

namespace Packing

def addValue (p : Packing) (ty : Abi.Ty) (v : Abi.Value) : Packing :=
  { p with types := p.types ++ [ty], values := p.values ++ [v] }

/-- The index goes into one byte. -/
def addIndex (p : Packing) (placed : References × Nat) : Packing :=
  { p with references := placed.1 }.addValue .uint8 (.uint (placed.2 % 256))

end Packing

def packValue (caller : Caller) (position : Nat) (ty : Abi.Ty) (arg : MethodArg) (p : Packing) :
    Except BadArgument Packing :=
  match arg with
  | .value v | .returned ⟨_, _, some v⟩ => .ok (p.addValue ty v)
  | .returned ⟨m, _, none⟩ => .error (.voidReturn position caller.signature m.name)
  | _ => .error (.mismatch position caller.signature (.value ty) arg.kind)

def packReference (caller : Caller) (position : Nat) (kind : Abi.ReferenceKind) (arg : MethodArg)
    (p : Packing) : Except BadArgument Packing :=
  let mismatch := BadArgument.mismatch position caller.signature (.reference kind) arg.kind
  match kind, arg with
  | .account, .account address =>
    .ok (p.addIndex (p.references.placeAccount caller.sender address))
  | .account, .value (.address text) => do
    let address ← (Address.ofText text).mapError (.address position caller.signature)
    return p.addIndex (p.references.placeAccount caller.sender address)
  | .application, .application id => .ok (p.addIndex (p.references.placeApp caller.app id))
  | .asset, .asset id => .ok (p.addIndex (p.references.placeAsset id))
  | .application, .value v =>
    match v.uint64? with
    | some id => .ok (p.addIndex (p.references.placeApp caller.app (UInt64.ofNat id)))
    | none => .error mismatch
  | .asset, .value v =>
    match v.uint64? with
    | some id => .ok (p.addIndex (p.references.placeAsset (UInt64.ofNat id)))
    | none => .error mismatch
  | _, _ => .error mismatch

def kindOf : Transaction → Abi.TransactionKind
  | .payment _ => .payment
  | .appCall _ => .applicationCall

def packTransaction (caller : Caller) (position : Nat) (kind : Abi.TransactionKind)
    (arg : MethodArg) (p : Packing) : Except BadArgument Packing :=
  match arg with
  | .transaction member =>
    let actual := kindOf member.transaction
    if kind = .any ∨ kind = actual then
      .ok { p with transactions := p.transactions ++ [member] }
    else .error (.transactionKind position caller.signature kind (toString actual))
  | _ => .error (.mismatch position caller.signature (.transaction kind) arg.kind)

def pack (caller : Caller) (position : Nat) (type : Abi.ArgType) (arg : MethodArg) (p : Packing) :
    Except BadArgument Packing :=
  match type with
  | .value ty => packValue caller position ty arg p
  | .reference kind => packReference caller position kind arg p
  | .transaction kind => packTransaction caller position kind arg p

/-- Packs the arguments from `position` on. -/
def packFrom (caller : Caller) (position : Nat) :
    List Abi.Arg → List MethodArg → Packing → Except BadArgument Packing
  | declared :: rest, arg :: args, p => do
    let p ← pack caller position declared.type arg p
    packFrom caller (position + 1) rest args p
  | _, _, p => .ok p

/-- Brings the arguments of a method into the form that the network takes. Defaults and structs
have been replaced before. -/
def resolve (m : Abi.Method) (args : List MethodArg) (sender : Address) (app : UInt64)
    (references : References) : Except ClientError ResolvedCall := do
  let signature ← m.signature.mapError fun why => .abi (.invalid why)
  if args.length ≠ m.args.length then
    throw (.argument (.arity signature m.args.length args.length))
  let p ← (packFrom ⟨signature, sender, app⟩ 0 m.args args { references }).mapError .argument
  match p.references.excess? with
  | some excess => throw (.argument excess)
  | none =>
    let selector ← m.selector.mapError fun why => .abi (.invalid why)
    let encoded ← (Abi.Method.encodeArgs p.types p.values).mapError fun why =>
      .argument (.unencodable signature why)
    return { args := selector :: encoded, references := p.references,
             transactions := p.transactions }

end MethodArg

end AppLedger
