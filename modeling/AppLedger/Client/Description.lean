import AppLedger.Client.Error

/-! Descriptions of applications: the sources of the programs, the state that they declare, their
methods, and the methods that stand for the stages of the application's life. -/

namespace AppLedger

inductive ValueKind
  | uint
  | bytes
  deriving DecidableEq

inductive Scope
  | global
  | local
  deriving DecidableEq

def Scope.text : Scope → String
  | .global => "global"
  | .local => "local"

/-- One key under the declared name, or as many keys as are reserved for the program to choose. -/
structure StateDeclaration where
  name : String
  scope : Scope
  kind : ValueKind
  reserved : Option UInt64 := none
  description : Option String := none

def StateDeclaration.slots (d : StateDeclaration) : Nat :=
  (d.reserved.getD 1).toNat

/-- Where an argument comes from that the caller leaves out. -/
inductive DefaultArgument
  | constant (value : Abi.Value)
  | globalState (key : String)
  | localState (key : String)
  | method (name : String)

/-- The names and the types of the fields of a tuple argument. -/
structure StructHint where
  name : String
  fields : List (String × String)

/-- What callers of a method may know. Arguments go by their names. -/
structure MethodHints where
  readOnly : Bool := false
  defaults : List (String × DefaultArgument) := []
  structs : List (String × StructHint) := []

def MethodHints.default? (hints : MethodHints) (arg : String) : Option DefaultArgument :=
  (hints.defaults.find? (·.1 = arg)).map Prod.snd

def MethodHints.struct? (hints : MethodHints) (arg : String) : Option StructHint :=
  (hints.structs.find? (·.1 = arg)).map Prod.snd

structure MethodSpec where
  method : Abi.Method
  hints : MethodHints := {}

/-- A description as it is given. Methods are given by their signatures. -/
structure DescriptionDraft where
  name : String
  approval : String
  clear : String
  version : UInt8 := 8
  declarations : List StateDeclaration := []
  methods : List (String × MethodHints) := []
  handlers : List (OnComplete × String) := []
  createHandler : Option (String × OnComplete) := none

/-- How many keys of each kind a scope has. -/
structure KeyCount where
  uints : Nat
  byteSlices : Nat
  deriving DecidableEq

namespace KeyCount

def total (c : KeyCount) : Nat :=
  c.uints + c.byteSlices

def schema (c : KeyCount) : StateSchema :=
  ⟨UInt64.ofNat c.uints, UInt64.ofNat c.byteSlices⟩

end KeyCount

/-- The later of two handlers for one stage counts. -/
structure Description where
  name : String
  approval : String
  clear : String
  version : UInt8
  declarations : List StateDeclaration
  methods : List MethodSpec
  handlers : List (OnComplete × String)
  createMethod : Option (String × OnComplete)

namespace Description

def slots (ds : List StateDeclaration) (scope : Scope) (kind : ValueKind) : Nat :=
  let ds := ds.filter fun d => d.scope = scope ∧ d.kind = kind
  ds.foldl (fun count d => count + d.slots) 0

def keyCount (ds : List StateDeclaration) (scope : Scope) : KeyCount :=
  ⟨slots ds scope .uint, slots ds scope .bytes⟩

def globalSchema (d : Description) : StateSchema :=
  (keyCount d.declarations .global).schema

def localSchema (d : Description) : StateSchema :=
  (keyCount d.declarations .local).schema

def hasSignature (s : String) (m : Abi.Method) : Bool :=
  match m.signature with
  | .ok signature => signature = s
  | .error _ => false

/-- Finds a method by its signature, or by its name where only one method has it. -/
def method (d : Description) (name : String) : Except BadArgument MethodSpec :=
  if name.toList.contains '(' then
    (d.methods.find? (hasSignature name ·.method)).elim (.error (.noMethod name d.name)) .ok
  else
    match d.methods.filter (·.method.name = name) with
    | [] => .error (.noMethod name d.name)
    | [spec] => .ok spec
    | _ :: _ :: _ => .error (.overloaded name d.name)

/-- The method that stands for a stage. -/
def handler (d : Description) (stage : OnComplete) : Option MethodSpec := do
  let (_, name) ← d.handlers.reverse.find? (·.1 = stage)
  (d.method name).toOption

/-- The method that is called to create the application, and what the call does besides. -/
def createHandler (d : Description) : Option (MethodSpec × OnComplete) := do
  let (name, onComplete) ← d.createMethod
  let spec ← (d.method name).toOption
  return (spec, onComplete)

def declaration? (d : Description) (name : String) : Option StateDeclaration :=
  d.declarations.find? (·.name = name)

end Description

namespace DescriptionDraft

def maxKeyLength : Nat := 64

def maxGlobalKeys : Nat := 64

def maxLocalKeys : Nat := 16

/-- Checks the declarations against each other; `before` are those that were checked already. -/
def checkDeclarations (before : List StateDeclaration) :
    List StateDeclaration → Except Misconfigured Unit
  | [] => .ok ()
  | d :: rest =>
    if maxKeyLength < d.name.utf8ByteSize then .error (.keyTooLong d.name)
    else if before.any fun b => b.scope = d.scope ∧ b.name = d.name then
      .error (.duplicateState d.name)
    else checkDeclarations (d :: before) rest

def checkKeyCount (ds : List StateDeclaration) (scope : Scope) (max : Nat) :
    Except Misconfigured Unit :=
  let total := (Description.keyCount ds scope).total
  if max < total then .error (.tooManyKeys scope.text total max) else .ok ()

def checkFields : List (String × String) → List Abi.Ty → Except StructFault Unit
  | (field, text) :: fields, item :: items => do
    let declared ← (Abi.Ty.ofText text).mapError .fieldType
    if declared ≠ item then throw (.fieldMismatch field declared item)
    checkFields fields items
  | _, _ => .ok ()

/-- The fields of a struct repeat the types of a tuple argument in their order. -/
def checkStruct (m : Abi.Method) (arg : String) (hint : StructHint) : Except StructFault Unit :=
  match m.args.find? (·.name = some arg) with
  | none => .error .unknownArgument
  | some declared =>
    match declared.type with
    | .value (.tuple items) =>
      if items.length ≠ hint.fields.length then
        .error (.fieldCount items.length hint.fields.length)
      else checkFields hint.fields items
    | type => .error (.notTuple type)

def buildMethod (signature : String) (hints : MethodHints) : Except ClientError MethodSpec := do
  let m ← (Abi.Method.ofText signature).mapError fun why => .abi (.invalid why)
  match hints.defaults.find? fun d => !m.args.any (·.name = some d.1) with
  | some (arg, _) => throw (.configuration (.unknownDefault signature arg))
  | none => pure ()
  hints.structs.forM fun (arg, hint) =>
    (checkStruct m arg hint).mapError fun fault =>
      .configuration (.structFields signature hint.name arg fault)
  return { method := m, hints }

def checkHandler (d : Description) (handler : OnComplete × String) : Except ClientError Unit := do
  if handler.1 = .clearState then throw (.configuration .clearStateHandler)
  discard <| (d.method handler.2).mapError .argument

def build (draft : DescriptionDraft) : Except ClientError Description := do
  (checkDeclarations [] draft.declarations).mapError .configuration
  (checkKeyCount draft.declarations .global maxGlobalKeys).mapError .configuration
  (checkKeyCount draft.declarations .local maxLocalKeys).mapError .configuration
  let methods ← draft.methods.mapM fun (signature, hints) => buildMethod signature hints
  let d : Description :=
    { name := draft.name, approval := draft.approval, clear := draft.clear,
      version := draft.version, declarations := draft.declarations, methods,
      handlers := draft.handlers, createMethod := draft.createHandler }
  d.handlers.forM (checkHandler d)
  match draft.createHandler with
  | some (name, _) => discard <| (d.method name).mapError .argument
  | none => pure ()
  return d

end DescriptionDraft

end AppLedger
