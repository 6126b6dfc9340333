import AppLedger.Msgpack.Reader
import AppLedger.Msgpack.Record
import AppLedger.Transaction.Basic
import AppLedger.Transaction.Error

/-! The form in which transactions travel: a map of short names in which empty values are left
out. A box names its application by a place in the references of the call. -/

namespace AppLedger

open Msgpack

/-- The fields of a map, in the order in which they are declared. -/
abbrev WireFields := List (String × Value)

namespace Wire

/-- The field, unless it is empty. -/
def field (name : String) (empty : Bool) (value : Value) : WireFields :=
  if empty then [] else [(name, value)]

def number (name : String) (n : UInt64) : WireFields :=
  field name (n == 0) (.ofNat n.toNat)

def bytes (name : String) (b : Bytes) : WireFields :=
  field name b.isEmpty (.bytes b)

def text (name : String) (s : String) : WireFields :=
  field name s.isEmpty (.text s)

def fixed {size : Nat} (name : String) (b : FixedBytes size) : WireFields :=
  field name b.isZero (.bytes b.bytes)

def address (name : String) (a : Address) : WireFields :=
  fixed name a.key

def list {α : Type} (name : String) (value : α → Value) (items : List α) : WireFields :=
  field name items.isEmpty (.array (items.map value))

def optional {α : Type} (write : α → WireFields) (a : Option α) : WireFields :=
  a.elim [] write

end Wire

open Wire

namespace StateSchema

def wireFields (schema : StateSchema) : WireFields :=
  number "nui" schema.uints ++ number "nbs" schema.byteSlices

def wire (name : String) (schema : StateSchema) : WireFields :=
  field name schema.isEmpty (.ofFields schema.wireFields)

def ofWire? (v : Value) : Option StateSchema := do
  match ← v.fields? .outer ["nui", "nbs"] with
  | [uints, byteSlices] =>
    return { uints := ← Value.withDefault? 0 Value.uint64? uints,
             byteSlices := ← Value.withDefault? 0 Value.uint64? byteSlices }
  | _ => none

end StateSchema

namespace BoxRef

/-- The place of an application in the references of a call: zero for the called application,
one for the first reference. -/
def appIndex (app : UInt64) (references : List UInt64) (box : BoxRef) :
    Except TransactionError Nat :=
  if box.app = 0 ∨ box.app = app then .ok 0
  else
    match references.idxOf? box.app with
    | some i => .ok (i + 1)
    | none => .error (.boxApp box.app)

def wire (index : Nat) (name : Bytes) : Value :=
  .ofFields (field "i" (index == 0) (.ofNat index) ++ [("n", .bytes name)])

/-- A box with the place of its application. -/
def ofWire? (v : Value) : Option (Nat × Bytes) := do
  match ← v.fields? .outer ["i", "n"] with
  | [index, some name] =>
    return (← Value.withDefault? 0 (Value.natBelow? UInt64.size) index, ← name.bytes?)
  | _ => none

def ofIndex (references : List UInt64) (index : Nat) (name : Bytes) :
    Except TransactionError BoxRef :=
  match index with
  | 0 => .ok ⟨0, name⟩
  | i + 1 =>
    match references[i]? with
    | some app => .ok ⟨app, name⟩
    | none => .error (.malformed (.appReference i))

end BoxRef

namespace Header

def wire (h : Header) : WireFields :=
  address "snd" h.sender ++ optional (number "fee") h.fee ++ number "fv" h.firstValid ++
    number "lv" h.lastValid ++ optional (fixed "gh") h.genesisHash ++
    optional (text "gen") h.genesisId ++ optional (bytes "note") h.note ++
    optional (address "rekey") h.rekeyTo ++ optional (fixed "lx") h.lease ++
    optional (fixed "grp") h.group

def wireNames : List String :=
  ["snd", "fee", "fv", "lv", "gh", "gen", "note", "rekey", "lx", "grp"]

end Header

def addressOfWire? (v : Value) : Option Address :=
  (v.fixedBytes? 32).map Address.mk

namespace Header

/-- The header, from the values of its fields in the order of their names. -/
def ofWire? : List (Option Value) → Option Header
  | [snd, fee, fv, lv, gh, gen, note, rekey, lx, grp] => do
    let sender ← Value.withDefault? Address.zero addressOfWire? snd
    let fee ← Value.optional? Value.uint64? fee
    let firstValid ← Value.withDefault? 0 Value.uint64? fv
    let lastValid ← Value.withDefault? 0 Value.uint64? lv
    let genesisHash ← Value.optional? (Value.fixedBytes? 32) gh
    let genesisId ← Value.optional? Value.text? gen
    let note ← Value.optional? Value.bytes? note
    let rekeyTo ← Value.optional? addressOfWire? rekey
    let lease ← Value.optional? (Value.fixedBytes? 32) lx
    let group ← Value.optional? (Value.fixedBytes? 32) grp
    return {
      sender, fee, firstValid, lastValid, genesisHash, genesisId, note, rekeyTo, lease, group }
  | _ => none

end Header

namespace Payment

def wire (p : Payment) : WireFields :=
  p.header.wire ++ address "rcv" p.receiver ++ number "amt" p.amount ++
    optional (address "close") p.closeTo

def wireNames : List String :=
  ["rcv", "amt", "close"]

def ofWire? (header : Header) : List (Option Value) → Option Payment
  | [rcv, amt, close] => do
    let receiver ← Value.withDefault? Address.zero addressOfWire? rcv
    let amount ← Value.withDefault? 0 Value.uint64? amt
    let closeTo ← Value.optional? addressOfWire? close
    return { header, receiver, amount, closeTo }
  | _ => none

end Payment

namespace AppCall

/-- The boxes with the places of their applications. Without a box no application is looked up. -/
def wireBoxes (c : AppCall) : Except TransactionError WireFields := do
  let boxes ← (c.boxes.getD []).mapM fun box => do
    return BoxRef.wire (← box.appIndex c.app (c.apps.getD [])) box.name
  return list "apbx" id boxes

def wire (c : AppCall) : Except TransactionError WireFields := do
  let boxes ← c.wireBoxes
  return c.header.wire ++ number "apid" c.app ++
    field "apan" (c.onComplete == .noOp) (.ofNat c.onComplete.code) ++
    optional (bytes "apap") c.approval ++ optional (bytes "apsu") c.clear ++
    optional (StateSchema.wire "apgs") c.globalSchema ++
    optional (StateSchema.wire "apls") c.localSchema ++ optional (number "apep") c.extraPages ++
    optional (list "apaa" .bytes) c.args ++
    optional (list "apat" fun a => .bytes a.key.bytes) c.accounts ++
    optional (list "apfa" fun n => .ofNat n.toNat) c.apps ++
    optional (list "apas" fun n => .ofNat n.toNat) c.assets ++ boxes

def wireNames : List String :=
  ["apid", "apan", "apap", "apsu", "apgs", "apls", "apep", "apaa", "apat", "apfa", "apas", "apbx"]

/-- A call whose boxes still have the places of their applications, with those boxes. -/
def ofWire? (header : Header) :
    List (Option Value) → Option (AppCall × Option (List (Nat × Bytes)))
  | [apid, apan, apap, apsu, apgs, apls, apep, apaa, apat, apfa, apas, apbx] => do
    let app ← Value.withDefault? 0 Value.uint64? apid
    let onComplete ←
      Value.withDefault? .noOp (fun v => (v.natBelow? 256).bind OnComplete.ofCode?) apan
    let approval ← Value.optional? Value.bytes? apap
    let clear ← Value.optional? Value.bytes? apsu
    let globalSchema ← Value.optional? StateSchema.ofWire? apgs
    let localSchema ← Value.optional? StateSchema.ofWire? apls
    let extraPages ← Value.optional? Value.uint64? apep
    let args ← Value.optional? (Value.list? Value.bytes?) apaa
    let accounts ← Value.optional? (Value.list? addressOfWire?) apat
    let apps ← Value.optional? (Value.list? Value.uint64?) apfa
    let assets ← Value.optional? (Value.list? Value.uint64?) apas
    let boxes ← Value.optional? (Value.list? BoxRef.ofWire?) apbx
    return ({ header, app, onComplete, approval, clear, globalSchema, localSchema, extraPages, args,
              accounts, apps, assets }, boxes)
  | _ => none

/-- Looks up the applications of the boxes. -/
def withBoxes (c : AppCall) (boxes : Option (List (Nat × Bytes))) :
    Except TransactionError AppCall := do
  match boxes with
  | none => return c
  | some boxes =>
    let boxes ← boxes.mapM fun (index, name) => BoxRef.ofIndex (c.apps.getD []) index name
    return { c with boxes := some boxes }

end AppCall

namespace Transaction

/-- The fields of a transaction, with the name of its type first. -/
def wire : Transaction → Except TransactionError WireFields
  | .payment p => .ok (("type", .text "pay") :: p.wire)
  | .appCall c => do
    let fields ← c.wire
    return ("type", .text "appl") :: fields

inductive Kind
  | payment
  | appCall
  deriving DecidableEq

/-- The type of a transaction, by its name or by its number. -/
def Kind.ofWire? (v : Value) : Option Kind :=
  match v with
  | .text s => if s = "pay" then some .payment else if s = "appl" then some .appCall else none
  | .bytes b =>
    if b = Bytes.ofText "pay" then some .payment
    else if b = Bytes.ofText "appl" then some .appCall
    else none
  | .uint _ 0 => some .payment
  | .uint _ 1 => some .appCall
  | _ => none

/-- The type of the transaction that a map describes. -/
def kindOfWire? : Value → Option Kind
  | .map entries => do
    let isTag : Value → Bool
      | .text s => s = "type"
      | .bytes b => b = Bytes.ofText "type"
      | _ => false
    match entries.filter (isTag ·.1) with
    | [(_, v)] => Kind.ofWire? v
    | _ => none
  | _ => none

/-- The header and the other fields with the given names. The type is among the fields. -/
def splitFields? (names : List String) (v : Value) :
    Option (Header × List (Option Value)) := do
  let fields ← v.namedFields? ("type" :: (Header.wireNames ++ names))
  let header ← Header.ofWire? ((fields.drop 1).take Header.wireNames.length)
  return (header, fields.drop (1 + Header.wireNames.length))

def ofWire (v : Value) : Except TransactionError Transaction :=
  match kindOfWire? v with
  | none => .error (.malformed .bytes)
  | some .payment =>
    match (splitFields? Payment.wireNames v).bind fun (header, rest) =>
      Payment.ofWire? header rest with
    | some p => .ok (.payment p)
    | none => .error (.malformed .bytes)
  | some .appCall =>
    match (splitFields? AppCall.wireNames v).bind fun (header, rest) =>
      AppCall.ofWire? header rest with
    | some (c, boxes) => (c.withBoxes boxes).map .appCall
    | none => .error (.malformed .bytes)

end Transaction

end AppLedger
