import AppLedger.FixedBytes
import AppLedger.Msgpack.Value

/-! Reading the fields of a record off a MessagePack value, and what a field can hold. -/

namespace AppLedger.Msgpack

/-- Which integers are taken as keys: those of 8 and 64 bits only, or those of any width. -/
inductive KeyWidths
  | outer
  | all
  deriving DecidableEq

namespace KeyWidths

def admits : KeyWidths → Width → Bool
  | .outer, .w8 | .outer, .w64 | .all, _ => true
  | .outer, _ => false

end KeyWidths

namespace Value

/-- The field that a key names, or none for a field that is not known. A key is a name, as text
or bytes, or the number of the field. -/
def fieldIndex? (widths : KeyWidths) (names : List String) : Value → Option (Option Nat)
  | .text s => some (names.idxOf? s)
  | .bytes b => some (names.findIdx? (Bytes.ofText · = b))
  | .uint width n =>
    if widths.admits width then some (if n < names.length then some n else none) else none
  | _ => none

/-- The field that a key names, where fields are not numbered. -/
def namedIndex? (names : List String) (key : Value) : Option (Option Nat) :=
  match key with
  | .uint width _ => if KeyWidths.outer.admits width then some none else none
  | key => fieldIndex? .outer names key

/-- Puts the value into the slot of its field, which must be free. -/
def fillSlot : List (Option Value) → Nat → Value → Option (List (Option Value))
  | none :: slots, 0, v => some (some v :: slots)
  | slot :: slots, i + 1, v => (fillSlot slots i v).map (slot :: ·)
  | _, _, _ => none

def fillSlots (index : Value → Option (Option Nat)) :
    List (Option Value) → List (Value × Value) → Option (List (Option Value))
  | slots, [] => some slots
  | slots, (key, v) :: entries =>
    match index key with
    | none => none
    | some none => fillSlots index slots entries
    | some (some i) => (fillSlot slots i v).bind (fillSlots index · entries)

/-- The fields of a record: a map by name or number, or an array in the order of the names. -/
def fields? (widths : KeyWidths) (names : List String) : Value → Option (List (Option Value))
  | .map entries => fillSlots (fieldIndex? widths names) (names.map fun _ => none) entries
  | .array items =>
    if items.length ≤ names.length then
      some (items.map some ++ List.replicate (names.length - items.length) none)
    else none
  | _ => none

/-- The fields of a record that is a map by name. -/
def namedFields? (names : List String) : Value → Option (List (Option Value))
  | .map entries => fillSlots (namedIndex? names) (names.map fun _ => none) entries
  | _ => none

/-- A number below `bound`, written in any integer form. -/
def natBelow? (bound : Nat) : Value → Option Nat
  | .uint _ n => if n < bound then some n else none
  | .sint n => if 0 ≤ n ∧ n.toNat < bound then some n.toNat else none
  | _ => none

def uint64? (v : Value) : Option UInt64 :=
  (v.natBelow? UInt64.size).map UInt64.ofNat

def uint8? (v : Value) : Option UInt8 :=
  (v.natBelow? UInt8.size).map UInt8.ofNat

/-- Bytes, the bytes of a text, or an array of numbers that are bytes. -/
def bytes? : Value → Option Bytes
  | .bytes b => some b
  | .text s => some (Bytes.ofText s)
  | .array items => items.mapM uint8?
  | _ => none

def fixedBytes? (size : Nat) (v : Value) : Option (FixedBytes size) :=
  v.bytes?.bind FixedBytes.ofBytes?

def text? : Value → Option String
  | .text s => some s
  | .bytes b => Bytes.toText? b
  | _ => none

def list? {α : Type} (item? : Value → Option α) : Value → Option (List α)
  | .array items => items.mapM item?
  | _ => none

/-- A list of items of which none is a number. Bytes count as a list of numbers, so that only the
empty ones are such a list. -/
def listOrBytes? {α : Type} (item? : Value → Option α) : Value → Option (List α)
  | .bytes b => if b.isEmpty then some [] else none
  | v => v.list? item?

/-- What an absent field or a nil leaves out. -/
def optional? {α : Type} (read? : Value → Option α) : Option Value → Option (Option α)
  | none | some .nil => some none
  | some v => (read? v).map some

/-- A field that has a value of its own when it is absent. -/
def withDefault? {α : Type} (default : α) (read? : Value → Option α) : Option Value → Option α
  | none => some default
  | some v => read? v

end Value

end AppLedger.Msgpack
