import AppLedger.Json.Tree

/-! Reading records off JSON trees: objects with known members, or arrays of their values. -/

namespace AppLedger.Json.Tree

/-- A field of a record. One that is optional may be missing in an array also. -/
structure Field where
  name : String
  optional : Bool := false

/-- Puts a member into the slot of its field, which must be free. Members that are not known are
left out. -/
def fillSlots (names : List String) :
    List (Option Tree) → List (Option String × Tree) → Option (List (Option Tree))
  | slots, [] => some slots
  | _, (none, _) :: _ => none
  | slots, (some name, tree) :: members =>
    match names.idxOf? name with
    | none => fillSlots names slots members
    | some i =>
      match slots[i]? with
      | some none => fillSlots names (slots.set i (some tree)) members
      | _ => none

def ofItems : List Field → List Tree → Option (List (Option Tree))
  | [], [] => some []
  | [], _ :: _ => none
  | _ :: fields, item :: items => (ofItems fields items).map (some item :: ·)
  | field :: fields, [] =>
    if field.optional then (ofItems fields []).map (none :: ·) else none

def fields? (fields : List Field) : Tree → Option (List (Option Tree))
  | .object members =>
    fillSlots (fields.map Field.name) (fields.map fun _ => none) members
  | .array items => ofItems fields items
  | _ => none

def text? : Tree → Option String
  | .string text => text
  | _ => none

def natBelow? (bound : Nat) : Tree → Option Nat
  | .int n => if 0 ≤ n ∧ n < bound then some n.toNat else none
  | _ => none

def uint64? : Tree → Option UInt64 :=
  fun tree => (tree.natBelow? UInt64.size).map UInt64.ofNat

def list? {α : Type} (read : Tree → Option α) : Tree → Option (List α)
  | .array items => items.mapM read
  | _ => none

/-- A field that is missing or null has no value. -/
def nullable? {α : Type} (read : Tree → Option α) : Option Tree → Option (Option α)
  | none | some .null => some none
  | some tree => (read tree).map some

def withDefault? {α : Type} (value : α) (read : Tree → Option α) : Option Tree → Option α
  | none => some value
  | some tree => read tree

def required? {α : Type} (read : Tree → Option α) (tree : Option Tree) : Option α :=
  tree.bind read

end AppLedger.Json.Tree
