import AppLedger.Bytes
import AppLedger.Text.Quoted

/-! The values that types describe. Tuples and arrays alike are lists of values. -/

namespace AppLedger.Abi

inductive Value
  | bool (value : Bool)
  | uint (value : Nat)
  | string (value : String)
  | byte (value : UInt8)
  | array (items : List Value)
  | address (text : String)
  deriving Inhabited

namespace Value

def ofBytes (b : Bytes) : Value :=
  .array (b.map .byte)

def uint? : Value → Option Nat
  | .uint n => some n
  | _ => none

/-- The number of an unsigned integer of at most 64 bits. -/
def uint64? (v : Value) : Option Nat :=
  v.uint?.filter (· < UInt64.size)

def text? : Value → Option String
  | .string s | .address s => some s
  | _ => none

def bool? : Value → Option Bool
  | .bool b => some b
  | _ => none

def items? : Value → Option (List Value)
  | .array items => some items
  | _ => none

mutual

def text : Value → String
  | .bool b => toString b
  | .uint n => toString n
  | .string s => Text.Quoted.quote s
  | .byte b => toString b.toNat
  | .address s => s
  | .array items => "[" ++ ", ".intercalate (texts items) ++ "]"

def texts : List Value → List String
  | [] => []
  | item :: items => item.text :: texts items

end

instance : ToString Value := ⟨text⟩

end Value

end AppLedger.Abi
