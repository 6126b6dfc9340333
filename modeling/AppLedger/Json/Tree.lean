import AppLedger.Json.Value

/-! JSON texts as trees. A tree may hold escapes that stand for no character, or numbers beyond
the doubles, and is then no value. -/

namespace AppLedger.Json

/-- Texts with an unpaired surrogate are absent, and so are numbers that are too large. -/
inductive Tree
  | null
  | bool (value : Bool)
  | int (value : Int)
  | number (value : Option Double)
  | string (text : Option String)
  | array (items : List Tree)
  | object (members : List (Option String × Tree))
  deriving Inhabited

namespace Tree

/-- The value of a tree with at most `depth` levels of arrays and objects. -/
def value? : (depth : Nat) → Tree → Option Value
  | _, .null => some .null
  | _, .bool b => some (.bool b)
  | _, .int n => some (.int n)
  | _, .number value => value.map .number
  | _, .string text => text.map .string
  | 0, _ => none
  | depth + 1, .array items => (items.mapM (value? depth)).map .array
  | depth + 1, .object members => do
    let members ← members.mapM fun (name, tree) => do
      return (← name, ← value? depth tree)
    return .object members

end Tree

end AppLedger.Json
