import AppLedger.Json.Double

/-! Values of JSON texts. -/

namespace AppLedger.Json

/-- The members of an object are kept in the order of the text. -/
inductive Value
  | null
  | bool (value : Bool)
  | int (value : Int)
  /-- A number that is not an integer of 64 bits. -/
  | number (value : Double)
  | string (value : String)
  | array (items : List Value)
  | object (members : List (String × Value))
  deriving Inhabited

namespace Value

/-- The last member of that name. -/
def member? (name : String) : Value → Option Value
  | .object members => (members.reverse.find? (·.1 = name)).map Prod.snd
  | _ => none

def text? : Value → Option String
  | .string s => some s
  | _ => none

end Value

end AppLedger.Json
