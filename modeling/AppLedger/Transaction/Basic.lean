import AppLedger.Address

/-! Transactions: payments and calls of applications, with the header that both have. -/

namespace AppLedger

/-- What a call does to the sender's relation to the application once the program agrees. -/
inductive OnComplete
  | noOp
  | optIn
  | closeOut
  | clearState
  | updateApplication
  | deleteApplication
  deriving DecidableEq, Inhabited

namespace OnComplete

def all : List OnComplete :=
  [.noOp, .optIn, .closeOut, .clearState, .updateApplication, .deleteApplication]

def code : OnComplete → Nat
  | .noOp => 0
  | .optIn => 1
  | .closeOut => 2
  | .clearState => 3
  | .updateApplication => 4
  | .deleteApplication => 5

def ofCode? (n : Nat) : Option OnComplete :=
  all.find? (·.code = n)

def text : OnComplete → String
  | .noOp => "NoOp"
  | .optIn => "OptIn"
  | .closeOut => "CloseOut"
  | .clearState => "ClearState"
  | .updateApplication => "UpdateApplication"
  | .deleteApplication => "DeleteApplication"

instance : ToString OnComplete := ⟨text⟩

theorem ofCode?_code (oc : OnComplete) : ofCode? oc.code = some oc := by
  cases oc <;> rfl

end OnComplete

/-- How many numbers and byte strings a state can hold. -/
structure StateSchema where
  uints : UInt64 := 0
  byteSlices : UInt64 := 0
  deriving DecidableEq, Inhabited

def StateSchema.isEmpty (schema : StateSchema) : Bool :=
  schema.uints == 0 && schema.byteSlices == 0

/-- A box of an application. The number zero stands for the application that is called. -/
structure BoxRef where
  app : UInt64
  name : Bytes
  deriving DecidableEq

structure Header where
  sender : Address
  fee : Option UInt64 := none
  firstValid : UInt64
  lastValid : UInt64
  genesisHash : Option Digest := none
  genesisId : Option String := none
  note : Option Bytes := none
  rekeyTo : Option Address := none
  lease : Option (FixedBytes 32) := none
  group : Option Digest := none
  deriving DecidableEq

structure Payment where
  header : Header
  receiver : Address
  amount : UInt64
  closeTo : Option Address := none
  deriving DecidableEq

/-- A call of an application. The number zero asks for a new application. -/
structure AppCall where
  header : Header
  app : UInt64
  onComplete : OnComplete := .noOp
  approval : Option Bytes := none
  clear : Option Bytes := none
  globalSchema : Option StateSchema := none
  localSchema : Option StateSchema := none
  extraPages : Option UInt64 := none
  args : Option (List Bytes) := none
  accounts : Option (List Address) := none
  apps : Option (List UInt64) := none
  assets : Option (List UInt64) := none
  boxes : Option (List BoxRef) := none
  deriving DecidableEq

inductive Transaction
  | payment (fields : Payment)
  | appCall (fields : AppCall)
  deriving DecidableEq

namespace Transaction

def header : Transaction → Header
  | .payment p => p.header
  | .appCall c => c.header

def withHeader (h : Header) : Transaction → Transaction
  | .payment p => .payment { p with header := h }
  | .appCall c => .appCall { c with header := h }

def sender (t : Transaction) : Address :=
  t.header.sender

def appCall? : Transaction → Option AppCall
  | .appCall c => some c
  | .payment _ => none

def withFee (fee : UInt64) (t : Transaction) : Transaction :=
  t.withHeader { t.header with fee := some fee }

def withGroup (group : Option Digest) (t : Transaction) : Transaction :=
  t.withHeader { t.header with group }

end Transaction

end AppLedger
