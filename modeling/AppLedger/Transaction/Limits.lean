import AppLedger.Transaction.Basic
import AppLedger.Transaction.Error

/-! The network's limits on the arguments, the references and the programs of a call. -/

namespace AppLedger

def maxGroupSize : Nat := 16

/-- The bytes of one page of program. -/
def pageSize : Nat := 2048

def maxExtraPages : Nat := 3

namespace AppCall

def argList (c : AppCall) : List Bytes := c.args.getD []

def accountList (c : AppCall) : List Address := c.accounts.getD []

def appList (c : AppCall) : List UInt64 := c.apps.getD []

def assetList (c : AppCall) : List UInt64 := c.assets.getD []

def boxList (c : AppCall) : List BoxRef := c.boxes.getD []

def argsSize (c : AppCall) : Nat :=
  c.argList.flatten.length

def referenceCount (c : AppCall) : Nat :=
  c.accountList.length + c.appList.length + c.assetList.length + c.boxList.length

def pages (c : AppCall) : Nat :=
  (c.extraPages.getD 0).toNat

def programSize (c : AppCall) : Nat :=
  (c.approval.getD []).length + (c.clear.getD []).length

/-- The first limit that the call exceeds. -/
def exceeded? (c : AppCall) : Option CallLimit :=
  if 16 < c.argList.length then some (.args c.argList.length)
  else if 2048 < c.argsSize then some (.argsSize c.argsSize)
  else if 4 < c.accountList.length then some (.references "account" c.accountList.length 4)
  else if 8 < c.appList.length then some (.references "application" c.appList.length 8)
  else if 8 < c.assetList.length then some (.references "asset" c.assetList.length 8)
  else if 8 < c.boxList.length then some (.references "box" c.boxList.length 8)
  else if 8 < c.referenceCount then some (.allReferences c.referenceCount)
  else if maxExtraPages < c.pages then some (.extraPages c.pages)
  else if pageSize * (1 + c.pages) < c.programSize then
    some (.programSize c.programSize (pageSize * (1 + c.pages)) c.pages)
  else none

def validate (c : AppCall) : Except TransactionError Unit :=
  match c.exceeded? with
  | some limit => .error (.limit limit)
  | none => .ok ()

end AppCall

end AppLedger
