import AppLedger.Transaction.Basic

/-! Transactions under construction, whose required fields may still be missing. -/

namespace AppLedger

/-- A required field that was never set. -/
structure MissingField where
  field : String
  deriving DecidableEq

def MissingField.message (e : MissingField) : String :=
  s!"`{e.field}` must be initialized"

def require {α : Type} (field : String) : Option α → Except MissingField α
  | some a => .ok a
  | none => .error ⟨field⟩

structure HeaderDraft where
  sender : Option Address := none
  fee : Option UInt64 := none
  firstValid : Option UInt64 := none
  lastValid : Option UInt64 := none
  genesisHash : Option Digest := none
  genesisId : Option String := none
  note : Option Bytes := none
  rekeyTo : Option Address := none
  lease : Option (FixedBytes 32) := none
  group : Option Digest := none

def HeaderDraft.build (d : HeaderDraft) : Except MissingField Header := do
  let sender ← require "sender" d.sender
  let firstValid ← require "first_valid" d.firstValid
  let lastValid ← require "last_valid" d.lastValid
  return { sender, fee := d.fee, firstValid, lastValid, genesisHash := d.genesisHash,
           genesisId := d.genesisId, note := d.note, rekeyTo := d.rekeyTo, lease := d.lease,
           group := d.group }

structure PaymentDraft where
  header : Option Header := none
  receiver : Option Address := none
  amount : Option UInt64 := none
  closeTo : Option Address := none

def PaymentDraft.build (d : PaymentDraft) : Except MissingField Transaction := do
  let header ← require "header" d.header
  let receiver ← require "receiver" d.receiver
  let amount ← require "amount" d.amount
  return .payment { header, receiver, amount, closeTo := d.closeTo }

structure AppCallDraft where
  header : Option Header := none
  app : Option UInt64 := none
  onComplete : OnComplete := .noOp
  approval : Option Bytes := none
  clear : Option Bytes := none
  globalSchema : Option StateSchema := none
  localSchema : Option StateSchema := none
  extraPages : Option UInt64 := none
  args : Option (List Bytes) := none
  accounts : Option (List Address) := none
  apps : Option (List UInt64) := none
  assets : Option (List UInt64) := none
  boxes : Option (List BoxRef) := none

def AppCallDraft.build (d : AppCallDraft) : Except MissingField Transaction := do
  let header ← require "header" d.header
  let app ← require "app_id" d.app
  return .appCall { header, app, onComplete := d.onComplete, approval := d.approval,
                    clear := d.clear, globalSchema := d.globalSchema, localSchema := d.localSchema,
                    extraPages := d.extraPages, args := d.args, accounts := d.accounts,
                    apps := d.apps, assets := d.assets, boxes := d.boxes }

end AppLedger
