import AppLedger.Client.Description
import AppLedger.Ledger.Approval

/-! A sample application that accepts its creation and opt-ins, and no other call. -/

namespace AppLedger.Sample.Rejecting

def description : DescriptionDraft where
  name := "rejecting"
  approval := "txn ApplicationID\nbz create\nerr\ncreate:\nint 1"
  clear := "int 1"
  declarations := [{ name := "visits", scope := .local, kind := .uint }]
  methods := [("ping()void", {})]

def approval : ApprovalProgram := fun r =>
  if r.isCreate || r.onComplete = .optIn then .ok {} else .error "err opcode executed"

end AppLedger.Sample.Rejecting
