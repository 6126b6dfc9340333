import AppLedger.Ledger.Basic
import AppLedger.Sample.Counter
import AppLedger.Sample.Rejecting

/-! A new ledger that knows the programs of the sample applications. -/

namespace AppLedger.Sample

def registerDraft (l : Ledger) (draft : DescriptionDraft) (program : ApprovalProgram) : Ledger :=
  l.register draft.approval draft.version program

def ledger : Ledger :=
  registerDraft (registerDraft {} Counter.description Counter.approval)
    Rejecting.description Rejecting.approval

end AppLedger.Sample
