import AppLedger.Ledger.Approval

/-! Approval programs that are given by rules. The first rule that fits a call decides what the
program does; without one, the program accepts the call. -/

namespace AppLedger.Sample

/-- The value that a call returns: a fixed one, or one of its arguments. -/
inductive Answer
  | fixed (ty : Abi.Ty) (v : Abi.Value)
  | echo (ty : Abi.Ty) (index : Nat)

/-- A condition that is not given holds of every call. -/
structure Rule where
  create : Option Bool := none
  method : Option String := none
  onComplete : Option OnComplete := none
  reject : Option String := none
  answer : Option Answer := none
  logs : List Bytes := []
  /-- Whether the program logs what it sees. -/
  logRequest : Bool := false
  setGlobal : List (String × StateValue) := []
  setLocal : List (String × StateValue) := []

namespace Rule

def fits (rule : Rule) (r : ApprovalRequest) : Bool :=
  rule.create.all (· = r.isCreate) && rule.method.all r.isMethod &&
    rule.onComplete.all (· = r.onComplete)

def idsText (ids : List UInt64) : String :=
  "[" ++ ", ".intercalate (ids.map fun id => toString id.toNat) ++ "]"

def localsText (r : ApprovalRequest) : String :=
  r.localState.elim "-1" fun state => toString state.size

/-- What a program sees, in one line. -/
def requestText (r : ApprovalRequest) : String :=
  s!"app={r.app.toNat} on={r.onComplete} args={r.args.length} accounts={r.accounts.length} " ++
    s!"apps={idsText r.apps} assets={idsText r.assets} index={r.index}/{r.group.length} " ++
    s!"globals={r.globalState.size} locals={localsText r} previous={r.previous?.isSome}"

def answerEffects (rule : Rule) (r : ApprovalRequest) : Except String ApprovalEffects :=
  match rule.answer with
  | some (.fixed ty v) => ApprovalEffects.returning ty v
  | some (.echo ty index) => (r.arg index ty).bind (ApprovalEffects.returning ty)
  | none => .ok {}

def effects (rule : Rule) (r : ApprovalRequest) : Except String ApprovalEffects :=
  match rule.reject with
  | some reason => .error reason
  | none => do
    let e ← rule.answerEffects r
    let e := rule.logs.foldl (·.log ·) e
    let e := if rule.logRequest then e.log (Bytes.ofText (requestText r)) else e
    let e := rule.setGlobal.foldl (fun e entry => e.setGlobal entry.1 entry.2) e
    return rule.setLocal.foldl (fun e entry => e.setLocal entry.1 entry.2) e

end Rule

def scripted (rules : List Rule) : ApprovalProgram := fun r =>
  match rules.find? (·.fits r) with
  | some rule => rule.effects r
  | none => .ok {}

end AppLedger.Sample
