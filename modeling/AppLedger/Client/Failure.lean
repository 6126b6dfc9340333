import AppLedger.Client.Compilation
import AppLedger.LogicError.Report

/-! The failures of an application's approval program, located in its source. -/

namespace AppLedger.Client

variable {σ : Type}

/-- How many lines are shown before and after the line that failed. -/
def listingContext : Nat := 3

/-- The line of a program counter, counted from one, and the lines around it. -/
def locate? (c : Client) (program : CompiledProgram) (pc : Nat) : Option (Nat × List String) :=
  match program.lines?, Program.withPragma c.app.approval c.app.version with
  | some (.ok map), .ok source =>
    (map.line? pc).map fun line =>
      (line + 1, LogicError.listingAround source (line + 1) listingContext)
  | _, _ => none

/-- Where the approval program is at a program counter. Absent where it cannot be compiled or has
no source map. -/
def approvalLine (net : Network σ) (c : Client) (pc : Nat) :
    ClientEffect σ (Option (Nat × List String)) := do
  match ← (approvalProgram net c).observe with
  | .ok (program, _) => return c.locate? program pc
  | .error _ => return none

/-- Whether a report is about another application than that of the client. -/
def isForeign (c : Client) (report : LogicError.Report) : Bool :=
  c.appId ≠ 0 && report.app.any (· ≠ c.appId.toNat)

/-- Recognises a failure of the client's application among the errors of a submission. -/
def explain (net : Network σ) (c : Client) : ClientError → ClientEffect σ ClientError
  | .submission reason => do
    match LogicError.Report.ofText? reason with
    | none => return .submission reason
    | some report =>
      if c.isForeign report then return .submission reason
      let place ← approvalLine net c report.pc
      return .logic { reason, transaction := some report.transaction, pc := some report.pc,
                      line := place.map Prod.fst, listing := place.elim [] Prod.snd }
  | why => return why

end AppLedger.Client
