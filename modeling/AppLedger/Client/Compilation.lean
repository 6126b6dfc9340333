import AppLedger.Client

/-! The compiled programs of a client. Each program is compiled when it is first needed, and kept
for all clients of the family. -/

namespace AppLedger.Client

variable {σ : Type}

/-- The program is to be for the version that the description names. -/
def compileSource (net : Network σ) (c : Client) (source : String) :
    ClientEffect σ CompiledProgram := do
  let version := c.app.version
  let source ← Effect.ofExcept ((Program.withPragma source version).mapError fun conflict =>
    .compilation (.compiler (.pragma conflict)))
  let compiled ← (Session.onWorld (net.compiler.compile source version)).mapError fun why =>
    ClientError.compilation (.compiler why)
  if compiled.bytecode.head? = some version then return compiled
  else throw (.compilation (.version compiled.bytecode.head? version))

/-- The approval program. Also yields whether it was compiled just now. -/
def approvalProgram (net : Network σ) (c : Client) : ClientEffect σ (CompiledProgram × Bool) := do
  match ((← get).cache c.family).approval with
  | some program => return (program, false)
  | none =>
    let program ← compileSource net c c.app.approval
    modify fun s => s.setCache c.family { s.cache c.family with approval := some program }
    return (program, true)

def clearProgram (net : Network σ) (c : Client) : ClientEffect σ (CompiledProgram × Bool) := do
  match ((← get).cache c.family).clear with
  | some program => return (program, false)
  | none =>
    let program ← compileSource net c c.app.clear
    modify fun s => s.setCache c.family { s.cache c.family with clear := some program }
    return (program, true)

/-- Both programs. What was compiled just now is announced. -/
def compile (net : Network σ) (c : Client) : ClientEffect σ (Bytes × Bytes) := do
  let (approval, newApproval) ← approvalProgram net c
  let (clear, newClear) ← clearProgram net c
  if newApproval || newClear then
    Session.announce (.compiled c.app.name c.app.version approval clear)
  return (approval.bytecode, clear.bytecode)

end AppLedger.Client
