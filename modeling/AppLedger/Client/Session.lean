import AppLedger.Client.Error
import AppLedger.Effect

/-! What the clients of one program share: the world with its node and its compiler, settings,
the programs that were compiled, and the events that were announced. -/

namespace AppLedger

inductive Event
  | compiled (name : String) (version : UInt8) (approval clear : CompiledProgram)
  | simulated (result : Simulation)

/-- The programs of a family of clients that were compiled so far. -/
structure ProgramCache where
  approval : Option CompiledProgram := none
  clear : Option CompiledProgram := none

/-- Events are announced where `debug` is set. Without a number of its own, an operation waits
`maxRounds` rounds. Families go by their numbers. -/
structure Session (σ : Type) where
  world : σ
  debug : Bool := false
  maxRounds : Nat := 4
  events : List Event := []
  caches : List ProgramCache := []

/-- The node and the compiler that clients work with. -/
structure Network (σ : Type) where
  node : Node σ
  compiler : Compiler σ

namespace Session

variable {ε σ α : Type}

def onWorld (x : Effect ε σ α) : Effect ε (Session σ) α :=
  x.onPart Session.world fun world s => { s with world }

def ask (x : Effect NodeError σ α) : Effect ClientError (Session σ) α :=
  (onWorld x).mapError ClientError.ofNode

def announce (event : Event) : Effect ε (Session σ) Unit := do
  if (← get).debug then modify fun s => { s with events := s.events ++ [event] }

def cache (s : Session σ) (family : Nat) : ProgramCache :=
  s.caches[family]?.getD {}

def setCache (s : Session σ) (family : Nat) (cache : ProgramCache) : Session σ :=
  { s with caches := s.caches.set family cache }

end Session

end AppLedger
