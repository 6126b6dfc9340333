import AppLedger.Proofs.Client.Attempts

/-! The two programs of a client, treated alike: each is kept once it was compiled. What an operation
of a client does besides is what it does through its programs. -/

namespace AppLedger

open Effect

inductive ProgramKind
  | approval
  | clear
  deriving DecidableEq

def Description.source (d : Description) : ProgramKind → String
  | .approval => d.approval
  | .clear => d.clear

namespace ProgramCache

def program? (cache : ProgramCache) : ProgramKind → Option CompiledProgram
  | .approval => cache.approval
  | .clear => cache.clear

def put (cache : ProgramCache) (program : CompiledProgram) : ProgramKind → ProgramCache
  | .approval => { cache with approval := some program }
  | .clear => { cache with clear := some program }

theorem program?_put (cache : ProgramCache) (program : CompiledProgram) (kind kind' : ProgramKind) :
    (cache.put program kind).program? kind' =
      if kind' = kind then some program else cache.program? kind' := by
  cases kind <;> cases kind' <;> rfl

end ProgramCache

/-- Whatever the node is asked for leaves a part of the world as it was. -/
structure Node.Leaves {σ τ : Type} (part : σ → τ) (node : Node σ) : Prop extends
    Node.Waits part node where
  params : Keeps part node.params
  application : ∀ app, Keeps part (node.application app)
  accountState : ∀ account app, Keeps part (node.accountState account app)
  submit : ∀ signed, Keeps part (node.submit signed)
  simulate : ∀ signed, Keeps part (node.simulate signed)

theorem Node.leaves_nothing {σ : Type} (node : Node σ) : node.Leaves fun _ => () where
  pending _ := fun _ => rfl
  lastRound := fun _ => rfl
  waitForBlock _ := fun _ => rfl
  params := fun _ => rfl
  application _ := fun _ => rfl
  accountState _ _ := fun _ => rfl
  submit _ := fun _ => rfl
  simulate _ := fun _ => rfl

namespace Session

variable {σ : Type} {s : Session σ} {family : Nat}

def kept (s : Session σ) (family : Nat) (kind : ProgramKind) : Option CompiledProgram :=
  (s.cache family).program? kind

def keep (family : Nat) (program : CompiledProgram) (kind : ProgramKind) (s : Session σ) :
    Session σ :=
  s.setCache family ((s.cache family).put program kind)

theorem kept_keep (h : family < s.caches.length) (program : CompiledProgram)
    (kind kind' : ProgramKind) :
    (s.keep family program kind).kept family kind' =
      if kind' = kind then some program else s.kept family kind' := by
  have hcache : (s.keep family program kind).cache family = (s.cache family).put program kind := by
    simp [keep, setCache, cache, h]
  rw [kept, hcache, ProgramCache.program?_put]
  rfl

theorem length_keep (program : CompiledProgram) (kind : ProgramKind) :
    (s.keep family program kind).caches.length = s.caches.length :=
  List.length_set

end Session

namespace Client

variable {σ τ α : Type} {net : Network σ} {c : Client} {kind : ProgramKind}

/-- A program of the client. Also yields whether it was compiled just now. -/
def program (net : Network σ) (c : Client) : ProgramKind → ClientEffect σ (CompiledProgram × Bool)
  | .approval => approvalProgram net c
  | .clear => clearProgram net c

theorem program_eq (net : Network σ) (c : Client) (kind : ProgramKind) :
    c.program net kind = get >>= fun s =>
      match s.kept c.family kind with
      | some program => pure (program, false)
      | none => do
        let program ← compileSource net c (c.app.source kind)
        modify (Session.keep c.family program kind)
        return (program, true) := by
  cases kind <;> rfl

/-- A program that is kept is at hand. Otherwise it is compiled, and kept if that succeeds. -/
theorem outcome_program (net : Network σ) (c : Client) (kind : ProgramKind) (s : Session σ) :
    (c.program net kind).outcome s =
      match s.kept c.family kind with
      | some program => (.ok (program, false), s)
      | none =>
        match (compileSource net c (c.app.source kind)).outcome s with
        | (.ok program, t) => (.ok (program, true), t.keep c.family program kind)
        | (.error why, t) => (.error why, t) := by
  rw [program_eq, outcome_bind, outcome_get]
  dsimp only
  split
  · rfl
  · rw [outcome_bind]
    rcases (compileSource net c (c.app.source kind)).outcome s with ⟨why | program, t⟩ <;> rfl

/-- The source is compiled with its version declared, and the answer is taken if its bytecode is for
that version. -/
theorem outcome_compileSource (net : Network σ) (c : Client) (source : String) (s : Session σ) :
    (compileSource net c source).outcome s =
      match Program.withPragma source c.app.version with
      | .error conflict => (.error (.compilation (.compiler (.pragma conflict))), s)
      | .ok full =>
        match (net.compiler.compile full c.app.version).outcome s.world with
        | (.error why, world) => (.error (.compilation (.compiler why)), { s with world })
        | (.ok program, world) =>
          (if program.bytecode.head? = some c.app.version then .ok program
            else .error (.compilation (.version program.bytecode.head? c.app.version)),
            { s with world }) := by
  rw [compileSource, outcome_bind, outcome_ofExcept]
  cases Program.withPragma source c.app.version with
  | error conflict => rfl
  | ok full =>
    dsimp only [Except.mapError]
    rw [outcome_bind, outcome_mapError, Session.onWorld, outcome_onPart]
    rcases (net.compiler.compile full c.app.version).outcome s.world with ⟨why | program, world⟩
    · rfl
    · dsimp only [Except.mapError]
      split <;> rfl

theorem keeps_caches_compileSource (net : Network σ) (c : Client) (source : String) :
    Keeps Session.caches (compileSource net c source) := by
  intro s
  rw [outcome_compileSource]
  cases Program.withPragma source c.app.version with
  | error conflict => rfl
  | ok full =>
    dsimp only
    rcases (net.compiler.compile full c.app.version).outcome s.world with ⟨why | program, world⟩ <;>
      rfl

/-! ## Through the programs alone -/

section Leads

variable {part : σ → τ} {rel : Session σ → Session σ → Prop}

theorem keeps_besides_withGroup (hnode : net.node.Leaves part) (g : AtomicGroup) (simulate : Bool)
    (maxRounds : Option Nat) :
    Keeps (Session.besides part) (withGroup g (sending net simulate maxRounds)) := by
  have hsending : Keeps (AtomicGroup.besides part) (sending net simulate maxRounds) := by
    cases simulate with
    | true => exact AtomicGroup.keeps_besides_simulate hnode.simulate
    | false => exact AtomicGroup.keeps_execute hnode.toWaits hnode.submit maxRounds
  exact fun s => hsending (g, s)

/-- What leaves alone the programs, what was announced of them and a part of the world does not
count. -/
def IgnoresBesides (part : σ → τ) (rel : Session σ → Session σ → Prop) : Prop :=
  ∀ s t : Session σ, t.besides part = s.besides part → rel s t

theorem IgnoresBesides.leads {ε : Type} (h : IgnoresBesides part rel)
    {x : Effect ε (Session σ) α} (hx : Keeps (Session.besides part) x) : Leads rel x :=
  hx.leads fun s t hsame => h s t hsame

theorem partsLead_of_programs (hrel : IgnoresBesides part rel)
    (htrans : ∀ {s t u}, rel s t → rel t u → rel s u) (hnode : net.node.Leaves part)
    (happroval : Leads rel (c.program net .approval)) (hcompile : Leads rel (c.compile net)) :
    PartsLead rel net c where
  refl s := hrel s s rfl
  trans := htrans
  params := hrel.leads (AtomicGroup.keeps_besides_onWorld hnode.params)
  application app := hrel.leads (AtomicGroup.keeps_besides_onWorld (hnode.application app))
  accountState account app :=
    hrel.leads (AtomicGroup.keeps_besides_onWorld (hnode.accountState account app))
  sending g simulate maxRounds := hrel.leads (keeps_besides_withGroup hnode g simulate maxRounds)
  approvalProgram := happroval
  compile := hcompile

end Leads

end Client

end AppLedger
