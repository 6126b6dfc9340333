import AppLedger.Proofs.Client.LedgerRun
import AppLedger.Proofs.Program.Stub

/-! The approval program of a client, compiled by a ledger: once the source can be compiled, every
client of the family goes on with the program of that source, whatever is done meanwhile. -/

namespace AppLedger.Client

open Effect Program

variable {c : Client} {s t : Session Ledger} {full : String} {α : Type} {o : CallOptions}

/-- What the family has of the approval program, and why the ledger would not compile it. -/
def prospect (c : Client) (s : Session Ledger) : Option CompiledProgram × Option String :=
  ((s.cache c.family).approval, s.world.faults.compilation)

/-- The approval program of the client is that of the source, or will be when it is compiled. -/
def Ready (c : Client) (full : String) (s : Session Ledger) : Prop :=
  (prospect c s).1 = some (Stub.compile full c.app.version) ∨ prospect c s = (none, none)

/-- The ledger has gone on by operations of its own, and the approval program is still in reach. -/
structure Onward (c : Client) (s t : Session Ledger) : Prop where
  reaches : Ledger.Reaches (fun _ => True) s.world t.world
  ready : ∀ full, withPragma c.app.approval c.app.version = .ok full →
    Ready c full s → Ready c full t

theorem Onward.refl (s : Session Ledger) : Onward c s s where
  reaches := .refl _
  ready _ _ h := h

theorem Onward.trans {u : Session Ledger} (h : Onward c s t) (h' : Onward c t u) : Onward c s u where
  reaches := h.reaches.trans h'.reaches
  ready full hfull hs := h'.ready full hfull (h.ready full hfull hs)

theorem leads_of_performs {x : ClientEffect Ledger α} {kind : LedgerOp → Prop}
    (h : Performs kind Session.world x) (hkept : Keeps (prospect c) x) : Leads (Onward c) x := by
  intro s
  refine ⟨h.mono (fun _ _ => trivial) s, fun full _ hs => ?_⟩
  rw [Ready, hkept s]
  exact hs

theorem leads_of_keeps {x : ClientEffect Ledger α} (h : Keeps id x) : Leads (Onward c) x :=
  h.leads fun s t hsame => by
    obtain rfl : t = s := hsame
    exact .refl t

theorem keeps_prospect_onWorld {ε : Type} {x : Effect ε Ledger α} (h : Keeps Ledger.faults x) :
    Keeps (prospect c) (Session.onWorld x) := by
  intro s
  have hfaults : ((Session.onWorld x).outcome s).2.world.faults = s.world.faults := h s.world
  rw [prospect, hfaults]
  rfl

/-! ## Compiling -/

theorem prospect_setCache {cache : ProgramCache} (h : cache.approval = (s.cache c.family).approval) :
    prospect c (s.setCache c.family cache) = prospect c s := by
  have happroval : ((s.setCache c.family cache).cache c.family).approval =
      (s.cache c.family).approval := by
    simp only [Session.setCache, Session.cache, List.getElem?_set_self'] at h ⊢
    cases hfamily : s.caches[c.family]? with
    | none => rfl
    | some before =>
      rw [hfamily] at h
      exact h
  rw [prospect, happroval]
  rfl

/-- What is put into the cache is found there, unless the family is unknown to the session. -/
theorem ready_setCache {cache : ProgramCache} (h : s.world.faults.compilation = none)
    (hcache : cache.approval = some (Stub.compile full c.app.version)) :
    Ready c full (s.setCache c.family cache) := by
  have hworld : (s.setCache c.family cache).world = s.world := rfl
  rw [Ready, prospect, hworld, h]
  simp only [Session.setCache, Session.cache, List.getElem?_set_self']
  cases s.caches[c.family]? with
  | none => exact .inr rfl
  | some before => exact .inl hcache

theorem keeps_faults_compiler (source : String) (version : UInt8) :
    Keeps Ledger.faults (Ledger.compiler.compile source version) := by
  intro l
  change (l.compile source version).2.faults = l.faults
  rw [Ledger.compile]
  split <;> rfl

theorem keeps_compileSource (source : String) :
    Keeps (prospect c) (compileSource (Ledger.network Ledger.compiler) c source) := by
  rw [compileSource]
  refine keeps_ofExcept.bind fun text => ?_
  refine (keeps_prospect_onWorld (keeps_faults_compiler text _)).mapError.bind fun compiled => ?_
  by_cases hversion : compiled.bytecode.head? = some c.app.version
  · simp only [if_pos hversion]
    exact keeps_pure
  · simp only [if_neg hversion]
    exact keeps_throw

/-- The source is compiled where the ledger is not set to refuse it. -/
theorem yields_compileSource (hfull : withPragma c.app.approval c.app.version = .ok full)
    (h : s.world.faults.compilation = none) :
    Yields (compileSource (Ledger.network Ledger.compiler) c c.app.approval) s
      (Stub.compile full c.app.version)
      { s with world := s.world.rememberSource full c.app.version } := by
  have hcompile : s.world.compile full c.app.version =
      (.ok (Stub.compile full c.app.version), s.world.rememberSource full c.app.version) := by
    rw [Ledger.compile, h]
  have hversion : (Stub.compile full c.app.version).bytecode.head? = some c.app.version := by
    have hcode : (Stub.compile full c.app.version).bytecode = Stub.bytecode full c.app.version := rfl
    rw [hcode, Stub.bytecode_full hfull, Stub.bytecode_of_withPragma hfull]
    rfl
  refine yields_ofExcept_bind.mpr ⟨full, by rw [hfull]; rfl, ?_⟩
  refine yields_bind.mpr ⟨Stub.compile full c.app.version,
    { s with world := s.world.rememberSource full c.app.version }, ?_, ?_⟩
  · have hanswer : ((Ledger.network Ledger.compiler).compiler.compile full c.app.version).outcome
        s.world = (.ok (Stub.compile full c.app.version),
          s.world.rememberSource full c.app.version) := hcompile
    rw [Yields, outcome_mapError, Session.onWorld, outcome_onPart, hanswer]
    rfl
  · simp only [if_pos hversion]
    exact yields_pure.mpr ⟨rfl, rfl⟩

/-- From the compiled program or from the source, a client has its program. -/
theorem yields_approvalProgram (hfull : withPragma c.app.approval c.app.version = .ok full)
    (h : Ready c full s) :
    ∃ fresh t, Yields (approvalProgram (Ledger.network Ledger.compiler) c) s
      (Stub.compile full c.app.version, fresh) t ∧ Ready c full t := by
  rw [approvalProgram]
  rcases h with hcached | hopen
  · refine ⟨false, s, yields_bind.mpr ⟨s, s, rfl, ?_⟩, .inl hcached⟩
    have happroval : (s.cache c.family).approval = some (Stub.compile full c.app.version) := hcached
    rw [happroval]
    exact yields_pure.mpr ⟨rfl, rfl⟩
  · obtain ⟨happroval, hfaults⟩ := Prod.mk.inj hopen
    let u : Session Ledger := { s with world := s.world.rememberSource full c.app.version }
    let program := Stub.compile full c.app.version
    let t := u.setCache c.family { u.cache c.family with approval := some program }
    refine ⟨true, t, yields_bind.mpr ⟨s, s, rfl, ?_⟩, ready_setCache hfaults rfl⟩
    rw [happroval]
    refine yields_bind.mpr ⟨program, u, yields_compileSource hfull hfaults, ?_⟩
    exact yields_bind.mpr ⟨(), t, rfl, yields_pure.mpr ⟨rfl, rfl⟩⟩

theorem leads_approvalProgram :
    Leads (Onward c) (approvalProgram (Ledger.network Ledger.compiler) c) := by
  intro s
  refine ⟨performs_approvalProgram.mono (fun _ _ => trivial) s, fun full hfull hs => ?_⟩
  obtain ⟨fresh, t, hyields, ht⟩ := yields_approvalProgram hfull hs
  rw [hyields]
  exact ht

theorem keeps_clearProgram :
    Keeps (prospect c) (clearProgram (Ledger.network Ledger.compiler) c) := by
  rw [clearProgram]
  refine keeps_get.bind fun s => ?_
  cases (s.cache c.family).clear with
  | some program => exact keeps_pure
  | none =>
    refine (keeps_compileSource c.app.clear).bind fun program => Keeps.bind ?_ fun _ => keeps_pure
    exact fun s => prospect_setCache rfl

theorem leads_compile : Leads (Onward c) (c.compile (Ledger.network Ledger.compiler)) := by
  rw [compile]
  refine leads_approvalProgram.bind .trans fun ⟨approval, newApproval⟩ => ?_
  refine (leads_of_performs performs_clearProgram keeps_clearProgram).bind .trans
    fun ⟨clear, newClear⟩ => ?_
  by_cases hnew : (newApproval || newClear) = true
  · simp only [if_pos hnew]
    let event := Event.compiled c.app.name c.app.version approval clear
    have hworld : Performs LedgerOp.IsCompile Session.world
        (Session.announce event : ClientEffect Ledger Unit) :=
      .of_keeps (keeps_announce fun _ => rfl)
    refine (leads_of_performs hworld (keeps_announce fun _ => rfl)).bind .trans fun _ => ?_
    exact leads_of_keeps keeps_pure
  · simp only [if_neg hnew]
    exact leads_of_keeps keeps_pure

/-! ## Sending -/

/-- How the ledger fails, and the programs that it knows. -/
def setup (l : Ledger) : Faults × ProgramTable :=
  (l.faults, l.programs)

theorem keeps_setup_submit (signed : List SignedTransaction) :
    Keeps setup (Ledger.node.submit signed) := by
  intro l
  change setup (l.submit signed).2 = setup l
  obtain ⟨why, hsubmit, -⟩ | ⟨e, -, ⟨-, hsubmit⟩ | ⟨-, hsubmit⟩⟩ := Ledger.submit_cases l signed
  all_goals
    rw [hsubmit]
    rfl

theorem waits_setup : Ledger.node.Waits setup where
  pending _ := keeps_read
  lastRound := keeps_read
  waitForBlock _ := fun _ => rfl

theorem keeps_besides_sending (simulate : Bool) (maxRounds : Option Nat) :
    Keeps (AtomicGroup.besides setup)
      (sending (Ledger.network Ledger.compiler) simulate maxRounds) := by
  cases simulate with
  | true => exact AtomicGroup.keeps_besides_simulate fun _ => keeps_read
  | false => exact AtomicGroup.keeps_execute waits_setup keeps_setup_submit maxRounds

theorem leads_sending (g : AtomicGroup) (simulate : Bool) (maxRounds : Option Nat) :
    Leads (Onward c)
      (withGroup g (sending (Ledger.network Ledger.compiler) simulate maxRounds)) := by
  refine leads_of_performs (performs_sending simulate maxRounds).withGroup fun s => ?_
  obtain ⟨hown, hsetup⟩ := Prod.mk.inj (keeps_besides_sending simulate maxRounds (g, s))
  obtain ⟨hcaches, -⟩ := Prod.mk.inj hown
  obtain ⟨hfaults, -⟩ := Prod.mk.inj hsetup
  rw [outcome_withGroup, prospect, Session.cache, hcaches, hfaults]
  rfl

theorem partsLead_onward : PartsLead (Onward c) (Ledger.network Ledger.compiler) c where
  refl := .refl
  trans := .trans
  params := .refl
  application _ := .refl
  accountState _ _ := .refl
  sending := leads_sending
  approvalProgram := leads_approvalProgram
  compile := leads_compile

/-- Whatever a client does leaves its approval program in reach. -/
theorem leads_alongside {σ : Type} {net' : Network σ} {Sent : AtomicGroup → Prop}
    {x : ClientEffect Ledger α} {x' : ClientEffect σ α}
    (h : Alongside (Ledger.network Ledger.compiler) net' c Sent x x') : Leads (Onward c) x :=
  partsLead_onward.alongside h

end AppLedger.Client
