import AppLedger.Proofs.Client.CompilationLog
import AppLedger.Proofs.Client.Family

/-! A program that is registered with a ledger is the one that the ledger runs for an application of
the same source: the client, the compiler of the ledger, and the registration each make sure that the
source declares its version, and come to the same bytecode. -/

namespace AppLedger

open Effect Program

def LedgerOp.registered? (code : Bytes) : LedgerOp → Option ApprovalProgram
  | .register source version program =>
    if Stub.bytecode source version = code then some program else none
  | _ => none

/-- The program for the code after the operations: the one that was given last. -/
def lastRegistered? (code : Bytes) (before : Option ApprovalProgram) (ops : List LedgerOp) :
    Option ApprovalProgram :=
  ops.foldl (fun program op => (op.registered? code).or program) before

theorem isSome_lastRegistered {code : Bytes} {before : Option ApprovalProgram}
    {ops : List LedgerOp} (h : before.isSome ∨ ∃ op ∈ ops, (op.registered? code).isSome) :
    (lastRegistered? code before ops).isSome := by
  induction ops generalizing before with
  | nil =>
    obtain h | ⟨op, hmem, -⟩ := h
    · exact h
    · exact absurd hmem List.not_mem_nil
  | cons op ops ih =>
    refine ih ?_
    rw [Option.isSome_or, Bool.or_eq_true]
    obtain h | ⟨op', hmem, h⟩ := h
    · exact .inl (.inr h)
    · rcases List.mem_cons.mp hmem with rfl | hmem
      · exact .inl (.inl h)
      · exact .inr ⟨op', hmem, h⟩

namespace Ledger

theorem approval_perform (l : Ledger) (op : LedgerOp) (code : Bytes) :
    (l.perform op).programs.approvals.get? code =
      (op.registered? code).or (l.programs.approvals.get? code) := by
  cases op with
  | register source version program =>
    have hput : (l.perform (.register source version program)).programs.approvals =
        l.programs.approvals.put (Stub.bytecode source version) program := rfl
    rw [hput, Table.get?_put, LedgerOp.registered?]
    split <;> rfl
  | submit signed =>
    obtain ⟨why, hsubmit, -⟩ | ⟨e, -, ⟨-, hsubmit⟩ | ⟨-, hsubmit⟩⟩ := submit_cases l signed
    all_goals
      rw [perform_submit, hsubmit]
      rfl
  | compile source version =>
    rw [perform_compile, compile]
    split <;> rfl
  | simulate | waitForBlock | fund | setFaults => rfl

theorem approval_run (l : Ledger) (ops : List LedgerOp) (code : Bytes) :
    (l.run ops).programs.approvals.get? code =
      lastRegistered? code (l.programs.approvals.get? code) ops := by
  induction ops generalizing l with
  | nil => rfl
  | cons op ops ih =>
    rw [run_cons, ih, approval_perform]
    rfl

theorem leaves_approvals : Ledger.node.Leaves fun l => l.programs.approvals where
  pending _ := keeps_read
  lastRound := keeps_read
  waitForBlock _ := fun _ => rfl
  params := keeps_read
  application _ := keeps_read
  accountState _ _ := keeps_read
  submit signed l :=
    congrArg ProgramTable.approvals (Prod.mk.inj (Client.keeps_setup_submit signed l)).2
  simulate _ := keeps_read

end Ledger

namespace Client

variable {c : Client} {kind : ProgramKind} {family : Nat} {d : Description} {s t : Session Ledger}

theorem ignoresBesides_approvals : IgnoresBesides (fun l => l.programs.approvals)
    fun s t : Session Ledger => t.world.programs.approvals = s.world.programs.approvals :=
  fun _ _ hsame => (Prod.mk.inj hsame).2

theorem keeps_approvals_compileSource (c : Client) (source : String) :
    Keeps (fun s : Session Ledger => s.world.programs.approvals)
      (compileSource (Ledger.network Ledger.compiler) c source) := by
  have hcompile (full : String) (version : UInt8) :
      Keeps (fun l : Ledger => l.programs.approvals) (Ledger.compiler.compile full version) := by
    intro l
    change (l.compile full version).2.programs.approvals = l.programs.approvals
    rw [Ledger.compile]
    split <;> rfl
  refine keeps_ofExcept.bind fun full => (keeps_onWorld (hcompile full _)).mapError.bind fun r => ?_
  split
  · exact keeps_pure
  · exact keeps_throw

theorem keeps_approvals_program (c : Client) (kind : ProgramKind) :
    Keeps (fun s : Session Ledger => s.world.programs.approvals)
      (c.program (Ledger.network Ledger.compiler) kind) := by
  rw [program_eq]
  refine keeps_get.bind fun s => ?_
  cases s.kept c.family kind with
  | some program => exact keeps_pure
  | none =>
    refine (keeps_approvals_compileSource c (c.app.source kind)).bind fun program => ?_
    exact Keeps.bind (fun _ => rfl) fun _ => keeps_pure

theorem keeps_approvals_compile (c : Client) :
    Keeps (fun s : Session Ledger => s.world.programs.approvals)
      (c.compile (Ledger.network Ledger.compiler)) := by
  rw [compile_eq]
  refine (keeps_approvals_program c .approval).bind fun approval => ?_
  refine (keeps_approvals_program c .clear).bind fun clear => fun s => ?_
  rw [outcome_concludeCompilation]
  dsimp only
  split <;> rfl

/-- No step of a client changes which programs are registered. -/
theorem approvals_step (c : Client) (x : Step) :
    Leads (fun s t : Session Ledger => t.world.programs.approvals = s.world.programs.approvals)
      (x.perform (Ledger.network Ledger.compiler) c) := by
  refine leads_step ignoresBesides_approvals ?_ Ledger.leaves_approvals (keeps_approvals_program c)
    (keeps_approvals_compile c) x
  exact fun h h' => h'.trans h

/-! ## What a family has compiled -/

/-- What the family has compiled is the code that stands for its sources. -/
structure HoldsStubs (family : Nat) (d : Description) (s : Session Ledger) : Prop where
  known : family < s.caches.length
  bytecode : ∀ kind program, s.kept family kind = some program →
    program.bytecode = Stub.bytecode (d.source kind) d.version

theorem HoldsStubs.of_same (h : HoldsStubs family d s) (hcaches : t.caches = s.caches) :
    HoldsStubs family d t where
  known := hcaches ▸ h.known
  bytecode kind program hkept := by
    rw [Session.kept, Session.cache, hcaches] at hkept
    exact h.bytecode kind program hkept

/-- Compiled with its version declared or without it, the source comes to the same code. -/
theorem bytecode_of_compileSource {source : String} {program : CompiledProgram}
    (h : Yields (compileSource (Ledger.network Ledger.compiler) c source) s program t) :
    program.bytecode = Stub.bytecode source c.app.version := by
  rw [Yields, outcome_compileSource] at h
  cases hfull : withPragma source c.app.version with
  | error conflict =>
    rw [hfull] at h
    cases (Prod.mk.inj h).1
  | ok full =>
    have hanswer : ((Ledger.network Ledger.compiler).compiler.compile full c.app.version).outcome
      s.world = s.world.compile full c.app.version := rfl
    simp only [hfull, hanswer, Ledger.compile] at h
    cases hfault : s.world.faults.compilation with
    | some diagnostic =>
      simp only [hfault] at h
      cases (Prod.mk.inj h).1
    | none =>
      simp only [hfault] at h
      split at h
      · obtain ⟨hyielded, -⟩ := Prod.mk.inj h
        obtain rfl := Except.ok.inj hyielded
        exact Stub.bytecode_full hfull
      · cases (Prod.mk.inj h).1

theorem bytecode_of_program {program : CompiledProgram} {fresh : Bool}
    (hs : HoldsStubs c.family c.app s)
    (h : Yields (c.program (Ledger.network Ledger.compiler) kind) s (program, fresh) t) :
    program.bytecode = Stub.bytecode (c.app.source kind) c.app.version := by
  rw [Yields, outcome_program] at h
  cases hkept : s.kept c.family kind with
  | some before =>
    simp only [hkept] at h
    obtain ⟨rfl, -⟩ := Prod.mk.inj (Except.ok.inj (Prod.mk.inj h).1)
    exact hs.bytecode kind before hkept
  | none =>
    simp only [hkept] at h
    rcases hrun : (compileSource (Ledger.network Ledger.compiler) c (c.app.source kind)).outcome s with
      ⟨why | compiled, u⟩
    all_goals rw [hrun] at h
    · cases (Prod.mk.inj h).1
    · obtain ⟨rfl, -⟩ := Prod.mk.inj (Except.ok.inj (Prod.mk.inj h).1)
      exact bytecode_of_compileSource hrun

def GoesOnHolding (family : Nat) (d : Description) (s t : Session Ledger) : Prop :=
  HoldsStubs family d s → HoldsStubs family d t

theorem ignoresBesides_goesOnHolding :
    IgnoresBesides (fun _ => ()) (GoesOnHolding family d) := by
  intro s t hsame h
  obtain ⟨hown, -⟩ := Prod.mk.inj hsame
  exact h.of_same (Prod.mk.inj hown).1

theorem holdsStubs_program (c : Client) (kind : ProgramKind) :
    Leads (GoesOnHolding c.family c.app) (c.program (Ledger.network Ledger.compiler) kind) := by
  intro s h
  rw [outcome_program]
  cases hkept : s.kept c.family kind with
  | some before => exact h
  | none =>
    dsimp only
    have hcaches := keeps_caches_compileSource (Ledger.network Ledger.compiler) c
      (c.app.source kind) s
    rcases hrun : (compileSource (Ledger.network Ledger.compiler) c (c.app.source kind)).outcome s with
      ⟨why | program, t⟩
    all_goals rw [hrun] at hcaches
    · exact h.of_same hcaches
    · have ht : HoldsStubs c.family c.app t := h.of_same hcaches
      refine ⟨(Session.length_keep program kind).symm ▸ ht.known, fun kind' program' hkept' => ?_⟩
      rw [Session.kept_keep ht.known] at hkept'
      split at hkept'
      · next hkind =>
        obtain rfl := Option.some.inj hkept'
        rw [hkind]
        exact bytecode_of_compileSource hrun
      · exact ht.bytecode kind' program' hkept'

theorem holdsStubs_compile (c : Client) :
    Leads (GoesOnHolding c.family c.app) (c.compile (Ledger.network Ledger.compiler)) := by
  rw [compile_eq]
  refine Leads.bind ?_ (holdsStubs_program c .approval) fun approval =>
    Leads.bind ?_ (holdsStubs_program c .clear) fun clear s h => ?_
  · exact fun h h' hs => h' (h hs)
  · exact fun h h' hs => h' (h hs)
  · rw [outcome_concludeCompilation]
    dsimp only
    split <;> exact h.of_same rfl

/-- The client has the code that its sources stand for, whether they are compiled now or before. -/
theorem bytecodes_of_compile {programs : Bytes × Bytes} (hs : HoldsStubs c.family c.app s)
    (h : Yields (c.compile (Ledger.network Ledger.compiler)) s programs t) :
    programs = (Stub.bytecode (c.app.source .approval) c.app.version,
      Stub.bytecode (c.app.source .clear) c.app.version) := by
  rw [compile_eq] at h
  obtain ⟨⟨approval, newApproval⟩, u, hfirst, h⟩ := yields_bind.mp h
  obtain ⟨⟨clear, newClear⟩, v, hsecond, h⟩ := yields_bind.mp h
  have hu := holdsStubs_program c .approval s hs
  rw [hfirst] at hu
  rw [Yields, outcome_concludeCompilation] at h
  rw [← Except.ok.inj (Prod.mk.inj h).1, bytecode_of_program hs hfirst, bytecode_of_program hu hsecond]

/-- A created application has the approval program that the description's source stands for. -/
theorem approval_of_create {pages : Option UInt64} {o : CallOptions} {r : Creation} {c' : Client}
    (hs : HoldsStubs c.family c.app s)
    (h : Yields (c.create (Ledger.network Ledger.compiler) pages o) s (r, c') t) :
    ∃ record, t.world.state.apps.get? r.app = some record ∧
      record.approval = Stub.bytecode c.app.approval c.app.version := by
  obtain ⟨-, -, -, -, ⟨approval, clear, u, record, hcompile, hrecord, hdeploys⟩, -⟩ :=
    create_yields h
  refine ⟨record, hrecord, ?_⟩
  rw [hdeploys.approval]
  exact (Prod.mk.inj (bytecodes_of_compile hs hcompile)).1

theorem approvals_of_create {pages : Option UInt64} {o : CallOptions} {r : Creation} {c' : Client}
    (h : Yields (c.create (Ledger.network Ledger.compiler) pages o) s (r, c') t) :
    t.world.programs.approvals = s.world.programs.approvals := by
  have hstep : Yields ((Step.operation (.create pages o)).perform
      (Ledger.network Ledger.compiler) c) s c' t :=
    yields_bind.mpr ⟨(r, c'), t, h, yields_pure.mpr ⟨rfl, rfl⟩⟩
  have hsame := approvals_step c (.operation (.create pages o)) s
  rwa [hstep] at hsame

theorem holdsStubs_step (c : Client) (x : Step) :
    Leads (GoesOnHolding c.family c.app) (x.perform (Ledger.network Ledger.compiler) c) := by
  refine leads_step ignoresBesides_goesOnHolding ?_ (Node.leaves_nothing _) (holdsStubs_program c)
    (holdsStubs_compile c) x
  exact fun h h' hs => h' (h hs)

end Client

namespace Family

open Client

variable {p : Family Ledger} {d : Description} {family : Nat} {ops : List (FamilyOp LedgerOp)}

theorem approval_run (h : ∀ c ∈ p.clients, c.IsOf family d) (code : Bytes) :
    (p.run (Ledger.network Ledger.compiler) (fun op l => l.perform op)
        ops).session.world.programs.approvals.get? code =
      lastRegistered? code (p.session.world.programs.approvals.get? code)
        (ops.filterMap FamilyOp.other?) := by
  induction ops generalizing p with
  | nil => rfl
  | cons op ops ih =>
    refine (ih (isOf_perform h op)).trans ?_
    cases op with
    | prepare | setDebug => rfl
    | others op =>
      refine congrArg (fun before => lastRegistered? code before (ops.filterMap FamilyOp.other?)) ?_
      exact Ledger.approval_perform p.session.world op code
    | step place x =>
      refine congrArg (fun before => lastRegistered? code before (ops.filterMap FamilyOp.other?)) ?_
      rw [perform]
      cases p.clients[place]? with
      | none => rfl
      | some c =>
        have hsame := approvals_step c x p.session
        dsimp only
        rcases hrun : (x.perform (Ledger.network Ledger.compiler) c).outcome p.session with
          ⟨why | c', s'⟩
        all_goals
          rw [hrun] at hsame
          exact congrArg (fun t => t.get? code) hsame

theorem holdsStubs_run (h : ∀ c ∈ p.clients, c.IsOf family d)
    (hp : HoldsStubs family d p.session) : HoldsStubs family d
      (p.run (Ledger.network Ledger.compiler) (fun op l => l.perform op) ops).session := by
  have hlead : GoesOnHolding family d p.session
      (p.run (Ledger.network Ledger.compiler) (fun op l => l.perform op) ops).session := by
    refine leads_run (fun s debug h => h.of_same rfl) (fun h h' hs => h' (h hs))
      (fun c hc x => ?_) h fun op _ s h => h.of_same rfl
    obtain ⟨rfl, rfl⟩ := hc
    exact holdsStubs_step c x
  exact hlead hp

theorem holdsStubs_start (app : Description) (signer : Option SignerHandle) (sender : Option Address)
    (appId : UInt64) (params : Option NetworkParams) (s : Session Ledger) :
    HoldsStubs s.caches.length app (start app signer sender appId params s).session where
  known := known_start app signer sender appId params s
  bytecode kind _ hkept :=
    absurd ((kept_start app signer sender appId params s kind).symm.trans hkept) nofun

/-- A source and the same source with its version declared stand for one bytecode, which begins with
the version. Therefore an application that a client creates has for its approval program what a
registration of the client's description gives a program to, before the creation or after it. Of all
the programs that are registered for it, the ledger has the last one. -/
theorem registered_creation (app : Description) (signer : Option SignerHandle)
    (sender : Option Address) (appId : UInt64) (params : Option NetworkParams) (s : Session Ledger)
    (ops : List (FamilyOp LedgerOp)) :
    (∀ source version full, withPragma source version = .ok full →
      source.toList <:+ full.toList ∧ declaredVersion full = some version ∧
        withPragma full version = .ok full ∧
        Stub.bytecode source version = Stub.bytecode full version ∧
        (Stub.bytecode source version).head? = some version) ∧
    let net := Ledger.network Ledger.compiler
    let p := (start app signer sender appId params s).run net (fun op l => l.perform op) ops
    ∀ c ∈ p.clients, ∀ pages o r c' t, Yields (c.create net pages o) p.session (r, c') t →
      ∃ record, t.world.state.apps.get? r.app = some record ∧
        record.approval = Stub.bytecode app.approval app.version ∧
        ∀ later, let registered := ops.filterMap FamilyOp.other? ++ later
          let program? := (t.world.run later).programs.approvals.get? record.approval
          program? = lastRegistered? record.approval
              (s.world.programs.approvals.get? record.approval) registered ∧
            ((∃ program, .register app.approval app.version program ∈ registered) →
              program?.isSome) := by
  refine ⟨fun source version full hfull => ?_, ?_⟩
  · have hdeclared := declared_of_withPragma hfull
    refine ⟨suffix_of_withPragma hfull, hdeclared, withPragma_of_declared hdeclared,
      (Stub.bytecode_full hfull).symm, ?_⟩
    rw [Stub.bytecode_of_withPragma hfull]
    rfl
  intro net p c hc pages o r c' t hcreate
  have hof := isOf_start app signer sender appId params s
  obtain ⟨hfamily, happ⟩ := isOf_run hof ops c hc
  have hheld : HoldsStubs c.family c.app p.session := by
    rw [hfamily, happ]
    exact holdsStubs_run hof (holdsStubs_start app signer sender appId params s)
  obtain ⟨record, hrecord, hcode⟩ := approval_of_create hheld hcreate
  rw [happ] at hcode
  have hcreated := approvals_of_create hcreate
  refine ⟨record, hrecord, hcode, ?_⟩
  intro later registered program?
  have hprogram : program? = lastRegistered? record.approval
      (s.world.programs.approvals.get? record.approval) registered := by
    have hrun : p.session.world.programs.approvals.get? record.approval =
        lastRegistered? record.approval (s.world.programs.approvals.get? record.approval)
          (ops.filterMap FamilyOp.other?) := approval_run hof record.approval
    refine (Ledger.approval_run t.world later record.approval).trans ?_
    rw [hcreated, hrun, lastRegistered?, lastRegistered?, ← List.foldl_append]
    rfl
  refine ⟨hprogram, fun hregistered => ?_⟩
  obtain ⟨program, hmem⟩ := hregistered
  rw [hprogram]
  refine isSome_lastRegistered (.inr ⟨_, hmem, ?_⟩)
  rw [LedgerOp.registered?, if_pos hcode.symm]
  rfl

/-- The program is registered for a source that does not declare its version. -/
theorem registered_creation_counter :
    let net := Ledger.network Ledger.compiler
    let app := counterClient.app
    let approval := LedgerOp.register app.approval app.version fun _ => .ok {}
    let p := (start app counterClient.signer none 0 none { world := {} }).run net
      (fun op l => l.perform op) [.others approval]
    ∃ c ∈ p.clients, ∃ r c' t record, Yields (c.create net none {}) p.session (r, c') t ∧
      t.world.state.apps.get? r.app = some record ∧
      (t.world.programs.approvals.get? record.approval).isSome ∧
      record.approval.head? = some 8 := by
  intro net app approval p
  let c : Client := { app, family := 0, signer := counterClient.signer }
  have hmem : c ∈ p.clients := List.mem_singleton_self c
  have hcreated : ((c.create net none {}).outcome p.session).1.toOption.isSome = true := by
    decide +kernel
  have hfull : (withPragma app.approval app.version).toOption = some "#pragma version 8\nint 1" := by
    decide +kernel
  rcases hrun : (c.create net none {}).outcome p.session with ⟨why | ⟨r, c'⟩, t⟩
  · rw [hrun] at hcreated
    cases hcreated
  · obtain ⟨hsource, hregistered⟩ := registered_creation app counterClient.signer none 0 none
      { world := {} } [.others approval]
    obtain ⟨record, hrecord, hcode, hlater⟩ := hregistered c hmem none {} r c' t hrun
    refine ⟨c, hmem, r, c', t, record, hrun, hrecord, (hlater []).2 ⟨_, List.mem_singleton_self _⟩, ?_⟩
    cases hpragma : withPragma app.approval app.version with
    | error conflict =>
      rw [hpragma] at hfull
      cases hfull
    | ok full =>
      obtain ⟨-, -, -, -, hhead⟩ := hsource _ _ _ hpragma
      rw [hcode]
      exact hhead

end Family

end AppLedger
