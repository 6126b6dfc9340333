import AppLedger.Proofs.Client.CompilationLog
import AppLedger.Proofs.Client.Family

/-! The clients of a family compile each of their programs at most once. What failed is tried again
by whatever needs the program next, and what succeeded stands for good. -/

namespace AppLedger

open Effect

namespace Client

variable {σ α : Type} {net : Network σ} {c : Client} {kind : ProgramKind} {full : String}

/-- The programs that a step needs whatever else happens, in the order in which it needs them. -/
def Step.uses (c : Client) : Step → List ProgramKind
  | .program kind => [kind]
  | .compile => [.approval, .clear]
  | .locate _ => [.approval]
  | .operation (.create _ _) => if c.appId = 0 then [.approval, .clear] else []
  | .operation (.update _) => if c.appId = 0 then [] else [.approval, .clear]
  | .operation _ => []

/-- The first of the programs that is not kept. -/
def missing? (s : Session σ) (family : Nat) (kinds : List ProgramKind) : Option ProgramKind :=
  kinds.find? fun kind => (s.kept family kind).isNone

theorem kept_of_missing {s : Session σ} {family : Nat} {kinds : List ProgramKind}
    (h : missing? s family kinds = some kind) : s.kept family kind = none := by
  exact Option.isNone_iff_eq_none.mp
    (List.find?_some (p := fun kind => (s.kept family kind).isNone) h)

/-- An operation that needs programs needs both, and compiles them before it does anything else. -/
theorem uses_operation (net : Network σ) (c : Client) (op : Operation) :
    (Step.operation op).uses c = [] ∨ (Step.operation op).uses c = [.approval, .clear] ∧
      ∃ f, (Step.operation op).perform net c = c.compile net >>= f := by
  cases op with
  | create pages o =>
    by_cases happ : c.appId = 0
    · refine .inr ⟨if_pos happ, ?_⟩
      change ∃ f, (c.create net pages o >>= fun answer => pure answer.2) = _
      simp only [create, if_neg (not_not.mpr happ), bind_assoc]
      exact ⟨_, rfl⟩
    · exact .inl (if_neg happ)
  | update o =>
    by_cases happ : c.appId = 0
    · exact .inl (if_pos happ)
    · refine .inr ⟨if_neg happ, ?_⟩
      change ∃ f, (c.update net o >>= fun answer => pure answer.2) = _
      have hok {β : Type} {f : UInt64 → ClientEffect σ β} :
          (Effect.ofExcept (.ok c.appId) >>= f) = f c.appId := rfl
      simp only [update, deployedId, if_neg happ, bind_assoc, hok]
      exact ⟨_, rfl⟩
  | _ => exact .inl rfl

/-! ## Another try -/

section Logged

variable {s t : LoggedSession σ}

theorem stocks_program (net : Network σ) (c : Client) (kind : ProgramKind) :
    Leads (Known c.family (Stocks c.app c.family)) (c.program net.logged kind) :=
  fun s hknown => (fills_program net c kind s hknown).toStocks

theorem stocks_compile (net : Network σ) (c : Client) :
    Leads (Known c.family (Stocks c.app c.family)) (c.compile net.logged) :=
  fun s hknown => (fills_compile net c s hknown).toStocks

theorem stocks_step (net : Network σ) (c : Client) (x : Step) :
    Leads (Known c.family (Stocks c.app c.family)) (x.perform net.logged c) :=
  leads_step ignoresBesides_stocks known_stocks_trans net.leaves_logged (stocks_program net c)
    (stocks_compile net c) x

theorem fills_step (net : Network σ) (c : Client) (x : Step) :
    Leads (Known c.family (Fills c.app c.family)) (x.perform net.logged c) :=
  leads_step ignoresBesides_fills known_fills_trans net.leaves_logged (fills_program net c)
    (fills_compile net c) x

/-- What the effect does first is to get the program. If there is none then, it does nothing else. -/
def Begins (net : Network σ) (c : Client) (kind : ProgramKind)
    (x : ClientEffect (σ × List Compilation) α) (s : LoggedSession σ) : Prop :=
  let u := ((c.program net.logged kind).outcome s).2
  Stocks c.app c.family u (x.outcome s).2 ∧ (u.kept c.family kind = none → (x.outcome s).2 = u)

variable (hknown : c.family < s.caches.length)

include hknown

theorem begins_program_bind {f : CompiledProgram × Bool → ClientEffect (σ × List Compilation) α}
    (hf : ∀ r, Leads (Known c.family (Stocks c.app c.family)) (f r)) :
    Begins net c kind (c.program net.logged kind >>= f) s := by
  have hstocks := stocks_program net c kind s hknown
  rw [Begins, outcome_bind]
  rcases hrun : (c.program net.logged kind).outcome s with ⟨why | ⟨program, fresh⟩, u⟩
  all_goals rw [hrun] at hstocks
  · exact ⟨.of_same rfl rfl, fun _ => rfl⟩
  · obtain ⟨hkept, -⟩ := program_yields hknown hrun
    refine ⟨hf _ u (hstocks.length ▸ hknown), fun hnone => ?_⟩
    exact absurd (hnone.symm.trans hkept) nofun

theorem begins_compile (hmissing : missing? s c.family [.approval, .clear] = some kind) :
    Begins net c kind (c.compile net.logged) s := by
  rw [compile_eq]
  cases happroval : s.kept c.family .approval with
  | none =>
    obtain rfl : .approval = kind := by
      simpa only [missing?, List.find?_cons, happroval, Option.isNone_none, Option.some.injEq]
        using hmissing
    refine begins_program_bind hknown fun approval => ?_
    refine Leads.bind ?_ (stocks_program net c .clear) (stocks_concludeCompilation c approval)
    exact known_stocks_trans
  | some approval =>
    obtain rfl : .clear = kind := by
      cases kind with
      | approval => exact absurd ((kept_of_missing hmissing).symm.trans happroval) nofun
      | clear => rfl
    rw [Begins, outcome_bind, outcome_program_of_kept happroval]
    exact begins_program_bind hknown (stocks_concludeCompilation c (approval, false))

theorem compile_yields {programs : Bytes × Bytes} (h : Yields (c.compile net.logged) s programs t) :
    ∃ approval clear, t.kept c.family .approval = some approval ∧
      t.kept c.family .clear = some clear ∧ programs = (approval.bytecode, clear.bytecode) := by
  rw [compile_eq] at h
  obtain ⟨⟨approval, newApproval⟩, u, hfirst, h⟩ := yields_bind.mp h
  obtain ⟨⟨clear, newClear⟩, v, hsecond, h⟩ := yields_bind.mp h
  have hstocks := stocks_program net c .approval s hknown
  rw [hfirst] at hstocks
  have hknown' : c.family < u.caches.length := hstocks.length ▸ hknown
  have hstocks' := stocks_program net c .clear u hknown'
  rw [hsecond] at hstocks'
  obtain ⟨hkept, -⟩ := program_yields hknown hfirst
  obtain ⟨hkept', -⟩ := program_yields hknown' hsecond
  have hconclude := stocks_concludeCompilation c (approval, newApproval) (clear, newClear) v
    (hstocks'.length ▸ hknown')
  rw [Yields, outcome_concludeCompilation] at h
  rw [outcome_concludeCompilation] at hconclude
  obtain ⟨hyielded, rfl⟩ := Prod.mk.inj h
  exact ⟨approval, clear, hconclude.kept (hstocks'.kept hkept), hconclude.kept hkept',
    (Except.ok.inj hyielded).symm⟩

theorem begins_compile_bind {f : Bytes × Bytes → ClientEffect (σ × List Compilation) α}
    (hmissing : missing? s c.family [.approval, .clear] = some kind)
    (hx : Leads (Known c.family (Stocks c.app c.family)) (c.compile net.logged >>= f)) :
    Begins net c kind (c.compile net.logged >>= f) s := by
  have hbegins : Begins net c kind (c.compile net.logged) s := begins_compile hknown hmissing
  obtain ⟨hstocks, hended⟩ := hbegins
  have hcompile := stocks_compile net c s hknown
  rcases hrun : (c.compile net.logged).outcome s with ⟨why | programs, t⟩
  all_goals rw [hrun] at hstocks hended hcompile
  · rw [Begins, outcome_bind, hrun]
    exact ⟨hstocks, hended⟩
  · obtain ⟨approval, clear, happroval, hclear, rfl⟩ := compile_yields hknown hrun
    -- The effect goes on as it would from `t`, where both programs are at hand.
    have hagain : (c.compile net.logged >>= f).outcome s =
        (c.compile net.logged >>= f).outcome t := by
      rw [outcome_bind, outcome_bind, hrun, outcome_compile_of_kept happroval hclear]
    rw [Begins, hagain]
    refine ⟨hstocks.trans (hx t (hcompile.length ▸ hknown)), fun hnone => ?_⟩
    obtain rfl := hended hnone
    cases kind with
    | approval => exact absurd (hnone.symm.trans happroval) nofun
    | clear => exact absurd (hnone.symm.trans hclear) nofun

/-- A step begins with the first program that it needs and that is not there. -/
theorem begins_step {x : Step} (hmissing : missing? s c.family (x.uses c) = some kind) :
    Begins net c kind (x.perform net.logged c) s := by
  have hx := stocks_step net c x
  cases x with
  | program kind' =>
    obtain rfl : kind' = kind := List.mem_singleton.mp (List.mem_of_find?_eq_some hmissing) |>.symm
    exact begins_program_bind hknown fun r => ignoresBesides_stocks.leads keeps_pure
  | compile => exact begins_compile_bind hknown hmissing hx
  | locate pc =>
    obtain rfl : .approval = kind :=
      List.mem_singleton.mp (List.mem_of_find?_eq_some hmissing) |>.symm
    have hsame : ((Step.locate pc).perform net.logged c |>.outcome s).2 =
        ((c.program net.logged .approval).outcome s).2 := by
      rw [Step.perform, approvalLine, outcome_bind, outcome_bind, outcome_observe]
      change _ = ((approvalProgram net.logged c).outcome s).2
      rcases (approvalProgram net.logged c).outcome s with ⟨why | ⟨program, fresh⟩, u⟩ <;> rfl
    exact ⟨hsame ▸ .of_same rfl rfl, fun _ => hsame⟩
  | operation op =>
    obtain hnone | ⟨hboth, f, hf⟩ := uses_operation net.logged c op
    · rw [hnone] at hmissing
      cases hmissing
    · rw [hboth] at hmissing
      rw [hf] at hx ⊢
      exact begins_compile_bind hknown hmissing hx

/-- Whatever needs a program that is not kept asks for it again, and keeps it if that succeeds. -/
theorem asks_again {x : Step} (hmissing : missing? s c.family (x.uses c) = some kind)
    (hfull : Program.withPragma (c.app.source kind) c.app.version = .ok full) :
    let entry := net.compilation full c.app.version s.world.1
    let t := ((x.perform net.logged c).outcome s).2
    s.log ++ [entry] <+: t.log ∧ t.kept c.family kind = entry.accepted? := by
  have hopen := kept_of_missing hmissing
  have hbegins : Begins net c kind (x.perform net.logged c) s := begins_step hknown hmissing
  obtain ⟨hstocks, hended⟩ := hbegins
  obtain ⟨hrefused, why, hrun⟩ | ⟨program, haccepted, hrun⟩ := outcome_program_logged hopen hfull
  all_goals rw [hrun] at hstocks hended
  · refine ⟨hstocks.prefix_log, ?_⟩
    rw [hended hopen, hrefused]
    exact hopen
  · refine ⟨hstocks.prefix_log, ?_⟩
    rw [haccepted]
    exact hstocks.kept ((Session.kept_keep hknown program kind kind).trans (if_pos rfl))

end Logged

/-! ## Once both programs are there -/

def Stocked (family : Nat) (s : Session σ) : Prop :=
  ∀ kind, (s.kept family kind).isSome

section Stocked

variable {s : Session σ}

theorem stocked_of_kept {family : Nat} {approval clear : CompiledProgram}
    (happroval : s.kept family .approval = some approval)
    (hclear : s.kept family .clear = some clear) : Stocked family s := by
  intro kind
  cases kind with
  | approval => exact Option.isSome_iff_exists.mpr ⟨approval, happroval⟩
  | clear => exact Option.isSome_iff_exists.mpr ⟨clear, hclear⟩

theorem Stocked.program (h : Stocked c.family s) (net : Network σ) (kind : ProgramKind) :
    ∃ program, s.kept c.family kind = some program ∧
      (c.program net kind).outcome s = (.ok (program, false), s) := by
  obtain ⟨program, hkept⟩ := Option.isSome_iff_exists.mp (h kind)
  exact ⟨program, hkept, outcome_program_of_kept hkept⟩

theorem Stocked.compile (h : Stocked c.family s) :
    ∃ programs, ∀ net : Network σ, (c.compile net).outcome s = (.ok programs, s) := by
  obtain ⟨approval, happroval⟩ := Option.isSome_iff_exists.mp (h .approval)
  obtain ⟨clear, hclear⟩ := Option.isSome_iff_exists.mp (h .clear)
  exact ⟨_, fun net => outcome_compile_of_kept happroval hclear⟩

def StaysStocked (family : Nat) (s t : Session σ) : Prop :=
  Stocked family s → Stocked family t

theorem ignoresBesides_staysStocked (family : Nat) :
    IgnoresBesides (fun _ => ()) (StaysStocked family : Session σ → Session σ → Prop) := by
  intro s t hsame h kind
  obtain ⟨hown, -⟩ := Prod.mk.inj hsame
  rw [Session.kept, Session.cache, (Prod.mk.inj hown).1]
  exact h kind

theorem partsLead_stocked (net : Network σ) (c : Client) :
    PartsLead (StaysStocked c.family) net c := by
  refine partsLead_of_programs (ignoresBesides_staysStocked c.family) ?_ net.node.leaves_nothing
    (fun s h => ?_) (fun s h => ?_)
  · exact fun h h' hs => h' (h hs)
  · obtain ⟨program, -, hrun⟩ := h.program net .approval
    rw [hrun]
    exact h
  · obtain ⟨programs, hrun⟩ := h.compile
    rw [hrun]
    exact h

theorem outcome_explain_of_stocked (h : Stocked c.family s) (net net' : Network σ)
    (why : ClientError) : (c.explain net' why).outcome s = (c.explain net why).outcome s := by
  cases why with
  | submission reason =>
    rw [explain, explain]
    cases LogicError.Report.ofText? reason with
    | none => rfl
    | some report =>
      by_cases hforeign : c.isForeign report = true
      · simp only [if_pos hforeign]
      · obtain ⟨program, hkept, -⟩ := h.program net .approval
        have happroval (net : Network σ) : (approvalProgram net c).outcome s =
          (.ok (program, false), s) := outcome_program_of_kept hkept
        simp only [if_neg hforeign, approvalLine, outcome_bind, outcome_observe, happroval]
  | _ => rfl

/-- The compiler does not matter any more. -/
theorem outcome_of_stocked {compiler : Compiler σ} {Sent : AtomicGroup → Prop}
    {x x' : ClientEffect σ α} (hx : Alongside net { net with compiler } c Sent x x') :
    ∀ s, Stocked c.family s → x'.outcome s = x.outcome s := by
  induction hx with
  | ofExcept | params | application | accountState => exact fun _ _ => rfl
  | compile =>
    intro s h
    obtain ⟨programs, hrun⟩ := h.compile
    rw [hrun, hrun]
  | @send g _ simulate maxRounds =>
    intro s h
    have hnext := (partsLead_stocked net c).sending g simulate maxRounds s h
    have hsame : (withGroup g (sending { net with compiler } simulate maxRounds)).outcome s =
        (withGroup g (sending net simulate maxRounds)).outcome s := rfl
    rw [send, send, outcome_bind, outcome_bind, outcome_observe, outcome_observe]
    dsimp only
    rw [hsame]
    rcases hrun : (withGroup g (sending net simulate maxRounds)).outcome s with ⟨why | result, t⟩
    · rw [hrun] at hnext
      dsimp only
      rw [outcome_bind, outcome_bind, outcome_explain_of_stocked hnext]
    · rfl
  | bind hx hf ihx ihf =>
    intro s h
    have hnext := (partsLead_stocked net c).alongside hx s h
    rw [outcome_bind, outcome_bind, ihx s h]
    rcases hrun : outcome _ s with ⟨why | a, t⟩
    · rfl
    · rw [hrun] at hnext
      exact ihf a ⟨s, t, hrun⟩ t hnext

theorem outcome_step_of_stocked (h : Stocked c.family s) (net : Network σ) (compiler : Compiler σ)
    (x : Step) : (x.perform { net with compiler } c).outcome s = (x.perform net c).outcome s := by
  rw [Step.perform.eq_def, Step.perform.eq_def]
  cases x with
  | program kind =>
    obtain ⟨program, hkept, -⟩ := h.program net kind
    simp only [outcome_bind, outcome_program_of_kept hkept]
  | compile =>
    obtain ⟨programs, hrun⟩ := h.compile
    simp only [outcome_bind, hrun]
  | locate pc =>
    obtain ⟨program, hkept, -⟩ := h.program net .approval
    have happroval (net : Network σ) : (approvalProgram net c).outcome s =
      (.ok (program, false), s) := outcome_program_of_kept hkept
    simp only [approvalLine, outcome_bind, outcome_observe, happroval]
  | operation op =>
    dsimp only
    rw [outcome_bind, outcome_bind, outcome_of_stocked (alongside_perform op) s h]

end Stocked

end Client

namespace Family

open Client

variable {σ ω : Type}

def besideLog (act : ω → σ → σ) (op : ω) (w : σ × List Compilation) : σ × List Compilation :=
  (act op w.1, w.2)

theorem fills_run {family : Nat} {d : Description} {p : Family (σ × List Compilation)}
    (h : ∀ c ∈ p.clients, c.IsOf family d) (net : Network σ) (act : ω → σ → σ)
    (ops : List (FamilyOp ω)) :
    Known family (Fills d family) p.session (p.run net.logged (besideLog act) ops).session := by
  refine leads_run (fun s debug _ => .of_same rfl rfl rfl) known_fills_trans (fun c hc x => ?_) h
    fun op _ s _ => .of_same rfl rfl rfl
  obtain ⟨rfl, rfl⟩ := hc
  exact fills_step net c x

/-- What is kept of a program that was not there before is for the version of the description. -/
theorem head_of_fills {family : Nat} {d : Description} {s t : LoggedSession σ} {kind : ProgramKind}
    {program : CompiledProgram} (h : Fills d family s t) (hnew : s.kept family kind = none)
    (hkept : t.kept family kind = some program) : program.bytecode.head? = some d.version := by
  obtain ⟨entries, -, hfor, htries⟩ := h.log
  have htried := htries kind
  rw [hnew, hkept] at htried
  obtain ⟨x, hmem, haccepted⟩ := mem_of_mem_outcomes htried.mem
  rw [Compilation.head_of_accepted haccepted, (hfor _ hmem).version]

/-- The clients that come from one client have each of its two programs compiled at most once,
whatever the compiler answers and whatever others do to the world. The tries at a program have all
failed but for the last one, whose result is kept; nothing is kept of the others, and the next step
that needs the program makes another try. What is kept is for the version of the description. From
then on all clients go by it, and once both programs are there, nothing depends on the compiler any
more. They are announced together, and no more than once. -/
theorem compiled_once (net : Network σ) (act : ω → σ → σ) (app : Description)
    (signer : Option SignerHandle) (sender : Option Address) (appId : UInt64)
    (params : Option NetworkParams) (s : Session σ) (ops : List (FamilyOp ω)) :
    let family := s.caches.length
    let p := (start app signer sender appId params s).run net act ops
    let logged := (start app signer sender appId params s.logged).run net.logged (besideLog act) ops
    logged.mapWorld Prod.fst = p ∧
    (∃ entries : List (ProgramKind × Compilation), logged.session.log = entries.map Prod.snd ∧
      (∀ e ∈ entries, e.2.IsFor app e.1) ∧
      ∀ kind, ∃ failures, outcomes kind entries =
        List.replicate failures none ++ (p.session.kept family kind).toList.map some) ∧
    (∀ kind program, p.session.kept family kind = some program →
      program.bytecode.head? = some app.version) ∧
    (p.session.announced = s.announced ∨ ∃ approval clear,
      p.session.kept family .approval = some approval ∧
      p.session.kept family .clear = some clear ∧
      p.session.announced = s.announced ++ [.compiled app.name app.version approval clear]) ∧
    (∀ c ∈ p.clients, ∀ (x : Step) kind full, missing? p.session family (x.uses c) = some kind →
      Program.withPragma (app.source kind) app.version = .ok full →
      let entry := net.compilation full app.version p.session.world
      let t := ((x.perform net.logged c).outcome logged.session).2
      logged.session.log ++ [entry] <+: t.log ∧ t.kept family kind = entry.accepted?) ∧
    ∀ more, let q := p.run net act more
      ∀ c ∈ q.clients,
        (∀ kind program, p.session.kept family kind = some program →
          (c.program net kind).outcome q.session = (.ok (program, false), q.session)) ∧
        ∀ approval clear, p.session.kept family .approval = some approval →
          p.session.kept family .clear = some clear →
          (c.compile net).outcome q.session =
              (.ok (approval.bytecode, clear.bytecode), q.session) ∧
            ∀ (x : Step) compiler, (x.perform { net with compiler } c).outcome q.session =
              (x.perform net c).outcome q.session := by
  intro family p logged
  let first := start app signer sender appId params s.logged
  have hof : ∀ c ∈ first.clients, c.IsOf family app := isOf_start app signer sender appId params _
  have hknown : family < first.session.caches.length :=
    known_start app signer sender appId params s.logged
  have hsame (ops : List (FamilyOp ω)) :
      (first.run net.logged (besideLog act) ops).mapWorld Prod.fst =
        (start app signer sender appId params s).run net act ops :=
    mapWorld_run net.followedBy_logged (fun _ _ => rfl) first ops
  have hlogged : logged.mapWorld Prod.fst = p := hsame ops
  -- What the log shows is settled on the logged run, which ends as the plain one does.
  have hfills : Fills app family first.session logged.session := fills_run hof net act ops hknown
  have hknown' : family < logged.session.caches.length := hfills.length ▸ hknown
  have hclients : ∀ c ∈ logged.clients, c.IsOf family app := isOf_run hof ops
  obtain ⟨entries, hlog, hfor, htries⟩ := hfills.log
  have hnew (kind : ProgramKind) : first.session.kept family kind = none :=
    kept_start app signer sender appId params s.logged kind
  rw [← hlogged]
  refine ⟨rfl, ⟨entries, hlog, hfor, fun kind => ?_⟩,
    fun kind program hkept => head_of_fills hfills (hnew kind) hkept, ?_, ?_, ?_⟩
  · have htried := htries kind
    rw [hnew] at htried
    exact htried
  · rcases hfills.announced with hnone | ⟨-, hone⟩
    · exact .inl hnone
    · exact .inr hone
  · intro c hc x kind full hmissing hfull
    obtain ⟨hfamily, happ⟩ := hclients c hc
    rw [← hfamily] at hknown' hmissing ⊢
    rw [← happ] at hfull ⊢
    exact asks_again hknown' hmissing hfull
  · intro more q c hc
    have hmore : (logged.run net.logged (besideLog act) more).mapWorld Prod.fst = q :=
      mapWorld_run net.followedBy_logged (fun _ _ => rfl) logged more
    have hlater : Fills app family logged.session
        (logged.run net.logged (besideLog act) more).session := fills_run hclients net act more hknown'
    have hkept {kind : ProgramKind} {program : CompiledProgram}
        (h : logged.session.kept family kind = some program) :
        q.session.kept family kind = some program := by
      rw [← hmore]
      exact hlater.kept h
    obtain ⟨hfamily, -⟩ := isOf_run hclients more c (hmore ▸ hc)
    rw [← hfamily] at hkept ⊢
    refine ⟨fun kind program h => outcome_program_of_kept (hkept h), fun approval clear ha hc => ?_⟩
    refine ⟨outcome_compile_of_kept (hkept ha) (hkept hc), fun x compiler => ?_⟩
    exact outcome_step_of_stocked (stocked_of_kept (hkept ha) (hkept hc)) net compiler x

/-- The compiler is down when the clear program is asked for, and up again later. -/
theorem compiled_once_outage :
    let act := fun (outage : Option String) (l : Ledger) => { l with faults.compilation := outage }
    let net := Ledger.network Ledger.compiler
    let s : Session Ledger := { world := {}, debug := true }
    let ops := [.others (some "down"), .step 0 (.program .clear), .others none, .step 0 .compile,
      .step 0 .compile]
    let app := counterClient.app
    let p := (start app none none 0 none s).run net act ops
    let logged := (start app none none 0 none s.logged).run net.logged (besideLog act) ops
    logged.session.log.map (·.accepted?.isSome) = [false, true, true] ∧
      ∃ approval clear, p.session.announced = [.compiled app.name app.version approval clear] ∧
        approval.bytecode.head? = some app.version ∧ clear.bytecode.head? = some app.version := by
  intro act net s ops app p logged
  have hlog : logged.session.log.map (·.accepted?.isSome) = [false, true, true] := by decide
  have hone : p.session.announced.length = 1 := by decide
  obtain ⟨-, -, hversion, hnone | ⟨approval, clear, happroval, hclear, hannounced⟩, -⟩ :=
    compiled_once net act app none none 0 none s ops
  · rw [hnone] at hone
    exact absurd hone nofun
  · exact ⟨hlog, approval, clear, hannounced, hversion _ _ happroval, hversion _ _ hclear⟩

end Family

end AppLedger
