import AppLedger.Proofs.Client.Programs

/-! A log of what a compiler is asked for and what it answers, and what a client that needs its
programs adds to it: tries that fail, up to the first one that succeeds. -/

namespace AppLedger

open Effect

variable {σ α : Type}

/-- A source that was handed to a compiler, and the answer. -/
structure Compilation where
  source : String
  version : UInt8
  answer : Except CompilerError CompiledProgram

namespace Compilation

/-- The compiled program, if its bytecode is for the version. -/
def accepted? (x : Compilation) : Option CompiledProgram :=
  match x.answer with
  | .ok program => if program.bytecode.head? = some x.version then some program else none
  | .error _ => none

/-- The source is that of a program of the description, with the version declared. -/
structure IsFor (d : Description) (kind : ProgramKind) (x : Compilation) : Prop where
  source : Program.withPragma (d.source kind) d.version = .ok x.source
  version : x.version = d.version

theorem head_of_accepted {x : Compilation} {program : CompiledProgram}
    (h : x.accepted? = some program) : program.bytecode.head? = some x.version := by
  rw [accepted?] at h
  split at h
  · split at h
    · next hversion => exact Option.some.inj h ▸ hversion
    · exact absurd h nofun
  · exact absurd h nofun

end Compilation

def Network.compilation (net : Network σ) (source : String) (version : UInt8) (world : σ) :
    Compilation :=
  ⟨source, version, ((net.compiler.compile source version).outcome world).1⟩

/-- The compiler, with a log of what it is asked for. -/
def Compiler.logged (compiler : Compiler σ) : Compiler (σ × List Compilation) where
  compile source version := ExceptT.mk fun (world, log) =>
    let (answer, world) := (compiler.compile source version).outcome world
    (answer, world, log ++ [⟨source, version, answer⟩])

def Network.logged (net : Network σ) : Network (σ × List Compilation) :=
  ⟨net.node.lift fun x => x.onFst, net.compiler.logged⟩

theorem Network.followedBy_logged (net : Network σ) : net.FollowedBy Prod.fst net.logged where
  node :=
    { submit := fun _ => follows_onFst _
      simulate := fun _ => follows_onFst _
      pending := fun _ => follows_onFst _
      lastRound := follows_onFst _
      waitForBlock := fun _ => follows_onFst _ }
  params := follows_onFst _
  application _ := follows_onFst _
  accountState _ _ := follows_onFst _
  compile _ _ := fun _ => rfl

theorem Network.leaves_logged (net : Network σ) : net.logged.node.Leaves Prod.snd where
  pending _ := fun _ => rfl
  lastRound := fun _ => rfl
  waitForBlock _ := fun _ => rfl
  params := fun _ => rfl
  application _ := fun _ => rfl
  accountState _ _ := fun _ => rfl
  submit _ := fun _ => rfl
  simulate _ := fun _ => rfl

abbrev LoggedSession (σ : Type) := Session (σ × List Compilation)

namespace Session

def logged (s : Session σ) : LoggedSession σ :=
  s.mapWorld fun world => (world, [])

def log (s : LoggedSession σ) : List Compilation :=
  s.world.2

def logging (s : LoggedSession σ) (x : Compilation) (world : σ) : LoggedSession σ :=
  { s with world := (world, s.log ++ [x]) }

end Session

/-! ## Tries -/

/-- What comes of the tries to get one program. All fail but for the last one, and there is none once
there is a program. -/
def Tries (outcomes : List (Option CompiledProgram)) :
    Option CompiledProgram → Option CompiledProgram → Prop
  | none, after => ∃ failures, outcomes = List.replicate failures none ++ after.toList.map some
  | some program, after => outcomes = [] ∧ after = some program

namespace Tries

variable {before between after : Option CompiledProgram} {program : CompiledProgram}
  {outcomes outcomes' : List (Option CompiledProgram)}

theorem refl (before : Option CompiledProgram) : Tries [] before before := by
  cases before with
  | none => exact ⟨0, rfl⟩
  | some program => exact ⟨rfl, rfl⟩

theorem single (outcome : Option CompiledProgram) : Tries [outcome] none outcome := by
  cases outcome with
  | none => exact ⟨1, rfl⟩
  | some program => exact ⟨0, rfl⟩

theorem trans (h : Tries outcomes before between) (h' : Tries outcomes' between after) :
    Tries (outcomes ++ outcomes') before after := by
  cases before with
  | some program =>
    obtain ⟨rfl, rfl⟩ := h
    exact h'
  | none =>
    obtain ⟨failures, rfl⟩ := h
    cases between with
    | none =>
      obtain ⟨failures', rfl⟩ := h'
      refine ⟨failures + failures', ?_⟩
      simp only [Option.toList_none, List.map_nil, List.append_nil, List.append_assoc,
        ← List.replicate_append_replicate]
    | some program =>
      obtain ⟨rfl, rfl⟩ := h'
      exact ⟨failures, List.append_nil _⟩

theorem kept (h : Tries outcomes (some program) after) : after = some program :=
  h.2

theorem mem (h : Tries outcomes none (some program)) : some program ∈ outcomes := by
  obtain ⟨failures, rfl⟩ := h
  exact List.mem_append_right _ (List.mem_singleton_self _)

end Tries

/-- What the compilations of one program have come to. -/
def outcomes (kind : ProgramKind) (entries : List (ProgramKind × Compilation)) :
    List (Option CompiledProgram) :=
  (entries.filter (·.1 = kind)).map (·.2.accepted?)

theorem outcomes_append (kind : ProgramKind) (entries entries' : List (ProgramKind × Compilation)) :
    outcomes kind (entries ++ entries') = outcomes kind entries ++ outcomes kind entries' := by
  rw [outcomes, List.filter_append, List.map_append]
  rfl

theorem mem_of_mem_outcomes {kind : ProgramKind} {entries : List (ProgramKind × Compilation)}
    {outcome : Option CompiledProgram} (h : outcome ∈ outcomes kind entries) :
    ∃ x, (kind, x) ∈ entries ∧ x.accepted? = outcome := by
  obtain ⟨⟨kind', x⟩, hmem, hx⟩ := List.mem_map.mp h
  obtain ⟨hentry, hkind⟩ := List.mem_filter.mp hmem
  obtain rfl : kind' = kind := of_decide_eq_true hkind
  exact ⟨x, hentry, hx⟩

/-! ## What a family adds -/

/-- The programs that the family has compiled in between, of the description that its clients have
in common. -/
structure Stocks (d : Description) (family : Nat) (s t : LoggedSession σ) : Prop where
  length : t.caches.length = s.caches.length
  log : ∃ entries : List (ProgramKind × Compilation), t.log = s.log ++ entries.map Prod.snd ∧
    (∀ e ∈ entries, e.2.IsFor d e.1) ∧
    ∀ kind, Tries (outcomes kind entries) (s.kept family kind) (t.kept family kind)

/-- The family announces its programs with those that it has compiled just now. -/
structure Fills (d : Description) (family : Nat) (s t : LoggedSession σ) : Prop
    extends Stocks d family s t where
  announced : t.announced = s.announced ∨
    (∃ kind, s.kept family kind = none) ∧ ∃ approval clear,
      t.kept family .approval = some approval ∧ t.kept family .clear = some clear ∧
      t.announced = s.announced ++ [.compiled d.name d.version approval clear]

section Stocks

variable {d : Description} {family : Nat} {s t u : LoggedSession σ}

theorem Stocks.of_same (hcaches : t.caches = s.caches) (hlog : t.log = s.log) :
    Stocks d family s t where
  length := congrArg List.length hcaches
  log := by
    refine ⟨[], by rw [hlog, List.map_nil, List.append_nil], nofun, fun kind => ?_⟩
    have hkept : t.kept family kind = s.kept family kind := by
      rw [Session.kept, Session.cache, hcaches]
      rfl
    rw [hkept]
    exact .refl _

theorem Stocks.trans (h : Stocks d family s t) (h' : Stocks d family t u) : Stocks d family s u where
  length := h'.length.trans h.length
  log := by
    obtain ⟨entries, hlog, hfor, htries⟩ := h.log
    obtain ⟨entries', hlog', hfor', htries'⟩ := h'.log
    refine ⟨entries ++ entries', ?_, List.forall_mem_append.mpr ⟨hfor, hfor'⟩, fun kind => ?_⟩
    · rw [hlog', hlog, List.map_append, List.append_assoc]
    · rw [outcomes_append]
      exact (htries kind).trans (htries' kind)

theorem Stocks.kept (h : Stocks d family s t) {kind : ProgramKind} {program : CompiledProgram}
    (hkept : s.kept family kind = some program) : t.kept family kind = some program := by
  obtain ⟨_, -, -, htries⟩ := h.log
  have htried := htries kind
  rw [hkept] at htried
  exact htried.kept

theorem Stocks.prefix_log (h : Stocks d family s t) : s.log <+: t.log := by
  obtain ⟨entries, hlog, -⟩ := h.log
  exact ⟨_, hlog.symm⟩

theorem Stocks.of_compilation {kind : ProgramKind} {x : Compilation} (hx : x.IsFor d kind)
    (hopen : s.kept family kind = none) (hlength : t.caches.length = s.caches.length)
    (hlog : t.log = s.log ++ [x])
    (hkept : ∀ kind', t.kept family kind' =
      if kind' = kind then x.accepted? else s.kept family kind') : Stocks d family s t where
  length := hlength
  log := by
    refine ⟨[(kind, x)], hlog, List.forall_mem_singleton.mpr hx, fun kind' => ?_⟩
    by_cases hkind : kind' = kind
    · subst hkind
      have hone : outcomes kind' [(kind', x)] = [x.accepted?] := by simp [outcomes]
      rw [hone, hopen, hkept, if_pos rfl]
      exact .single _
    · have hnone : outcomes kind' [(kind, x)] = [] := by simp [outcomes, Ne.symm hkind]
      rw [hnone, hkept, if_neg hkind]
      exact .refl _

theorem Fills.of_same (hcaches : t.caches = s.caches) (hlog : t.log = s.log)
    (hannounced : t.announced = s.announced) : Fills d family s t where
  toStocks := .of_same hcaches hlog
  announced := .inl hannounced

theorem Fills.trans (h : Fills d family s t) (h' : Fills d family t u) : Fills d family s u where
  toStocks := h.toStocks.trans h'.toStocks
  announced := by
    rcases h.announced with hsame | ⟨hopen, approval, clear, happroval, hclear, hnew⟩
    all_goals rcases h'.announced with hsame' | ⟨⟨kind, hopen'⟩, hnew'⟩
    · exact .inl (hsame'.trans hsame)
    · refine .inr ⟨⟨kind, Option.eq_none_iff_forall_ne_some.mpr fun program hkept => ?_⟩, ?_⟩
      · exact absurd (hopen'.symm.trans (h.toStocks.kept hkept)) nofun
      · rwa [hsame] at hnew'
    · exact .inr ⟨hopen, approval, clear, h'.toStocks.kept happroval, h'.toStocks.kept hclear,
        hsame'.trans hnew⟩
    -- Nothing is missing after the first announcement, and so there is no second one.
    · cases kind with
      | approval => exact absurd (hopen'.symm.trans happroval) nofun
      | clear => exact absurd (hopen'.symm.trans hclear) nofun

/-- The relation of sessions that know the family. -/
def Known (family : Nat) (rel : LoggedSession σ → LoggedSession σ → Prop)
    (s t : LoggedSession σ) : Prop :=
  family < s.caches.length → rel s t

theorem known_stocks_trans (h : Known family (Stocks d family) s t)
    (h' : Known family (Stocks d family) t u) : Known family (Stocks d family) s u :=
  fun hknown => (h hknown).trans (h' ((h hknown).length ▸ hknown))

theorem known_fills_trans (h : Known family (Fills d family) s t)
    (h' : Known family (Fills d family) t u) : Known family (Fills d family) s u :=
  fun hknown => (h hknown).trans (h' ((h hknown).length ▸ hknown))

theorem ignoresBesides_stocks :
    Client.IgnoresBesides (Prod.snd : σ × List Compilation → _) (Known family (Stocks d family)) := by
  intro s t hsame _
  obtain ⟨hown, hlog⟩ := Prod.mk.inj hsame
  exact .of_same (Prod.mk.inj hown).1 hlog

theorem ignoresBesides_fills :
    Client.IgnoresBesides (Prod.snd : σ × List Compilation → _) (Known family (Fills d family)) := by
  intro s t hsame _
  obtain ⟨hown, hlog⟩ := Prod.mk.inj hsame
  obtain ⟨hcaches, hannounced⟩ := Prod.mk.inj hown
  exact .of_same hcaches hlog hannounced

end Stocks

namespace Client

variable {net : Network σ} {c : Client} {kind : ProgramKind} {s t : LoggedSession σ} {full : String}

theorem outcome_program_of_kept {τ : Type} {net : Network τ} {s : Session τ}
    {program : CompiledProgram} (h : s.kept c.family kind = some program) :
    (c.program net kind).outcome s = (.ok (program, false), s) := by
  rw [outcome_program, h]

/-- A program that is not kept is asked for, and kept if the answer is accepted. -/
theorem outcome_program_logged (h : s.kept c.family kind = none)
    (hfull : Program.withPragma (c.app.source kind) c.app.version = .ok full) :
    let x := net.compilation full c.app.version s.world.1
    let u := s.logging x ((net.compiler.compile full c.app.version).outcome s.world.1).2
    (x.accepted? = none ∧ ∃ why, (c.program net.logged kind).outcome s = (.error why, u)) ∨
      ∃ program, x.accepted? = some program ∧
        (c.program net.logged kind).outcome s =
          (.ok (program, true), u.keep c.family program kind) := by
  have hanswer : (net.logged.compiler.compile full c.app.version).outcome s.world =
      (((net.compiler.compile full c.app.version).outcome s.world.1).1,
        ((net.compiler.compile full c.app.version).outcome s.world.1).2,
        s.log ++ [net.compilation full c.app.version s.world.1]) := rfl
  simp only [outcome_program, h, outcome_compileSource, hfull, hanswer, Network.compilation,
    Compilation.accepted?]
  rcases (net.compiler.compile full c.app.version).outcome s.world.1 with ⟨why | program, world⟩
  · exact .inl ⟨rfl, _, rfl⟩
  · dsimp only
    by_cases hversion : program.bytecode.head? = some c.app.version
    · simp only [if_pos hversion]
      exact .inr ⟨program, if_pos hversion, rfl⟩
    · simp only [if_neg hversion]
      exact .inl ⟨if_neg hversion, _, rfl⟩

/-- A program is at hand, or cannot be asked for as its source declares another version, or it is
asked for once. -/
theorem program_cases (net : Network σ) (c : Client) (kind : ProgramKind) (s : LoggedSession σ) :
    (∃ program, s.kept c.family kind = some program ∧
      (c.program net.logged kind).outcome s = (.ok (program, false), s)) ∨
    s.kept c.family kind = none ∧
      ((∃ why, (c.program net.logged kind).outcome s = (.error why, s)) ∨
      ∃ x world, x.IsFor c.app kind ∧
        ((x.accepted? = none ∧
          ∃ why, (c.program net.logged kind).outcome s = (.error why, s.logging x world)) ∨
        ∃ program, x.accepted? = some program ∧ (c.program net.logged kind).outcome s =
          (.ok (program, true), (s.logging x world).keep c.family program kind))) := by
  cases hkept : s.kept c.family kind with
  | some program => exact .inl ⟨program, rfl, outcome_program_of_kept hkept⟩
  | none =>
    refine .inr ⟨rfl, ?_⟩
    cases hfull : Program.withPragma (c.app.source kind) c.app.version with
    | error conflict =>
      refine .inl ⟨.compilation (.compiler (.pragma conflict)), ?_⟩
      simp only [outcome_program, hkept, outcome_compileSource, hfull]
    | ok full => exact .inr ⟨_, _, ⟨hfull, rfl⟩, outcome_program_logged hkept hfull⟩

theorem fills_program (net : Network σ) (c : Client) (kind : ProgramKind) :
    Leads (Known c.family (Fills c.app c.family)) (c.program net.logged kind) := by
  intro s hknown
  obtain ⟨program, -, hrun⟩ | ⟨hopen, ⟨why, hrun⟩ | ⟨x, world, hx, ⟨hrefused, why, hrun⟩ |
    ⟨program, haccepted, hrun⟩⟩⟩ := program_cases net c kind s
  all_goals rw [hrun]
  · exact .of_same rfl rfl rfl
  · exact .of_same rfl rfl rfl
  · refine ⟨.of_compilation hx hopen rfl rfl fun kind' => ?_, .inl rfl⟩
    by_cases hkind : kind' = kind
    · rw [if_pos hkind, hrefused, hkind]
      exact hopen
    · rw [if_neg hkind]
      rfl
  · refine ⟨.of_compilation hx hopen (Session.length_keep program kind) rfl fun kind' => ?_, .inl rfl⟩
    rw [haccepted]
    exact Session.kept_keep hknown program kind kind'

theorem program_yields {program : CompiledProgram} {fresh : Bool}
    (hknown : c.family < s.caches.length)
    (h : Yields (c.program net.logged kind) s (program, fresh) t) :
    t.kept c.family kind = some program ∧ t.announced = s.announced ∧
      (fresh = true → s.kept c.family kind = none) := by
  obtain ⟨program', hkept, hrun⟩ | ⟨hopen, ⟨why, hrun⟩ | ⟨x, world, -, ⟨-, why, hrun⟩ |
    ⟨program', -, hrun⟩⟩⟩ := program_cases net c kind s
  all_goals rw [Yields, hrun] at h
  · obtain ⟨hyielded, rfl⟩ := Prod.mk.inj h
    obtain ⟨rfl, rfl⟩ := Prod.mk.inj (Except.ok.inj hyielded)
    exact ⟨hkept, rfl, fun hfresh => absurd hfresh Bool.false_ne_true⟩
  · cases (Prod.mk.inj h).1
  · cases (Prod.mk.inj h).1
  · obtain ⟨hyielded, rfl⟩ := Prod.mk.inj h
    obtain ⟨rfl, rfl⟩ := Prod.mk.inj (Except.ok.inj hyielded)
    exact ⟨(Session.kept_keep hknown _ _ _).trans (if_pos rfl), rfl, fun _ => hopen⟩

/-- What follows where both programs are at hand: they are announced if one of them is new. -/
def concludeCompilation {τ : Type} (c : Client) (approval clear : CompiledProgram × Bool) :
    ClientEffect τ (Bytes × Bytes) := do
  if approval.2 || clear.2 then
    Session.announce (.compiled c.app.name c.app.version approval.1 clear.1)
  return (approval.1.bytecode, clear.1.bytecode)

theorem compile_eq {τ : Type} (net : Network τ) (c : Client) :
    c.compile net = c.program net .approval >>= fun approval =>
      c.program net .clear >>= fun clear => c.concludeCompilation approval clear :=
  rfl

theorem outcome_announce {ε τ : Type} (event : Event) (s : Session τ) :
    outcome (Session.announce event : Effect ε (Session τ) Unit) s =
      (.ok (), if s.debug then { s with events := s.events ++ [event] } else s) := by
  rw [Session.announce, outcome_bind, outcome_get]
  dsimp only
  split <;> rfl

theorem outcome_concludeCompilation {τ : Type} (c : Client) (approval clear : CompiledProgram × Bool)
    (s : Session τ) :
    (c.concludeCompilation approval clear).outcome s =
      (.ok (approval.1.bytecode, clear.1.bytecode),
        if (approval.2 || clear.2) && s.debug then
          { s with events := s.events ++
              [.compiled c.app.name c.app.version approval.1 clear.1] }
        else s) := by
  rw [concludeCompilation]
  cases approval.2 || clear.2 with
  | false => rfl
  | true =>
    rw [if_pos rfl, outcome_bind, outcome_announce]
    rfl

theorem stocks_concludeCompilation (c : Client) (approval clear : CompiledProgram × Bool) :
    Leads (Known c.family (Stocks c.app c.family))
      (c.concludeCompilation approval clear : ClientEffect (σ × List Compilation) _) := by
  intro s _
  rw [outcome_concludeCompilation]
  dsimp only
  split <;> exact .of_same rfl rfl

theorem outcome_compile_of_kept {τ : Type} {net : Network τ} {s : Session τ}
    {approval clear : CompiledProgram} (happroval : s.kept c.family .approval = some approval)
    (hclear : s.kept c.family .clear = some clear) :
    (c.compile net).outcome s = (.ok (approval.bytecode, clear.bytecode), s) := by
  rw [compile_eq, outcome_bind, outcome_program_of_kept happroval]
  dsimp only
  rw [outcome_bind, outcome_program_of_kept hclear]
  rfl

theorem fills_concludeCompilation {approval clear : CompiledProgram × Bool}
    (h : Stocks c.app c.family s t) (hsame : t.announced = s.announced)
    (happroval : t.kept c.family .approval = some approval.1)
    (hclear : t.kept c.family .clear = some clear.1)
    (hnew : (approval.2 || clear.2) = true → ∃ kind, s.kept c.family kind = none) :
    Fills c.app c.family s ((c.concludeCompilation approval clear).outcome t).2 := by
  rw [outcome_concludeCompilation]
  dsimp only
  split
  · next hannounce =>
    obtain ⟨hfresh, -⟩ := Bool.and_eq_true_iff.mp hannounce
    refine ⟨h.trans (.of_same rfl rfl), .inr ⟨hnew hfresh, _, _, happroval, hclear, ?_⟩⟩
    refine (List.filter_append t.events _).trans ?_
    rw [← hsame]
    rfl
  · exact ⟨h, .inl hsame⟩

theorem fills_compile (net : Network σ) (c : Client) :
    Leads (Known c.family (Fills c.app c.family)) (c.compile net.logged) := by
  intro s hknown
  have happroval := fills_program net c .approval s hknown
  rw [compile_eq, outcome_bind]
  rcases hrun : (c.program net.logged .approval).outcome s with ⟨why | ⟨approval, newApproval⟩, t⟩
  all_goals rw [hrun] at happroval
  · exact happroval
  have hknown' : c.family < t.caches.length := happroval.length ▸ hknown
  have hclear := fills_program net c .clear t hknown'
  dsimp only
  rw [outcome_bind]
  rcases hrun' : (c.program net.logged .clear).outcome t with ⟨why | ⟨clear, newClear⟩, u⟩
  all_goals rw [hrun'] at hclear
  · exact happroval.trans hclear
  obtain ⟨hkept, hsame, hopen⟩ := program_yields hknown hrun
  obtain ⟨hkept', hsame', hopen'⟩ := program_yields hknown' hrun'
  refine fills_concludeCompilation (happroval.toStocks.trans hclear.toStocks)
    (hsame'.trans hsame) (hclear.kept hkept) hkept' fun hnew => ?_
  rcases (Bool.or_eq_true _ _).mp hnew with hnew | hnew
  · exact ⟨.approval, hopen hnew⟩
  · refine ⟨.clear, Option.eq_none_iff_forall_ne_some.mpr fun program hbefore => ?_⟩
    exact absurd ((hopen' hnew).symm.trans (happroval.kept hbefore)) nofun

end Client

end AppLedger
