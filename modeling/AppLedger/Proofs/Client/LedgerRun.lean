import AppLedger.Client.Lifecycle
import AppLedger.Proofs.Client.DefaultCalls
import AppLedger.Proofs.Client.Operation

/-! What clients do to a ledger comes down to the operations of the ledger: however their work
ends, the ledger is where a run of such operations leads. -/

namespace AppLedger

open Effect

variable {ε δ σ α β : Type} {kind kind' : LedgerOp → Prop}

def LedgerOp.IsCompile : LedgerOp → Prop
  | .compile _ _ => True
  | _ => False

namespace Ledger

/-- A run of operations of the kind leads from the first ledger to the second. -/
def Reaches (kind : LedgerOp → Prop) (l l' : Ledger) : Prop :=
  ∃ ops : List LedgerOp, (∀ op ∈ ops, kind op) ∧ l' = l.run ops

theorem Reaches.refl (l : Ledger) : Reaches kind l l :=
  ⟨[], nofun, rfl⟩

theorem Reaches.trans {l l' l'' : Ledger} (h : Reaches kind l l') (h' : Reaches kind l' l'') :
    Reaches kind l l'' := by
  obtain ⟨ops, hops, rfl⟩ := h
  obtain ⟨ops', hops', rfl⟩ := h'
  exact ⟨ops ++ ops', List.forall_mem_append.mpr ⟨hops, hops'⟩, (run_append l ops ops').symm⟩

theorem reaches_perform (l : Ledger) (op : LedgerOp) (hop : kind op) :
    Reaches kind l (l.perform op) :=
  ⟨[op], List.forall_mem_singleton.mpr hop, rfl⟩

theorem Invariant.reaches {P : LedgerState → Prop} (hP : Invariant P) {l l' : Ledger}
    (h : Reaches kind l l') (hl : P l.state) : P l'.state := by
  obtain ⟨ops, -, rfl⟩ := h
  exact hP.run hl ops

/-- Compiling changes nothing but the sources that the ledger remembers. -/
theorem state_of_reaches_compile {l l' : Ledger} (h : Reaches LedgerOp.IsCompile l l') :
    l'.state = l.state := by
  obtain ⟨ops, hops, rfl⟩ := h
  induction ops generalizing l with
  | nil => rfl
  | cons op ops ih =>
    rw [List.forall_mem_cons] at hops
    rw [run_cons, ih hops.2]
    cases op with
    | compile source version =>
      rw [perform_compile, compile]
      split <;> rfl
    | _ => exact hops.1.elim

end Ledger

/-! ## Effects on a ledger -/

/-- Whatever the effect does to the ledger that is a part of the world comes down to operations of
the kind. -/
def Performs (kind : LedgerOp → Prop) (ledger : σ → Ledger) (x : Effect ε σ α) : Prop :=
  Leads (InvImage (Ledger.Reaches kind) ledger) x

namespace Performs

variable {ledger : σ → Ledger} {x : Effect ε σ α}

theorem of_keeps (h : Keeps ledger x) : Performs kind ledger x :=
  h.leads fun s t hsame => by
    rw [InvImage, hsame]
    exact .refl _

theorem mono (hkind : ∀ op, kind op → kind' op) (h : Performs kind ledger x) :
    Performs kind' ledger x := by
  intro s
  obtain ⟨ops, hops, hrun⟩ := h s
  exact ⟨ops, fun op hop => hkind op (hops op hop), hrun⟩

theorem bind {f : α → Effect ε σ β} (hx : Performs kind ledger x)
    (hf : ∀ a, Performs kind ledger (f a)) : Performs kind ledger (x >>= f) := by
  refine Leads.bind ?_ hx hf
  exact Ledger.Reaches.trans

theorem keeps_bind {f : α → Effect ε σ β} (hx : Keeps ledger x)
    (hf : ∀ a, Performs kind ledger (f a)) : Performs kind ledger (x >>= f) :=
  (of_keeps hx).bind hf

theorem observe (h : Performs kind ledger x) :
    Performs kind ledger (Effect.observe x : Effect δ σ _) := h

theorem of_yields (h : Performs kind ledger x) {s t : σ} {a : α} (hyields : Yields x s a t) :
    Ledger.Reaches kind (ledger s) (ledger t) := by
  have hleads := h s
  rw [hyields] at hleads
  exact hleads

theorem onWorld {x : Effect ε Ledger α} (h : Performs kind id x) :
    Performs kind Session.world (Session.onWorld x) :=
  fun s => h s.world

theorem onSession {x : Effect ClientError (Session Ledger) α}
    (h : Performs kind Session.world x) :
    Performs kind (fun w => w.2.world) (AtomicGroup.onSession x) :=
  fun w => h w.2

theorem withGroup {g : AtomicGroup} {f : AtomicGroup.GroupEffect Ledger α}
    (h : Performs kind (fun w => w.2.world) f) :
    Performs kind Session.world (Client.withGroup g f) :=
  fun s => h (g, s)

end Performs

theorem performs_compiler (source : String) (version : UInt8) :
    Performs LedgerOp.IsCompile id (Ledger.compiler.compile source version) :=
  fun l => Ledger.reaches_perform l (.compile source version) trivial

/-! ## Sending -/

theorem performs_waitFrom (id' : String) (budget round rounds : Nat) :
    Performs (fun _ => True) id (waitFrom Ledger.node id' budget round rounds) := by
  induction rounds generalizing round with
  | zero => exact .of_keeps keeps_throw
  | succ rounds ih =>
    rw [waitFrom]
    have hpending : Keeps id (Ledger.node.pending id') := keeps_read
    refine .keeps_bind hpending.observe fun r => ?_
    rcases r with why | c
    · cases why with
      | notFound _ => exact ih _
      | rejected | request | decode => exact .of_keeps keeps_throw
    · by_cases hdropped : c.poolError ≠ ""
      · simp only [if_pos hdropped]
        exact .of_keeps keeps_throw_bind
      · by_cases hround : c.round.isSome = true
        · simp only [if_neg hdropped, if_pos hround]
          exact .of_keeps keeps_pure
        · simp only [if_neg hdropped, if_neg hround]
          have hwait : Performs (fun _ => True) id (Ledger.node.waitForBlock round) :=
            fun l => Ledger.reaches_perform l (.waitForBlock round) trivial
          exact hwait.observe.bind fun _ => ih _

namespace AtomicGroup

variable {compiler : Compiler Ledger}

theorem performs_submit :
    Performs (fun _ => True) (fun w => w.2.world) (submit (Ledger.network compiler)) := by
  rintro ⟨g, s⟩
  obtain ⟨-, hcase⟩ | ⟨-, ⟨why, hcase⟩ | ⟨signed, ids, -, -, hcase⟩⟩ :=
    submit_cases (Ledger.network compiler) g s
  · rw [hcase]
    exact .refl _
  · rw [hcase]
    exact .refl _
  · have hsent : Ledger.Reaches (fun _ => True) s.world (s.world.perform (.submit signed)) :=
      Ledger.reaches_perform s.world (.submit signed) trivial
    rw [hcase]
    rcases hanswer : ((Ledger.network compiler).node.submit signed).outcome s.world with
      ⟨why | taken, world⟩
    all_goals
      have hworld : s.world.perform (.submit signed) = world := congrArg Prod.snd hanswer
      rw [hworld] at hsent
      exact hsent

theorem performs_execute (maxRounds : Option Nat) :
    Performs (fun _ => True) (fun w => w.2.world)
      (execute (Ledger.network compiler) maxRounds) := by
  rw [execute]
  refine performs_submit.bind fun ids => ?_
  cases ids with
  | nil => exact .of_keeps keeps_throw
  | cons first rest =>
    refine .keeps_bind keeps_get fun w => ?_
    have hlast : Keeps id Ledger.node.lastRound := keeps_read
    have hwait (budget : Nat) :
        Performs (fun _ => True) id (waitForConfirmation Ledger.node first budget) :=
      Performs.keeps_bind hlast.mapError fun _ => performs_waitFrom _ _ _ _
    refine (hwait _).onWorld.onSession.bind fun confirmed => ?_
    have hpending (id' : String) : Keeps (fun w : AtomicGroup × Session Ledger => w.2.world)
        (onSession (Session.ask (Ledger.node.pending id'))) := by
      have hread : Keeps (·) (Ledger.node.pending id') := keeps_read
      exact keeps_onSession (fun _ => rfl) (keeps_ask hread)
    refine .of_keeps ((Keeps.mapM hpending _).bind fun others => ?_)
    refine (keeps_setStatus (fun _ _ _ => rfl) _).bind fun _ => ?_
    exact (keeps_onGroup fun _ _ _ => rfl).bind fun _ => keeps_pure

end AtomicGroup

namespace Client

/-! ## Compiling -/

/-- A compilation leads the world on as `rel` says, and so do several in turn. -/
structure Compilations (rel : σ → σ → Prop) (compiler : Compiler σ) : Prop where
  refl : ∀ s, rel s s
  trans : ∀ {s t u}, rel s t → rel t u → rel s u
  leads : ∀ source version, Leads rel (compiler.compile source version)

/-- Whatever the effect does to the world comes down to compilations. -/
abbrev Compiles (rel : σ → σ → Prop) (x : ClientEffect σ α) : Prop :=
  Leads (InvImage rel Session.world) x

section Compilations

variable {net : Network σ} {rel : σ → σ → Prop} {c : Client} {x : ClientEffect σ α}

theorem Compilations.of_keeps (h : Compilations rel net.compiler) (hx : Keeps Session.world x) :
    Compiles rel x :=
  hx.leads fun s t hsame => by
    rw [InvImage, hsame]
    exact h.refl _

theorem Compilations.bind (h : Compilations rel net.compiler) {f : α → ClientEffect σ β}
    (hx : Compiles rel x) (hf : ∀ a, Compiles rel (f a)) : Compiles rel (x >>= f) := by
  refine Leads.bind ?_ hx hf
  exact h.trans

theorem compiles_compileSource (h : Compilations rel net.compiler) (source : String) :
    Compiles rel (compileSource net c source) := by
  refine h.bind (h.of_keeps keeps_ofExcept) fun text => h.bind ?_ fun compiled => ?_
  · exact fun s => h.leads text c.app.version s.world
  · by_cases hversion : compiled.bytecode.head? = some c.app.version
    · simp only [if_pos hversion]
      exact h.of_keeps keeps_pure
    · simp only [if_neg hversion]
      exact h.of_keeps keeps_throw

theorem compiles_approvalProgram (h : Compilations rel net.compiler) :
    Compiles rel (approvalProgram net c) := by
  refine h.bind (h.of_keeps keeps_get) fun s => ?_
  cases (s.cache c.family).approval with
  | some program => exact h.of_keeps keeps_pure
  | none =>
    refine h.bind (compiles_compileSource h _) fun program => h.of_keeps ?_
    exact Keeps.bind (fun _ => rfl) fun _ => keeps_pure

theorem compiles_clearProgram (h : Compilations rel net.compiler) :
    Compiles rel (clearProgram net c) := by
  refine h.bind (h.of_keeps keeps_get) fun s => ?_
  cases (s.cache c.family).clear with
  | some program => exact h.of_keeps keeps_pure
  | none =>
    refine h.bind (compiles_compileSource h _) fun program => h.of_keeps ?_
    exact Keeps.bind (fun _ => rfl) fun _ => keeps_pure

theorem compiles_compile (h : Compilations rel net.compiler) : Compiles rel (c.compile net) := by
  refine h.bind (compiles_approvalProgram h) fun ⟨approval, newApproval⟩ => ?_
  refine h.bind (compiles_clearProgram h) fun ⟨clear, newClear⟩ => h.of_keeps ?_
  cases hnew : newApproval || newClear with
  | true =>
    simp only [hnew, if_true]
    exact (keeps_announce fun _ => rfl).bind fun _ => keeps_pure
  | false =>
    simp only [hnew]
    exact keeps_pure

theorem compiles_explain (h : Compilations rel net.compiler) (why : ClientError) :
    Compiles rel (c.explain net why) := by
  refine leads_explain (fun _ => h.refl _) ?_ (compiles_approvalProgram h) why
  exact h.trans

end Compilations

variable {c : Client}

theorem compilations_ledger :
    Compilations (Ledger.Reaches LedgerOp.IsCompile) (Ledger.network Ledger.compiler).compiler where
  refl := .refl
  trans := .trans
  leads := performs_compiler

theorem performs_approvalProgram : Performs LedgerOp.IsCompile Session.world
    (approvalProgram (Ledger.network Ledger.compiler) c) :=
  compiles_approvalProgram compilations_ledger

theorem performs_clearProgram : Performs LedgerOp.IsCompile Session.world
    (clearProgram (Ledger.network Ledger.compiler) c) :=
  compiles_clearProgram compilations_ledger

theorem performs_compile : Performs LedgerOp.IsCompile Session.world
    (c.compile (Ledger.network Ledger.compiler)) :=
  compiles_compile compilations_ledger

/-! ## Operations -/

theorem performs_sending (simulate : Bool) (maxRounds : Option Nat) :
    Performs (fun _ => True) (fun w => w.2.world)
      (sending (Ledger.network Ledger.compiler) simulate maxRounds) := by
  cases simulate with
  | true => exact .of_keeps (AtomicGroup.keeps_simulate _)
  | false => exact AtomicGroup.performs_execute maxRounds

/-- All parts of an operation come down to operations of the ledger. -/
theorem partsLead_performs : PartsLead (InvImage (Ledger.Reaches fun _ => True) Session.world)
    (Ledger.network Ledger.compiler) c where
  refl _ := .refl _
  trans := Ledger.Reaches.trans
  params _ := .refl _
  application _ _ := .refl _
  accountState _ _ _ := .refl _
  sending _ simulate maxRounds := (performs_sending simulate maxRounds).withGroup
  approvalProgram := performs_approvalProgram.mono fun _ _ => trivial
  compile := performs_compile.mono fun _ _ => trivial

theorem performs_alongside {net' : Network σ} {Sent : AtomicGroup → Prop}
    {x : ClientEffect Ledger α} {x' : ClientEffect σ α}
    (h : Alongside (Ledger.network Ledger.compiler) net' c Sent x x') :
    Performs (fun _ => True) Session.world x :=
  partsLead_performs.alongside h

theorem performs_perform (op : Operation) : Performs (fun _ => True) Session.world
    (op.perform (Ledger.network Ledger.compiler) c) := by
  have halike : SendsOnly (Ledger.network Ledger.compiler) c (Assembled (op.Calls c.app))
      (op.perform (Ledger.network Ledger.compiler) c) := alongside_perform op
  exact performs_alongside halike

end Client

end AppLedger
