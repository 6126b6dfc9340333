import AppLedger.Proofs.AtomicGroup.Recorded
import AppLedger.Proofs.Client.Compilation

/-! The groups that an operation of a client hands to a ledger, each with the ledger as it was then.
Where the ledger refuses one of them, the operation ends with what the client makes of that. -/

namespace AppLedger

open Effect

variable {σ τ α : Type}

/-- A group that a ledger is asked to take, or to simulate. -/
structure Attempt where
  ledger : Ledger
  signed : List SignedTransaction
  simulated : Bool

namespace Attempt

/-- Why the ledger refuses the group. One that is set to refuse all groups does not look at it. -/
def refusal? (a : Attempt) : Option GroupRejection :=
  if !a.simulated && a.ledger.faults.submission.isSome then none
  else
    match Evaluation.ofGroup a.ledger.programs a.ledger.state a.signed a.simulated with
    | .error why => some why
    | .ok _ => none

/-- The text of a refusal. -/
def reason (a : Attempt) (why : GroupRejection) : String :=
  if a.simulated then why.message else s!"TransactionPool.Remember: {why.message}"

variable {a : Attempt} {why : GroupRejection}

theorem ofGroup_of_refusal? (h : a.refusal? = some why) :
    Evaluation.ofGroup a.ledger.programs a.ledger.state a.signed a.simulated = .error why := by
  rw [refusal?] at h
  split at h
  · exact absurd h nofun
  · split at h
    · next hgroup => rw [hgroup, Option.some.inj h]
    · exact absurd h nofun

theorem submit_of_refusal? {l : Ledger} {signed : List SignedTransaction}
    (h : refusal? ⟨l, signed, false⟩ = some why) :
    (l.submit signed).1 = .error (.rejected (reason ⟨l, signed, false⟩ why)) := by
  have hgroup := ofGroup_of_refusal? h
  dsimp only at hgroup
  cases hfault : l.faults.submission with
  | some text =>
    rw [refusal?, hfault] at h
    exact absurd h nofun
  | none =>
    simp only [Ledger.submit, hfault, hgroup]
    rfl

theorem simulate_of_refusal? {l : Ledger} {signed : List SignedTransaction}
    (h : refusal? ⟨l, signed, true⟩ = some why) :
    (l.simulate signed).failure = some (reason ⟨l, signed, true⟩ why) := by
  have hgroup := ofGroup_of_refusal? h
  dsimp only at hgroup
  rw [Ledger.simulate, hgroup]
  rfl

end Attempt

namespace Ledger

/-- The ledger, with a list of what it has been asked to take or to simulate. -/
def watchedNode : Node (Ledger × List Attempt) :=
  { node.lift fun x => x.onFst with
    submit := fun signed => ExceptT.mk fun (l, seen) =>
      let (answer, l') := l.submit signed
      (answer, l', seen ++ [⟨l, signed, false⟩])
    simulate := fun signed => ExceptT.mk fun (l, seen) =>
      (.ok (l.simulate signed), l, seen ++ [⟨l, signed, true⟩]) }

def watched : Network (Ledger × List Attempt) :=
  ⟨watchedNode, compiler.lift fun x => x.onFst⟩

end Ledger

/-! ## A client on a larger world -/

/-- What clients ask of a network is answered on the larger world as it is on the part. -/
structure Network.FollowedBy (part : τ → σ) (net : Network σ) (net' : Network τ) : Prop where
  node : net.node.FollowedBy part net'.node
  params : Follows part net'.node.params net.node.params
  application : ∀ app, Follows part (net'.node.application app) (net.node.application app)
  accountState : ∀ account app,
    Follows part (net'.node.accountState account app) (net.node.accountState account app)
  compile : ∀ source version,
    Follows part (net'.compiler.compile source version) (net.compiler.compile source version)

theorem Ledger.followedBy_watched :
    (Ledger.network Ledger.compiler).FollowedBy Prod.fst Ledger.watched where
  node :=
    { submit := fun _ => fun _ => rfl
      simulate := fun _ => fun _ => rfl
      pending := fun _ => follows_onFst _
      lastRound := follows_onFst _
      waitForBlock := fun _ => follows_onFst _ }
  params := follows_onFst _
  application _ := follows_onFst _
  accountState _ _ := follows_onFst _
  compile _ _ := follows_onFst _

namespace Client

section Follows

variable {part : τ → σ} {net : Network σ} {net' : Network τ} {c : Client}

theorem follows_compileSource (h : net.FollowedBy part net') (source : String) :
    Follows (Session.mapWorld part) (compileSource net' c source) (compileSource net c source) := by
  refine follows_ofExcept.bind fun text => ?_
  refine (follows_onWorld (h.compile text _)).mapError.bind fun compiled => ?_
  split
  · exact follows_pure
  · exact follows_throw

theorem follows_approvalProgram (h : net.FollowedBy part net') :
    Follows (Session.mapWorld part) (approvalProgram net' c) (approvalProgram net c) := by
  refine Follows.get_bind fun s => ?_
  have hcache : (s.mapWorld part).cache c.family = s.cache c.family := rfl
  rw [hcache]
  split
  · exact follows_pure
  · refine (follows_compileSource h _).bind fun program => Follows.bind ?_ fun _ => follows_pure
    exact fun _ => rfl

theorem follows_clearProgram (h : net.FollowedBy part net') :
    Follows (Session.mapWorld part) (clearProgram net' c) (clearProgram net c) := by
  refine Follows.get_bind fun s => ?_
  have hcache : (s.mapWorld part).cache c.family = s.cache c.family := rfl
  rw [hcache]
  split
  · exact follows_pure
  · refine (follows_compileSource h _).bind fun program => Follows.bind ?_ fun _ => follows_pure
    exact fun _ => rfl

theorem follows_compile (h : net.FollowedBy part net') :
    Follows (Session.mapWorld part) (c.compile net') (c.compile net) := by
  refine (follows_approvalProgram h).bind fun ⟨approval, newApproval⟩ => ?_
  refine (follows_clearProgram h).bind fun ⟨clear, newClear⟩ => ?_
  dsimp only
  split
  · exact (follows_announce _).bind fun _ => follows_pure
  · exact follows_pure

theorem follows_explain (h : net.FollowedBy part net') (why : ClientError) :
    Follows (Session.mapWorld part) (c.explain net' why) (c.explain net why) := by
  cases why with
  | submission reason =>
    rw [explain, explain]
    cases LogicError.Report.ofText? reason with
    | none => exact follows_pure
    | some report =>
      by_cases hforeign : c.isForeign report = true
      · simp only [if_pos hforeign]
        exact follows_pure
      · simp only [if_neg hforeign, approvalLine]
        refine Follows.bind ?_ fun _ => follows_pure
        refine (follows_approvalProgram h).observe.bind fun r => ?_
        rcases r with _ | ⟨program, _⟩ <;> exact follows_pure
  | _ => exact follows_pure

theorem follows_sending (h : net.FollowedBy part net') (g : AtomicGroup) (simulate : Bool)
    (maxRounds : Option Nat) :
    Follows (Session.mapWorld part) (withGroup g (sending net' simulate maxRounds))
      (withGroup g (sending net simulate maxRounds)) := by
  have hrun : Follows (AtomicGroup.onPart part) (sending net' simulate maxRounds)
      (sending net simulate maxRounds) := by
    cases simulate with
    | true => exact AtomicGroup.follows_simulate h.node
    | false => exact AtomicGroup.follows_execute h.node maxRounds
  intro s
  have hgroup : (sending net simulate maxRounds).outcome (g, s.mapWorld part) = _ := hrun (g, s)
  rw [outcome_withGroup, outcome_withGroup, hgroup]
  rfl

theorem follows_alongside (h : net.FollowedBy part net') {Sent : AtomicGroup → Prop}
    {x : ClientEffect σ α} {x' : ClientEffect τ α} (hx : Alongside net net' c Sent x x') :
    Follows (Session.mapWorld part) x' x := by
  induction hx with
  | ofExcept r => exact follows_ofExcept
  | params => exact follows_ask h.params
  | application app => exact follows_ask (h.application app)
  | accountState account app f => exact (follows_onWorld (h.accountState account app)).mapError
  | compile => exact follows_compile h
  | @send g _ simulate maxRounds =>
    refine (follows_sending h g simulate maxRounds).observe.bind fun r => ?_
    rcases r with why | result
    · exact (follows_explain h why).bind fun _ => follows_throw
    · exact follows_pure
  | bind _ _ ihx ihf => exact ihx.bind_yields ihf

end Follows

end Client

/-! ## What is handed to the ledger -/

abbrev WatchedSession := Session (Ledger × List Attempt)

namespace AtomicGroup

/-- The effect hands one group to the ledger or none. If the ledger refuses it, the effect ends with
the refusal. -/
def HandsOver (x : GroupEffect (Ledger × List Attempt) α) : Prop :=
  ∀ w, (x.outcome w).2.2.world.2 = w.2.world.2 ∨
    ∃ a : Attempt, a.ledger = w.2.world.1 ∧ (x.outcome w).2.2.world.2 = w.2.world.2 ++ [a] ∧
      ∀ why, a.refusal? = some why → (x.outcome w).1 = .error (.submission (a.reason why))

theorem waits_watched : Ledger.watched.node.Waits Prod.snd where
  pending _ := fun _ => rfl
  lastRound := fun _ => rfl
  waitForBlock _ := fun _ => rfl

theorem HandsOver.bind {β : Type} {x : GroupEffect (Ledger × List Attempt) α}
    {f : α → GroupEffect (Ledger × List Attempt) β} (hx : HandsOver x)
    (hf : ∀ a, Keeps (besides Prod.snd) (f a)) : HandsOver (x >>= f) := by
  intro w
  have hfirst := hx w
  rw [outcome_bind]
  rcases hrun : x.outcome w with ⟨why | a, w'⟩
  all_goals
    rw [hrun] at hfirst
    rcases hfirst with hnone | ⟨a', hledger, hseen, hrefused⟩
  · exact .inl hnone
  · refine .inr ⟨a', hledger, hseen, fun why' hwhy => ?_⟩
    exact congrArg Except.error (Except.error.inj (hrefused why' hwhy))
  · obtain ⟨-, hrest⟩ := Prod.mk.inj (hf a w')
    exact .inl (hrest.trans hnone)
  · obtain ⟨-, hrest⟩ := Prod.mk.inj (hf a w')
    refine .inr ⟨a', hledger, hrest.trans hseen, fun why hwhy => ?_⟩
    exact absurd (hrefused why hwhy) nofun

theorem handsOver_submit : HandsOver (submit Ledger.watched) := by
  rintro ⟨g, s⟩
  obtain ⟨-, hcase⟩ | ⟨-, ⟨why, hcase⟩ | ⟨signed, ids, -, -, hcase⟩⟩ :=
    submit_cases Ledger.watched g s
  · exact .inl (by rw [hcase])
  · exact .inl (by rw [hcase])
  · have hanswer : (Ledger.watched.node.submit signed).outcome s.world =
        ((s.world.1.submit signed).1, (s.world.1.submit signed).2,
          s.world.2 ++ [⟨s.world.1, signed, false⟩]) := rfl
    rw [hanswer] at hcase
    refine .inr ⟨⟨s.world.1, signed, false⟩, rfl, ?_, fun why hwhy => ?_⟩
    · rw [hcase]
      rcases s.world.1.submit signed with ⟨why | taken, l⟩ <;> rfl
    · rw [hcase, Attempt.submit_of_refusal? hwhy]
      rfl

theorem handsOver_execute (maxRounds : Option Nat) :
    HandsOver (execute Ledger.watched maxRounds) := by
  rw [execute_eq]
  exact handsOver_submit.bind fun ids => keeps_concludeExecution waits_watched maxRounds ids

theorem concludeSimulation_fails {ids : List String} {result : Simulation} {reason : String}
    (h : result.failure = some reason) (w : AtomicGroup × Session σ) :
    ((concludeSimulation ids result).outcome w).1 = .error (.submission reason) := by
  have hannounced : ∃ w', (onSession (Session.announce (.simulated result))).outcome w =
      ((.ok (), w') : Except ClientError Unit × _) := by
    rw [Session.announce, onSession, onSnd, outcome_onPart, outcome_bind, outcome_get]
    dsimp only
    split <;> exact ⟨_, rfl⟩
  obtain ⟨w', hannounced⟩ := hannounced
  rw [concludeSimulation, outcome_bind, hannounced, h]
  rfl

theorem handsOver_simulate : HandsOver (simulate Ledger.watched) := by
  rintro ⟨g, s⟩
  rw [simulate_eq, outcome_bind, outcome_onGroup]
  rcases g.gatherSignatures with ⟨why | signed, g'⟩
  · exact .inl rfl
  dsimp only
  rw [outcome_bind, outcome_ofExcept]
  rcases ids signed with why | ids
  · exact .inl rfl
  let result := s.world.1.simulate signed
  have hanswer : (Ledger.watched.node.simulate signed).outcome s.world =
      (.ok result, s.world.1, s.world.2 ++ [⟨s.world.1, signed, true⟩]) := rfl
  dsimp only
  rw [outcome_bind, outcome_ask, hanswer]
  refine .inr ⟨⟨s.world.1, signed, true⟩, rfl, ?_, fun why hwhy => ?_⟩
  · exact (Prod.mk.inj (keeps_concludeSimulation ids result _)).2
  · exact concludeSimulation_fails (Attempt.simulate_of_refusal? hwhy) _

end AtomicGroup

namespace Client

variable {c : Client} {Sent : AtomicGroup → Prop}

/-- What an attempt comes to in a run of the effect: the run goes on to a session with the programs
of the attempt, and if the ledger refuses, it ends with what the refusal is there explained as. -/
def Settled (c : Client) (x : ClientEffect Ledger α) (s : Session Ledger) (a : Attempt) : Prop :=
  ∃ u, Onward c s u ∧ u.world.programs = a.ledger.programs ∧
    ∀ why, a.refusal? = some why → ∃ e t,
      Yields (c.explain (Ledger.network Ledger.compiler) (.submission (a.reason why))) u e t ∧
        Fails x s e t

/-- All that the effect hands to the ledger comes to something in the run without a watch. -/
def Accounts (c : Client) (x : ClientEffect Ledger α)
    (x' : ClientEffect (Ledger × List Attempt) α) : Prop :=
  ∀ s : WatchedSession, ∃ added, (x'.outcome s).2.world.2 = s.world.2 ++ added ∧
    ∀ a ∈ added, Settled c x (s.mapWorld Prod.fst) a

theorem accounts_of_keeps {x : ClientEffect Ledger α} {x' : ClientEffect (Ledger × List Attempt) α}
    (h : Keeps (fun s => s.world.2) x') : Accounts c x x' :=
  fun s => ⟨[], by rw [List.append_nil]; exact h s, nofun⟩

theorem compilations_watched :
    Compilations (fun w w' => w'.2 = w.2) Ledger.watched.compiler where
  refl _ := rfl
  trans h h' := h'.trans h
  leads _ _ := fun _ => rfl

theorem approvalLine_total (c : Client) (net : Network σ) (pc : Nat) (s : Session σ) :
    ∃ place t, Yields (c.approvalLine net pc) s place t := by
  rcases hrun : (approvalProgram net c).outcome s with ⟨why | ⟨program, fresh⟩, t⟩
  · exact ⟨none, t, yields_bind.mpr ⟨_, t, yields_observe.mpr hrun, yields_pure.mpr ⟨rfl, rfl⟩⟩⟩
  · exact ⟨_, t, yields_bind.mpr ⟨_, t, yields_observe.mpr hrun, yields_pure.mpr ⟨rfl, rfl⟩⟩⟩

/-- An error is always explained, be it as itself. -/
theorem explain_total (c : Client) (net : Network σ) (why : ClientError) (s : Session σ) :
    ∃ e t, Yields (c.explain net why) s e t := by
  cases why with
  | submission reason =>
    rw [explain]
    cases LogicError.Report.ofText? reason with
    | none => exact ⟨_, s, yields_pure.mpr ⟨rfl, rfl⟩⟩
    | some report =>
      by_cases hforeign : c.isForeign report = true
      · simp only [if_pos hforeign]
        exact ⟨_, s, yields_pure.mpr ⟨rfl, rfl⟩⟩
      · simp only [if_neg hforeign]
        obtain ⟨place, t, hplace⟩ := approvalLine_total c net report.pc s
        exact ⟨_, t, yields_bind.mpr ⟨place, t, hplace, yields_pure.mpr ⟨rfl, rfl⟩⟩⟩
  | _ => exact ⟨_, s, yields_pure.mpr ⟨rfl, rfl⟩⟩

section Send

variable {g : AtomicGroup} {simulate : Bool} {maxRounds : Option Nat} {s t : WatchedSession}
  {r : Except ClientError GroupResult}

theorem handsOver_sending (simulate : Bool) (maxRounds : Option Nat) :
    AtomicGroup.HandsOver (sending Ledger.watched simulate maxRounds) := by
  cases simulate with
  | true => exact AtomicGroup.handsOver_simulate
  | false => exact AtomicGroup.handsOver_execute maxRounds

/-- Only the sending itself hands something over. -/
theorem seen_of_sending (h : (withGroup g (sending Ledger.watched simulate maxRounds)).outcome s =
    (r, t)) : ((c.send Ledger.watched g simulate maxRounds).outcome s).2.world.2 = t.world.2 := by
  have hobserve : (observe (withGroup g (sending Ledger.watched simulate maxRounds)) :
      ClientEffect (Ledger × List Attempt) _).outcome s = (.ok r, t) := by
    rw [outcome_observe, h]
  rw [send, outcome_bind, hobserve]
  rcases r with why | result
  · have hexplain : Keeps (fun s => s.world.2) (c.explain Ledger.watched why) :=
      compiles_explain compilations_watched why
    have hthrow (e : ClientError) : Keeps (fun s => s.world.2)
        (throw e : ClientEffect (Ledger × List Attempt) GroupResult) := keeps_throw
    exact hexplain.bind hthrow t
  · rfl

theorem settled_of_sending {a : Attempt}
    (h : (withGroup g (sending (Ledger.network Ledger.compiler) simulate maxRounds)).outcome
      (s.mapWorld Prod.fst) = (r, t.mapWorld Prod.fst)) (hledger : a.ledger = s.world.1)
    (hrefused : ∀ why, a.refusal? = some why → r = .error (.submission (a.reason why))) :
    Settled c (c.send (Ledger.network Ledger.compiler) g simulate maxRounds)
      (s.mapWorld Prod.fst) a := by
  have honward : Onward c (s.mapWorld Prod.fst) (t.mapWorld Prod.fst) := by
    have hleads := leads_sending (c := c) g simulate maxRounds (s.mapWorld Prod.fst)
    rw [h] at hleads
    exact hleads
  have hprograms : (t.mapWorld Prod.fst).world.programs = a.ledger.programs := by
    have hkept := keeps_besides_sending simulate maxRounds (g, s.mapWorld Prod.fst)
    have hsession : ((sending (Ledger.network Ledger.compiler) simulate maxRounds).outcome
        (g, s.mapWorld Prod.fst)).2.2 = t.mapWorld Prod.fst := congrArg Prod.snd h
    rw [AtomicGroup.besides, Session.besides, hsession] at hkept
    rw [hledger]
    exact (Prod.mk.inj (Prod.mk.inj hkept).2).2
  refine ⟨t.mapWorld Prod.fst, honward, hprograms, fun why hwhy => ?_⟩
  obtain rfl := hrefused why hwhy
  obtain ⟨e, t', hexplained⟩ := explain_total c (Ledger.network Ledger.compiler)
    (.submission (a.reason why)) (t.mapWorld Prod.fst)
  refine ⟨e, t', hexplained, fails_bind.mpr (.inr ⟨_, _, yields_observe.mpr h, ?_⟩)⟩
  exact fails_bind.mpr (.inr ⟨e, t', hexplained, fails_throw.mpr ⟨rfl, rfl⟩⟩)

end Send

theorem accounts_send (g : AtomicGroup) (simulate : Bool) (maxRounds : Option Nat) :
    Accounts c (c.send (Ledger.network Ledger.compiler) g simulate maxRounds)
      (c.send Ledger.watched g simulate maxRounds) := by
  intro s
  have hplain := follows_sending Ledger.followedBy_watched g simulate maxRounds s
  have hhanded := handsOver_sending simulate maxRounds (g, s)
  rcases hrun : (withGroup g (sending Ledger.watched simulate maxRounds)).outcome s with ⟨r, t⟩
  rw [hrun] at hplain
  have hseen := seen_of_sending (c := c) hrun
  rw [outcome_withGroup] at hrun
  obtain ⟨hresult, hsession⟩ := Prod.mk.inj hrun
  rw [hresult, hsession] at hhanded
  rcases hhanded with hnone | ⟨a, hledger, hadded, hrefused⟩
  · exact ⟨[], by rw [hseen, hnone, List.append_nil], nofun⟩
  · refine ⟨[a], hseen.trans hadded, List.forall_mem_singleton.mpr ?_⟩
    exact settled_of_sending hplain hledger hrefused

section Bind

variable {β : Type} {x : ClientEffect Ledger α} {f : α → ClientEffect Ledger β}
  {s t : Session Ledger} {a : Attempt}

theorem Settled.bind (h : Settled c x s a) : Settled c (x >>= f) s a := by
  obtain ⟨u, honward, hprograms, hended⟩ := h
  refine ⟨u, honward, hprograms, fun why hwhy => ?_⟩
  obtain ⟨e, t, hexplained, hfails⟩ := hended why hwhy
  exact ⟨e, t, hexplained, fails_bind.mpr (.inl hfails)⟩

theorem Settled.bind_yields {r : α} (hyields : Yields x s r t) (honward : Onward c s t)
    (h : Settled c (f r) t a) : Settled c (x >>= f) s a := by
  obtain ⟨u, honward', hprograms, hended⟩ := h
  refine ⟨u, honward.trans honward', hprograms, fun why hwhy => ?_⟩
  obtain ⟨e, t', hexplained, hfails⟩ := hended why hwhy
  exact ⟨e, t', hexplained, fails_bind.mpr (.inr ⟨r, t, hyields, hfails⟩)⟩

end Bind

theorem accounts_alongside {x : ClientEffect Ledger α}
    {x' : ClientEffect (Ledger × List Attempt) α}
    (h : Alongside (Ledger.network Ledger.compiler) Ledger.watched c Sent x x') :
    Accounts c x x' := by
  induction h with
  | ofExcept r => exact accounts_of_keeps keeps_ofExcept
  | params | application | accountState => exact accounts_of_keeps fun _ => rfl
  | compile => exact accounts_of_keeps (compiles_compile compilations_watched)
  | send _ simulate maxRounds => exact accounts_send _ simulate maxRounds
  | @bind α β x x' f f' hx _ ihx ihf =>
    intro s
    have hplain := follows_alongside Ledger.followedBy_watched hx s
    have honward := leads_alongside hx (s.mapWorld Prod.fst)
    obtain ⟨added, hseen, hsettled⟩ := ihx s
    rw [outcome_bind]
    rcases hrun : x'.outcome s with ⟨why | r, t⟩
    all_goals rw [hrun] at hplain hseen
    · exact ⟨added, hseen, fun a ha => (hsettled a ha).bind⟩
    · rw [hplain] at honward
      obtain ⟨more, hseen', hsettled'⟩ := ihf r ⟨_, _, hplain⟩ t
      refine ⟨added ++ more, ?_, List.forall_mem_append.mpr ⟨fun a ha => ?_, fun a ha => ?_⟩⟩
      · rw [hseen', hseen, List.append_assoc]
      · exact (hsettled a ha).bind
      · exact (hsettled' a ha).bind_yields hplain honward

/-- How the operation ends on a ledger that is watched from now on. -/
def Operation.watch (op : Operation) (c : Client) (s : Session Ledger) :
    Except ClientError op.Answer × WatchedSession :=
  (op.perform Ledger.watched c).outcome (s.mapWorld fun l => (l, []))

/-- The groups that an operation hands to the ledger. -/
def Operation.attempts (op : Operation) (c : Client) (s : Session Ledger) : List Attempt :=
  (op.watch c s).2.world.2

/-- The watch makes no difference. -/
theorem result_of_watch (op : Operation) (c : Client) (s : Session Ledger) :
    ((op.perform (Ledger.network Ledger.compiler) c).outcome s).1 = (op.watch c s).1 :=
  congrArg Prod.fst (follows_alongside Ledger.followedBy_watched (alongside_perform op)
    (s.mapWorld fun l => (l, [])))

/-- A refused attempt ends the operation with what the client makes of the refusal. -/
theorem settled_of_attempt {op : Operation} {s : Session Ledger} {a : Attempt}
    (h : a ∈ op.attempts c s) :
    Settled c (op.perform (Ledger.network Ledger.compiler) c) s a := by
  obtain ⟨added, hseen, hsettled⟩ := accounts_alongside (alongside_perform (c := c) op)
    (s.mapWorld fun l => (l, []))
  rw [Operation.attempts, Operation.watch, hseen] at h
  exact hsettled a h

end Client

end AppLedger
