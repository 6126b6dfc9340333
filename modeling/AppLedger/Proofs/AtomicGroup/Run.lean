import AppLedger.Proofs.AtomicGroup.Recorded
import AppLedger.Proofs.AtomicGroup.Sending
import AppLedger.Proofs.AtomicGroup.Sound

/-! Everything that can be done with a group, in any order and against any node. The group stays
sound and goes forward only, and the node is handed one list of signed transactions, which it
accepts at most once. -/

namespace AppLedger

open Effect

inductive GroupOp
  | addTransaction (m : Member)
  | addMethodCall (c : MethodCall)
  | build
  | gatherSignatures
  | submit
  | execute (maxRounds : Option Nat)
  | simulate

namespace AtomicGroup

variable {σ τ : Type}

/-- The group and the session that an operation leaves, whether it succeeds or fails. -/
def perform (net : Network σ) (w : AtomicGroup × Session σ) : GroupOp → AtomicGroup × Session σ
  | .addTransaction m => ((w.1.addTransaction m).2, w.2)
  | .addMethodCall c => ((w.1.addMethodCall c).2, w.2)
  | .build => (w.1.build.2, w.2)
  | .gatherSignatures => (w.1.gatherSignatures.2, w.2)
  | .submit => ((submit net).outcome w).2
  | .execute maxRounds => ((execute net maxRounds).outcome w).2
  | .simulate => ((simulate net).outcome w).2

def run (net : Network σ) (w : AtomicGroup × Session σ) (ops : List GroupOp) :
    AtomicGroup × Session σ :=
  ops.foldl (perform net) w

theorem onPart_perform {part : τ → σ} {net : Network σ} {net' : Network τ}
    (h : net.node.FollowedBy part net'.node) (w : AtomicGroup × Session τ) (op : GroupOp) :
    onPart part (perform net' w op) = perform net (onPart part w) op := by
  cases op with
  | submit => exact (congrArg Prod.snd (follows_submit h w)).symm
  | execute maxRounds => exact (congrArg Prod.snd (follows_execute h maxRounds w)).symm
  | simulate => exact (congrArg Prod.snd (follows_simulate h w)).symm
  | addTransaction | addMethodCall | build | gatherSignatures => rfl

/-- The record has no part in what happens. -/
theorem onPart_run (net : Network σ) (w : AtomicGroup × Session (σ × List Handover))
    (ops : List GroupOp) :
    onPart Prod.fst (run net.recorded w ops) = run net (onPart Prod.fst w) ops := by
  induction ops generalizing w with
  | nil => rfl
  | cons op ops ih =>
    have hop : onPart Prod.fst (perform net.recorded w op) = perform net (onPart Prod.fst w) op :=
      onPart_perform net.node.followedBy_recorded w op
    rw [run, List.foldl_cons, ← run, ih, hop]
    rfl

/-! ## What is handed over -/

/-- Only the signed group is handed over, and it is accepted once if the group counts as
submitted. -/
structure HandedOver (g : AtomicGroup) (record : List Handover) : Prop where
  same : ∀ h ∈ record, g.signed = some h.signed
  accepted : record.countP (·.isAccepted) =
    if GroupStatus.submitted.rank ≤ g.status.rank then 1 else 0

/-- From a sound group with a true record to another one that it can become. -/
def GoesOn (w w' : AtomicGroup × Session (σ × List Handover)) : Prop :=
  w.1.Sound → w.1.HandedOver w.2.record →
    w'.1.Sound ∧ w'.1.HandedOver w'.2.record ∧ w.1.Advances w'.1

variable {w w' w'' : AtomicGroup × Session (σ × List Handover)} {net : Network σ}

theorem GoesOn.refl (w : AtomicGroup × Session (σ × List Handover)) : GoesOn w w :=
  fun hsound hrecord => ⟨hsound, hrecord, .refl _⟩

theorem GoesOn.trans (h : GoesOn w w') (h' : GoesOn w' w'') : GoesOn w w'' := by
  intro hsound hrecord
  obtain ⟨hsound', hrecord', hadvances⟩ := h hsound hrecord
  obtain ⟨hsound'', hrecord'', hadvances'⟩ := h' hsound' hrecord'
  exact ⟨hsound'', hrecord'', hadvances.trans hadvances'⟩

theorem goesOn_of_prepares (hgroup : w.1.Prepares w'.1) (hsame : w'.2.record = w.2.record) :
    GoesOn w w' := by
  intro hsound hrecord
  obtain ⟨hsound', hadvances, hsent⟩ := hgroup hsound
  refine ⟨hsound', ⟨?_, ?_⟩, hadvances⟩
  · rw [hsame]
    exact fun h hh => hadvances.signed _ (hrecord.same h hh)
  · rw [hsame, hrecord.accepted]
    simp only [hsent]

def settled (w : AtomicGroup × Session (σ × List Handover)) : AtomicGroup × List Handover :=
  (w.1, w.2.record)

theorem goesOn_of_settled (h : settled w' = settled w) : GoesOn w w' := by
  obtain ⟨hgroup, hrecord⟩ := Prod.mk.inj h
  exact goesOn_of_prepares (hgroup ▸ .refl _) hrecord

theorem keeps_settled_onSession {α : Type}
    {x : Effect ClientError (Session (σ × List Handover)) α} (h : Keeps Session.record x) :
    Keeps settled (onSession x) :=
  fun w => Prod.ext rfl (h w.2)

theorem keeps_settled_read {α : Type} (f : AtomicGroup → Except ClientError α) :
    Keeps settled (onGroup fun g => (f g, g) : GroupEffect (σ × List Handover) α) :=
  fun _ => rfl

theorem keeps_record_ask {α : Type} (x : Effect NodeError σ α) :
    Keeps Session.record (Session.ask (x.onFst : Effect NodeError (σ × List Handover) α)) :=
  fun _ => rfl

theorem leads_gatherSignatures :
    Leads GoesOn (onGroup gatherSignatures : GroupEffect (σ × List Handover) _) :=
  fun w => goesOn_of_prepares (prepares_gatherSignatures w.1) rfl

theorem leads_simulate (net : Network σ) : Leads GoesOn (simulate net.recorded) := by
  refine leads_gatherSignatures.bind .trans fun signed => ?_
  refine Keeps.leads ?_ fun _ _ => goesOn_of_settled
  refine keeps_ofExcept.bind fun ids => ?_
  refine (keeps_settled_onSession (keeps_record_ask _)).bind fun result => ?_
  refine (keeps_settled_onSession (keeps_announce fun _ => rfl)).bind fun _ => ?_
  cases result.failure with
  | some reason => exact keeps_throw
  | none => exact (keeps_settled_read _).bind fun _ => keeps_pure

/-! ## Submission -/

section Submission

variable {g : AtomicGroup} {record : List Handover} {signed : List SignedTransaction}

theorem Sound.withStatus (h : g.Sound) (hsigned : GroupStatus.signed.rank ≤ g.status.rank)
    {status : GroupStatus} (hstatus : GroupStatus.signed.rank ≤ status.rank) :
    ({ g with status } : AtomicGroup).Sound where
  size_le := h.size_le
  ungrouped := h.ungrouped
  isSome_built := by
    have hlow : GroupStatus.built.rank ≤ GroupStatus.signed.rank := by decide
    exact iff_of_true (h.isSome_built.mpr (Nat.le_trans hlow hsigned)) (Nat.le_trans hlow hstatus)
  isSome_signed := iff_of_true (h.isSome_signed.mpr hsigned) hstatus
  binds := h.binds
  wraps := h.wraps

theorem advances_withStatus {status : GroupStatus} (h : g.status.rank ≤ status.rank) :
    g.Advances { g with status } :=
  ⟨h, fun _ => rfl, fun _ h => h, fun _ h => h⟩

theorem HandedOver.same_append (h : g.HandedOver record) (hsigned : g.signed = some signed)
    (answer : Except NodeError String) :
    ∀ h ∈ record ++ [(⟨signed, answer⟩ : Handover)], g.signed = some h.signed := by
  rw [List.forall_mem_append]
  exact ⟨h.same, by simpa using hsigned⟩

theorem handedOver_refused (h : g.HandedOver record) (hsigned : g.signed = some signed)
    (why : NodeError) : g.HandedOver (record ++ [⟨signed, .error why⟩]) where
  same := h.same_append hsigned _
  accepted := by
    rw [List.countP_append, h.accepted]
    rfl

theorem handedOver_accepted (h : g.HandedOver record) (hsigned : g.signed = some signed)
    (hrank : ¬ GroupStatus.submitted.rank ≤ g.status.rank) (id : String) :
    ({ g with status := .submitted } : AtomicGroup).HandedOver (record ++ [⟨signed, .ok id⟩]) where
  same := h.same_append hsigned _
  accepted := by
    rw [List.countP_append, h.accepted, if_neg hrank]
    rfl

end Submission

theorem goesOn_submit (net : Network σ) (w : AtomicGroup × Session (σ × List Handover)) :
    GoesOn w ((submit net.recorded).outcome w).2 ∧
      ∀ ids, ((submit net.recorded).outcome w).1 = .ok ids →
        ((submit net.recorded).outcome w).2.1.status = .submitted := by
  obtain ⟨g, s⟩ := w
  obtain ⟨-, hcase⟩ | ⟨hrank, ⟨why, hcase⟩ | ⟨signed, ids, hgathered, -, hcase⟩⟩ :=
    submit_cases net.recorded g s
  · rw [hcase]
    exact ⟨.refl _, nofun⟩
  · rw [hcase]
    exact ⟨goesOn_of_prepares (prepares_gatherSignatures g) rfl, nofun⟩
  · have hsigned := signed_of_gatherSignatures hgathered
    -- the answer is that of the node itself, and the group is recorded with it
    have hanswer : (net.recorded.node.submit signed).outcome s.world =
        (((net.node.submit signed).outcome s.world.1).1,
          ((net.node.submit signed).outcome s.world.1).2,
          s.record ++ [⟨signed, ((net.node.submit signed).outcome s.world.1).1⟩]) := rfl
    have hgoes : GoesOn (g, s) (g.gatherSignatures.2, s) :=
      goesOn_of_prepares (prepares_gatherSignatures g) rfl
    -- gathering the signatures does not send the group, so that this is the first acceptance
    have hunsent (hsound : g.Sound) :
        ¬ GroupStatus.submitted.rank ≤ g.gatherSignatures.2.status.rank :=
      mt (prepares_gatherSignatures g hsound).2.2.mp hrank
    rw [hcase, hanswer]
    rcases (net.node.submit signed).outcome s.world.1 with ⟨why | id, world⟩
    · refine ⟨hgoes.trans fun hsound hrecord => ?_, nofun⟩
      exact ⟨hsound, handedOver_refused hrecord hsigned why, .refl _⟩
    · refine ⟨fun hsound hrecord => ?_, fun _ _ => rfl⟩
      obtain ⟨hsound', hrecord', hadvances⟩ := hgoes hsound hrecord
      have hrank' := hsound'.isSome_signed.mp (by rw [hsigned]; rfl)
      refine ⟨hsound'.withStatus hrank' (by decide),
        handedOver_accepted hrecord' hsigned (hunsent hsound) id, hadvances.trans ?_⟩
      exact advances_withStatus (Nat.le_of_not_le (hunsent hsound))

/-! ## Confirmation -/

/-- Nothing is handed over, and the group may have become committed. -/
def Settles (w w' : AtomicGroup × Session (σ × List Handover)) : Prop :=
  w'.2.record = w.2.record ∧ (w'.1 = w.1 ∨ w'.1 = { w.1 with status := .committed })

theorem Settles.trans (h : Settles w w') (h' : Settles w' w'') : Settles w w'' := by
  refine ⟨h'.1.trans h.1, ?_⟩
  obtain hgroup | hgroup := h'.2
  · rw [hgroup]
    exact h.2
  · rw [hgroup]
    obtain hfirst | hfirst := h.2
    all_goals
      rw [hfirst]
      exact .inr rfl

theorem settles_of_settled (h : settled w' = settled w) : Settles w w' := by
  obtain ⟨hgroup, hrecord⟩ := Prod.mk.inj h
  exact ⟨hrecord, .inl hgroup⟩

theorem goesOn_of_settles (hstatus : w.1.status = .submitted) (h : Settles w w') : GoesOn w w' := by
  obtain ⟨hrecord, hgroup | hgroup⟩ := h
  · exact goesOn_of_prepares (hgroup ▸ .refl _) hrecord
  · have hsigned : GroupStatus.signed.rank ≤ GroupStatus.submitted.rank := by decide
    have hcommitted : GroupStatus.submitted.rank ≤ GroupStatus.committed.rank := by decide
    refine goesOn_of_prepares ?_ hrecord
    rw [hgroup, Prepares, hstatus]
    intro hsound
    have hsound' := hsound.withStatus (hstatus ▸ hsigned) (Nat.le_trans hsigned hcommitted)
    exact ⟨hsound', advances_withStatus (hstatus ▸ hcommitted),
      iff_of_true hcommitted (Nat.le_refl _)⟩

theorem waits_recorded (node : Node σ) : node.recorded.Waits Prod.snd where
  pending _ := fun _ => rfl
  lastRound := fun _ => rfl
  waitForBlock _ := fun _ => rfl

theorem leads_concludeExecution (net : Network σ) (maxRounds : Option Nat) (ids : List String) :
    Leads Settles (concludeExecution net.recorded maxRounds ids) := by
  have hkept {α : Type} {x : GroupEffect (σ × List Handover) α} (h : Keeps settled x) :
      Leads Settles x := h.leads fun _ _ => settles_of_settled
  cases ids with
  | nil => exact hkept keeps_throw
  | cons first rest =>
    refine (hkept keeps_get).bind .trans fun w => ?_
    have hwait (budget : Nat) : Keeps Session.record
        (Session.onWorld (waitForConfirmation net.recorded.node first budget)) :=
      fun s => keeps_waitForConfirmation (waits_recorded net.node) first budget s.world
    refine (hkept (keeps_settled_onSession (hwait _))).bind .trans fun confirmed => ?_
    have hpending (id : String) : Keeps settled
        (onSession (Session.ask (net.recorded.node.pending id))) :=
      keeps_settled_onSession (keeps_record_ask _)
    refine (hkept (.mapM hpending _)).bind .trans fun others => ?_
    have hcommitted : Leads Settles (setStatus .committed : GroupEffect (σ × List Handover) _) :=
      fun _ => ⟨rfl, .inr rfl⟩
    refine hcommitted.bind .trans fun _ => ?_
    exact hkept ((keeps_settled_read _).bind fun _ => keeps_pure)

theorem goesOn_execute (net : Network σ) (maxRounds : Option Nat)
    (w : AtomicGroup × Session (σ × List Handover)) :
    GoesOn w ((execute net.recorded maxRounds).outcome w).2 := by
  obtain ⟨hgoes, hsubmitted⟩ := goesOn_submit net w
  rw [execute_eq, outcome_bind]
  rcases hsubmit : (submit net.recorded).outcome w with ⟨why | ids, w'⟩
  all_goals rw [hsubmit] at hgoes hsubmitted
  · exact hgoes
  · have hsettles := leads_concludeExecution net maxRounds ids w'
    exact hgoes.trans (goesOn_of_settles (hsubmitted ids rfl) hsettles)

/-! ## Runs -/

theorem goesOn_perform (net : Network σ) (w : AtomicGroup × Session (σ × List Handover))
    (op : GroupOp) : GoesOn w (perform net.recorded w op) := by
  cases op with
  | addTransaction m => exact goesOn_of_prepares (prepares_addTransaction w.1 m) rfl
  | addMethodCall c => exact goesOn_of_prepares (prepares_addMethodCall w.1 c) rfl
  | build => exact goesOn_of_prepares (prepares_build w.1) rfl
  | gatherSignatures => exact goesOn_of_prepares (prepares_gatherSignatures w.1) rfl
  | submit => exact (goesOn_submit net w).1
  | execute maxRounds => exact goesOn_execute net maxRounds w
  | simulate => exact leads_simulate net w

theorem goesOn_run (net : Network σ) (w : AtomicGroup × Session (σ × List Handover))
    (ops : List GroupOp) : GoesOn w (run net.recorded w ops) := by
  induction ops generalizing w with
  | nil => exact .refl w
  | cons op ops ih => exact (goesOn_perform net w op).trans (ih _)

theorem handedOver_empty : ({} : AtomicGroup).HandedOver [] where
  same := by simp
  accepted := by decide

/-- After every sequence of operations from an empty group on, whatever fails in between and
whatever the node answers, the group is sound. Every further sequence leads only forward. The node
was handed nothing but the signed group, and it has accepted it once if the group counts as
submitted and never otherwise. -/
theorem sound_run (net : Network σ) (s : Session σ) (ops further : List GroupOp) :
    let w := run net.recorded ({}, s.recorded) ops
    let w' := run net.recorded w further
    onPart Prod.fst w = run net ({}, s) ops ∧
      onPart Prod.fst w' = run net ({}, s) (ops ++ further) ∧
      w.1.Sound ∧ w.1.HandedOver w.2.record ∧ w.1.Advances w'.1 := by
  intro w w'
  have hstart : onPart Prod.fst (({}, s.recorded) : AtomicGroup × Session (σ × List Handover)) =
      ({}, s) := rfl
  have hw : onPart Prod.fst w = run net ({}, s) ops := by rw [onPart_run, hstart]
  have hw' : onPart Prod.fst w' = run net ({}, s) (ops ++ further) := by
    rw [onPart_run, hw, run, run, run, List.foldl_append]
  obtain ⟨hsound, hrecord, -⟩ := goesOn_run net ({}, s.recorded) ops sound_empty handedOver_empty
  obtain ⟨-, -, hadvances⟩ := goesOn_run net w further hsound hrecord
  exact ⟨hw, hw', hsound, hrecord, hadvances⟩

end AtomicGroup

end AppLedger
