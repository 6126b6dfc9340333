import AppLedger.Proofs.Ledger.Isolation
import AppLedger.Proofs.Ledger.Schema
import AppLedger.Proofs.Ledger.Simulation

/-! What a ledger counts and remembers only grows. Applications are numbered one after the other,
every confirmed group takes a later round than those before it, and what is known of a transaction
stays as it was first recorded. -/

namespace AppLedger

/-- The applications have the numbers from `first` up to `next`, in their order. -/
def Numbered (first next : Nat) (apps : List UInt64) : Prop :=
  first ≤ next ∧ apps.map UInt64.toNat = List.range' first (next - first)

theorem numbered_nil (n : Nat) : Numbered n n [] :=
  ⟨Nat.le_refl n, by rw [Nat.sub_self]; rfl⟩

theorem numbered_singleton (app : UInt64) : Numbered app.toNat (app.toNat + 1) [app] :=
  ⟨Nat.le_succ _, by rw [Nat.add_sub_cancel_left]; rfl⟩

theorem Numbered.append {first mid next : Nat} {apps apps' : List UInt64}
    (h : Numbered first mid apps) (h' : Numbered mid next apps') :
    Numbered first next (apps ++ apps') := by
  obtain ⟨hle, happs⟩ := h
  obtain ⟨hle', happs'⟩ := h'
  refine ⟨Nat.le_trans hle hle', ?_⟩
  have hmid : mid = first + (mid - first) := by omega
  have hlength : next - first = mid - first + (next - mid) := by omega
  rw [List.map_append, happs, happs', hlength, ← List.range'_append_1, ← hmid]

theorem Numbered.bounds {first next : Nat} {apps : List UInt64} (h : Numbered first next apps) :
    ∀ app ∈ apps, first ≤ app.toNat ∧ app.toNat < next := by
  intro app happ
  have hmem := List.mem_map_of_mem (f := UInt64.toNat) happ
  rw [h.2, List.mem_range'_1] at hmem
  omega

/-! ## Numbers of applications -/

namespace LedgerState

variable {programs : ProgramTable} {s s' : LedgerState} {group : List Transaction} {index : Nat}
  {confirmation : Confirmation}

theorem nextApp_created (s : LedgerState) (call : AppCall) (approval clear : Bytes) :
    (s.created call approval clear).nextApp = s.nextApp + 1 := by
  rw [created]
  split <;> rfl

theorem nextApp_create
    (h : create programs s group index call = .ok (confirmation, s')) :
    confirmation.createdApp = some s.nextApp ∧ s'.nextApp.toNat = s.nextApp.toNat + 1 := by
  obtain ⟨approval, clear, logs, -, -, -, hids, rfl, hrun⟩ := create_cases h
  have hran : (s.created call approval clear).SameAt s' .nextApp := sameAt_run hrun nofun nofun
  rw [SameAt, nextApp_created] at hran
  rw [hran]
  exact ⟨rfl, toNat_nextApp_succ hids⟩

theorem nextApp_transact {t : Transaction}
    (h : transact programs s group index t = .ok (confirmation, s')) :
    confirmation.createdApp = none ∧ s'.nextApp = s.nextApp ∨
      confirmation.createdApp = some s.nextApp ∧ s'.nextApp.toNat = s.nextApp.toNat + 1 := by
  cases t with
  | payment p =>
    have hkept : s.SameAt s' .nextApp := by
      refine sameAt_transact h ?_
      rintro ⟨_, ⟨⟩, -⟩
    obtain ⟨rfl, -⟩ := Prod.mk.inj (Except.ok.inj h)
    exact .inl ⟨rfl, hkept⟩
  | appCall call =>
    rcases applyCall_cases h with ⟨-, hcreate⟩ | ⟨-, _, rfl, hcall⟩
    · exact .inr (nextApp_create hcreate)
    · have hkept : s.SameAt s' .nextApp := sameAt_callExisting hcall nofun nofun
      exact .inl ⟨rfl, hkept⟩

/-- A creation takes the next number, and nothing else takes one. -/
theorem nextApp_apply {t : Transaction}
    (h : s.apply programs group index t = .ok (confirmation, s')) :
    confirmation.createdApp = none ∧ s'.nextApp = s.nextApp ∨
      confirmation.createdApp = some s.nextApp ∧ s'.nextApp.toNat = s.nextApp.toNat + 1 := by
  obtain ⟨mid, htransact, rfl⟩ := apply_cases h
  have hfee : s.SameAt (s.debit t.sender (t.header.fee.getD 0).toNat) .nextApp := sameAt_debit nofun
  have hrekeyed : (t.header.rekeyTo.elim mid (mid.rekey t.sender)).nextApp = mid.nextApp := by
    cases t.header.rekeyTo with
    | none => rfl
    | some authorizer =>
      have hsame : mid.SameAt (mid.rekey t.sender authorizer) .nextApp := sameAt_rekey nofun
      exact hsame
  rw [SameAt] at hfee
  rw [hrekeyed, ← hfee]
  exact nextApp_transact htransact

/-- Zero is the number of no application, now or later. A call of it asks for a new one. -/
structure NonzeroApps (s : LedgerState) : Prop where
  next : s.nextApp ≠ 0
  noRecord : s.apps.get? 0 = none

theorem nonzeroApps_apply (hs : s.NonzeroApps) {t : Transaction}
    (h : s.apply programs group index t = .ok (confirmation, s')) : s'.NonzeroApps := by
  have hnumber := nextApp_apply h
  constructor
  · rcases hnumber with ⟨-, hnext⟩ | ⟨-, hnext⟩
    · exact hnext ▸ hs.next
    · intro hzero
      rw [hzero] at hnext
      exact Nat.succ_ne_zero _ hnext.symm
  · have hkept : s.SameAt s' (.app 0) := by
      refine sameAt_apply h ?_
      rintro (htarget | hauthorizer)
      · cases t with
        | payment p => exact absurd htarget nofun
        | appCall call =>
          by_cases hzero : call.app = 0
          · rw [Transaction.Writes, Transaction.target?, if_pos hzero] at htarget
            rcases hnumber with ⟨hnone, -⟩ | ⟨hsome, -⟩
            · exact absurd (hnone.symm.trans htarget) nofun
            · exact hs.next (Option.some.inj (hsome.symm.trans htarget))
          · rw [Transaction.Writes, Transaction.target?, if_neg hzero] at htarget
            exact hzero (Option.some.inj htarget)
      · cases hauthorizer
    exact Eq.trans hkept hs.noRecord

end LedgerState

/-- The applications that the members of a group have created, in their order. -/
def createdApps (results : List (String × Confirmation)) : List UInt64 :=
  (results.map Prod.snd).filterMap Confirmation.createdApp

theorem Evaluation.numbered_applyFrom {c : Setting} {s s' : LedgerState} {index : Nat}
    {signed : List SignedTransaction} {results : List (String × Confirmation)}
    (h : applyFrom c s index signed = .ok (results, s')) :
    Numbered s.nextApp.toNat s'.nextApp.toNat (createdApps results) := by
  induction signed generalizing s index results with
  | nil =>
    obtain ⟨rfl, rfl⟩ := Prod.mk.inj (Except.ok.inj h)
    exact numbered_nil _
  | cons stxn rest ih =>
    obtain ⟨id, confirmation, mid, results', -, hmember, hrest, rfl⟩ := applyFrom_cons h
    obtain ⟨-, -, -, happly⟩ := applyMember_cases hmember
    rw [createdApps, List.map_cons]
    rcases LedgerState.nextApp_apply happly with ⟨hnone, hnext⟩ | ⟨hsome, hnext⟩
    · rw [List.filterMap_cons_none hnone, ← hnext]
      exact ih hrest
    · have hfirst := numbered_singleton s.nextApp
      rw [← hnext] at hfirst
      rw [List.filterMap_cons_some hsome]
      exact hfirst.append (ih hrest)

/-! ## What is known of transactions -/

namespace LedgerState

/-- What is known of transactions is behind what the ledger counts. -/
structure Recorded (s : LedgerState) : Prop where
  createdApps : ∀ id c app, s.confirmations.get? id = some c → c.createdApp = some app →
    app.toNat < s.nextApp.toNat
  rounds : ∀ id c round, s.confirmations.get? id = some c → c.round = some round →
    round ≤ s.lastRound

/-- Numbers that are in use, also those of applications that are gone, are below the next one, and
no round on record is still to come. -/
structure WellKept (s : LedgerState) : Prop extends Recorded s where
  apps : ∀ app record, s.apps.get? app = some record → app.toNat < s.nextApp.toNat
  locals : ∀ account app state, s.localState? account app = some state →
    app.toNat < s.nextApp.toNat

/-- The counts have not gone back, and what was known of a transaction is known unchanged. -/
structure Extends (s s' : LedgerState) : Prop where
  lastRound : s.lastRound ≤ s'.lastRound
  nextApp : s.nextApp.toNat ≤ s'.nextApp.toNat
  confirmations : ∀ id c, s.confirmations.get? id = some c → s'.confirmations.get? id = some c

namespace Extends

theorem refl (s : LedgerState) : Extends s s :=
  ⟨Nat.le_refl _, Nat.le_refl _, fun _ _ h => h⟩

theorem trans {s s' s'' : LedgerState} (h : Extends s s') (h' : Extends s' s'') :
    Extends s s'' where
  lastRound := Nat.le_trans h.lastRound h'.lastRound
  nextApp := Nat.le_trans h.nextApp h'.nextApp
  confirmations id c hc := h'.confirmations id c (h.confirmations id c hc)

end Extends

end LedgerState

namespace Ledger

variable {l : Ledger} {signed : List SignedTransaction} {e : Evaluation} {id : String}
  {c : Confirmation}

/-- No member of a group that is accepted is known from before. -/
theorem not_mem_of_known (h : Evaluation.Accepted l.programs l.state signed false e)
    (hknown : l.state.confirmations.get? id = some c) : id ∉ e.results.map Prod.fst := by
  intro hmem
  obtain ⟨r, hr, rfl⟩ := List.mem_map.mp hmem
  have hfresh := Evaluation.fresh_of_applyFrom h.members r hr
  simp [Table.contains, hknown] at hfresh

/-! ### Confirmed groups -/

theorem recorded_withConfirmed (hs : l.state.Recorded)
    (h : Evaluation.Accepted l.programs l.state signed false e) : (withConfirmed e).Recorded := by
  have hnumbered := Evaluation.numbered_applyFrom h.members
  have hchain := Evaluation.sameChain_applyFrom h.members
  refine ⟨fun id c app hget happ => ?_, fun id c round hget hround => ?_⟩
  · change app.toNat < e.state.nextApp.toNat
    rcases get?_withConfirmed_cases hget with ⟨c', hmem, rfl⟩ | hold
    · -- A member has created it, so its number was given during the group.
      have hcreated : app ∈ createdApps e.results :=
        List.mem_filterMap.mpr ⟨c', List.mem_map_of_mem (f := Prod.snd) hmem, happ⟩
      exact (hnumbered.bounds app hcreated).2
    · rw [hchain.confirmations] at hold
      exact Nat.lt_of_lt_of_le (hs.createdApps id c app hold happ) hnumbered.1
  · change round ≤ e.round
    rcases get?_withConfirmed_cases hget with ⟨c', -, rfl⟩ | hold
    · exact Nat.le_of_eq (Option.some.inj hround).symm
    · rw [hchain.confirmations] at hold
      have hbefore := hs.rounds id c round hold hround
      rw [h.round]
      omega

theorem extends_withConfirmed (h : Evaluation.Accepted l.programs l.state signed false e) :
    l.state.Extends (withConfirmed e) where
  lastRound := by
    change l.state.lastRound ≤ e.round
    rw [h.round]
    exact Nat.le_succ _
  nextApp := (Evaluation.numbered_applyFrom h.members).1
  confirmations id c hknown := by
    have hnew := not_mem_of_known h hknown
    have hchain := Evaluation.sameChain_applyFrom h.members
    rw [get?_withConfirmed_of_not_mem hnew, hchain.confirmations]
    exact hknown

/-! ### Groups that are dropped or stalled -/

theorem recorded_withPending (hs : l.state.Recorded) (faults : Faults) (e : Evaluation) :
    (withPending l.state faults e).Recorded := by
  refine ⟨fun id c app hget happ => ?_, fun id c round hget hround => ?_⟩
  · rcases get?_withPending_cases hget with rfl | hold
    · exact absurd happ nofun
    · exact hs.createdApps id c app hold happ
  · rcases get?_withPending_cases hget with rfl | hold
    · exact absurd hround nofun
    · exact hs.rounds id c round hold hround

theorem extends_withPending (faults : Faults)
    (h : Evaluation.Accepted l.programs l.state signed false e) :
    l.state.Extends (withPending l.state faults e) where
  lastRound := Nat.le_refl _
  nextApp := Nat.le_refl _
  confirmations id c hknown := by
    have hnew := not_mem_of_known h hknown
    rw [get?_withPending_of_not_mem l.state faults hnew]
    exact hknown

/-! ## Runs -/

theorem recorded_perform (hs : l.state.Recorded) (op : LedgerOp) :
    (l.perform op).state.Recorded := by
  cases performed l op with
  | confirmed _ haccepted hstate => exact hstate ▸ recorded_withConfirmed hs haccepted
  | pending _ _ hstate => exact hstate ▸ recorded_withPending hs l.faults _
  | waited round =>
    refine { hs with rounds := fun id c r hget hr => ?_ }
    exact Nat.le_trans (hs.rounds id c r hget hr) (Nat.le_max_left _ _)
  | funded => exact ⟨hs.createdApps, hs.rounds⟩
  | kept _ hstate => exact hstate ▸ hs

theorem extends_perform (l : Ledger) (op : LedgerOp) : l.state.Extends (l.perform op).state := by
  cases performed l op with
  | confirmed _ haccepted hstate => exact hstate ▸ extends_withConfirmed haccepted
  | pending _ haccepted hstate => exact hstate ▸ extends_withPending l.faults haccepted
  | waited round =>
    exact { LedgerState.Extends.refl l.state with lastRound := Nat.le_max_left _ _ }
  | funded => exact { LedgerState.Extends.refl l.state with }
  | kept _ hstate => exact hstate ▸ .refl l.state

theorem recorded_run (hs : l.state.Recorded) (ops : List LedgerOp) :
    (l.run ops).state.Recorded := by
  induction ops generalizing l with
  | nil => exact hs
  | cons op ops ih => exact ih (recorded_perform hs op)

theorem extends_run (l : Ledger) (ops : List LedgerOp) : l.state.Extends (l.run ops).state := by
  induction ops generalizing l with
  | nil => exact .refl l.state
  | cons op ops ih => exact (extends_perform l op).trans (ih (l.perform op))

def createdIn (l : Ledger) (ops : List LedgerOp) : List UInt64 :=
  (l.confirmedGroups ops).flatMap fun g => createdApps g.2.results

theorem numbered_perform (l : Ledger) (op : LedgerOp) :
    Numbered l.state.nextApp.toNat (l.perform op).state.nextApp.toNat
      ((l.confirmedBy op).flatMap fun g => createdApps g.2.results) := by
  cases performed l op with
  | confirmed hby haccepted hstate =>
    have hnumbered := Evaluation.numbered_applyFrom haccepted.members
    rw [hby, hstate, List.flatMap_singleton]
    exact hnumbered
  | pending hby _ hstate =>
    rw [hby, hstate]
    exact numbered_nil _
  | waited | funded => exact numbered_nil _
  | kept hby hstate =>
    rw [hby, hstate]
    exact numbered_nil _

theorem numbered_run (l : Ledger) (ops : List LedgerOp) :
    Numbered l.state.nextApp.toNat (l.run ops).state.nextApp.toNat (l.createdIn ops) := by
  induction ops generalizing l with
  | nil => exact numbered_nil _
  | cons op ops ih =>
    rw [createdIn, confirmedGroups, List.flatMap_append]
    exact (numbered_perform l op).append (ih (l.perform op))

/-- A group is confirmed in the round after the last one, which is then the last. -/
theorem round_of_confirmedBy {op : LedgerOp} {g : List SignedTransaction × Evaluation}
    (hg : g ∈ l.confirmedBy op) :
    l.state.lastRound < g.2.round ∧ (l.perform op).state = withConfirmed g.2 := by
  obtain ⟨haccepted, hstate⟩ := accepted_of_confirmedBy hg
  exact ⟨haccepted.round ▸ Nat.lt_succ_self _, hstate⟩

theorem lastRound_lt_of_confirmedGroups {ops : List LedgerOp}
    {g : List SignedTransaction × Evaluation} (hg : g ∈ l.confirmedGroups ops) :
    l.state.lastRound < g.2.round := by
  induction ops generalizing l with
  | nil => cases hg
  | cons op ops ih =>
    rcases List.mem_append.mp hg with hfirst | hlater
    · exact (round_of_confirmedBy hfirst).1
    · exact Nat.lt_of_le_of_lt (extends_perform l op).lastRound (ih hlater)

theorem confirmedBy_cases (l : Ledger) (op : LedgerOp) :
    l.confirmedBy op = [] ∨ ∃ g, l.confirmedBy op = [g] := by
  cases performed l op with
  | confirmed hby => exact .inr ⟨_, hby⟩
  | waited | funded => exact .inl rfl
  | pending hby | kept hby => exact .inl hby

theorem pairwise_rounds (l : Ledger) (ops : List LedgerOp) :
    (l.confirmedGroups ops).Pairwise fun g g' => g.2.round < g'.2.round := by
  induction ops generalizing l with
  | nil => exact .nil
  | cons op ops ih =>
    -- The round of a group that is confirmed now is then the last, and later groups are above it.
    refine List.pairwise_append.mpr ⟨?_, ih (l.perform op), fun g hg g' hg' => ?_⟩
    · rcases confirmedBy_cases l op with hnone | ⟨g, hone⟩
      · rw [hnone]
        exact .nil
      · rw [hone]
        exact List.pairwise_singleton _ g
    · have hround : (l.perform op).state.lastRound = g.2.round := by
        rw [(round_of_confirmedBy hg).2, withConfirmed]
      exact hround ▸ lastRound_lt_of_confirmedGroups hg'

theorem exists_recorded_of_confirmedGroups {ops : List LedgerOp}
    {g : List SignedTransaction × Evaluation} (hg : g ∈ l.confirmedGroups ops)
    {r : String × Confirmation} (hr : r ∈ g.2.results) :
    ∃ c, (l.run ops).state.confirmations.get? r.1 = some c ∧ c.round = some g.2.round := by
  induction ops generalizing l with
  | nil => cases hg
  | cons op ops ih =>
    rcases List.mem_append.mp hg with hfirst | hlater
    · obtain ⟨c, -, hget⟩ := exists_get?_withConfirmed (List.mem_map_of_mem (f := Prod.fst) hr)
      rw [← (round_of_confirmedBy hfirst).2] at hget
      exact ⟨_, (extends_run (l.perform op) ops).confirmations _ _ hget, rfl⟩
    · exact ih hlater

theorem invariant_nonzeroApps : Invariant LedgerState.NonzeroApps where
  apply _ _ _ _ _ _ _ hs h := LedgerState.nonzeroApps_apply hs h
  credit _ _ _ h := ⟨h.next, h.noRecord⟩
  chain _ _ _ h := ⟨h.next, h.noRecord⟩

theorem nonzeroApps_initial : ({} : Ledger).state.NonzeroApps where
  next := by decide
  noRecord := rfl

theorem recorded_initial : ({} : Ledger).state.Recorded where
  createdApps _ _ _ := nofun
  rounds _ _ _ := nofun

end Ledger

end AppLedger
