import AppLedger.Proofs.Ledger.Isolation
import AppLedger.Proofs.Ledger.Simulation

/-! Groups of calls that have nothing in common commute. What a group sees of a ledger is what it
can change, whether its members are known, and whether they are valid; a group that has nothing in
common with it changes none of these. -/

namespace AppLedger

namespace Transaction

/-- A call that creates no application. -/
def CallsExisting : Transaction → Prop
  | .payment _ => False
  | .appCall call => call.app ≠ 0

/-- What a transaction can change that calls an application which exists. -/
def Reaches (t : Transaction) (place : Place) : Prop :=
  ∃ call, t = .appCall call ∧ (place = .app call.app ∨ place = .localState t.sender call.app ∨
    place = .balance t.sender ∨ place = .authorizer t.sender)

theorem reaches_authorizer {t : Transaction} (ht : t.CallsExisting) :
    t.Reaches (.authorizer t.sender) := by
  cases t with
  | payment p => exact ht.elim
  | appCall call => exact ⟨call, rfl, .inr (.inr (.inr rfl))⟩

theorem reaches_of_touches {t : Transaction} (ht : t.CallsExisting) {confirmation : Confirmation}
    {place : Place} (h : t.Touches (t.target? confirmation) place) : t.Reaches place := by
  cases t with
  | payment p => exact ht.elim
  | appCall call =>
    have htarget : (Transaction.appCall call).target? confirmation = some call.app := if_neg ht
    refine ⟨call, rfl, ?_⟩
    rcases h with hwrites | hauthorizer
    · rw [htarget] at hwrites
      cases place with
      | app app => exact .inl (congrArg Place.app (Option.some.inj hwrites).symm)
      | localState account app =>
        obtain ⟨rfl, happ⟩ := hwrites
        exact .inr (.inl (congrArg (Place.localState _) (Option.some.inj happ).symm))
      | balance account =>
        exact .inr (.inr (.inl (congrArg Place.balance (List.mem_singleton.mp hwrites))))
      | authorizer account => exact hwrites.elim
      | nextApp =>
        obtain ⟨_, ⟨⟩, hzero⟩ := hwrites
        exact absurd hzero ht
    · exact .inr (.inr (.inr hauthorizer))

end Transaction

namespace LedgerState

variable {programs : ProgramTable} {s other : LedgerState} {group : List Transaction}
  {index : Nat} {call : AppCall} {app : UInt64} {account : Address} {places : Place → Prop}
  {α : Type}

def AgreeOn (places : Place → Prop) (s other : LedgerState) : Prop :=
  ∀ place, places place → SameAt s other place

def SameResult (places : Place → Prop) (r r' : α × LedgerState) : Prop :=
  r'.1 = r.1 ∧ AgreeOn places r.2 r'.2

/-! ## Changes of one place -/

namespace AgreeOn

/-- A change of one place that leaves the same there keeps the agreement. -/
theorem write {f : LedgerState → LedgerState} {written : Place} (h : AgreeOn places s other)
    (hframe : ∀ s place, place ≠ written → SameAt s (f s) place)
    (hwritten : places written → SameAt (f s) (f other) written) :
    AgreeOn places (f s) (f other) := by
  intro place hplace
  by_cases hplaces : place = written
  · subst hplaces
    exact hwritten hplace
  · exact (hframe s place hplaces).symm.trans ((h place hplace).trans (hframe other place hplaces))

theorem putApp (h : AgreeOn places s other) (app : UInt64) (record : AppRecord) :
    AgreeOn places (s.putApp app record) (other.putApp app record) :=
  h.write (f := fun s => s.putApp app record) (fun _ _ => sameAt_putApp) fun _ =>
    Table.get?_put_congr _ _ _ _

theorem eraseApp (h : AgreeOn places s other) (app : UInt64) :
    AgreeOn places { s with apps := s.apps.erase app }
      { other with apps := other.apps.erase app } :=
  h.write (f := fun s => { s with apps := s.apps.erase app }) (fun _ _ => sameAt_eraseApp)
    fun _ => Table.get?_erase_congr _ _ _

theorem putLocal (h : AgreeOn places s other) (account : Address) (app : UInt64)
    (state : AppState) :
    AgreeOn places (s.putLocal account app state) (other.putLocal account app state) :=
  h.write (f := fun s => s.putLocal account app state) (fun _ _ => sameAt_putLocal) fun _ =>
    Table.get?_put_congr _ _ _ _

theorem eraseLocal (h : AgreeOn places s other) (account : Address) (app : UInt64) :
    AgreeOn places (s.eraseLocal account app) (other.eraseLocal account app) :=
  h.write (f := fun s => s.eraseLocal account app) (fun _ _ => sameAt_eraseLocal) fun _ =>
    Table.get?_erase_congr _ _ _

theorem debit (h : AgreeOn places s other) (account : Address) (amount : Nat) :
    AgreeOn places (s.debit account amount) (other.debit account amount) := by
  refine h.write (f := fun s => s.debit account amount) (fun _ _ => sameAt_debit) fun hplace => ?_
  have hbalance : other.balances.get? account = s.balances.get? account := h _ hplace
  rw [SameAt, LedgerState.debit, LedgerState.debit, hbalance]
  cases s.balances.get? account with
  | none => exact hbalance
  | some balance => exact Table.get?_put_congr _ _ _ _

theorem rekey (h : AgreeOn places s other) (account authorizer : Address) :
    AgreeOn places (s.rekey account authorizer) (other.rekey account authorizer) := by
  refine h.write (f := fun s => s.rekey account authorizer) (fun _ _ => sameAt_rekey) fun _ => ?_
  rw [SameAt, LedgerState.rekey, LedgerState.rekey]
  split
  · exact Table.get?_erase_congr _ _ _
  · exact Table.get?_put_congr _ _ _ _

end AgreeOn

/-! ## One transaction -/

theorem alike_updateGlobal (h : AgreeOn places s other) (app : UInt64) (record : AppRecord)
    (updates : List (Bytes × StateValue)) :
    Alike (AgreeOn places) (s.updateGlobal app record updates)
      (other.updateGlobal app record updates) := by
  rw [updateGlobal, updateGlobal]
  split
  · exact .ok h
  · exact .bind_same _ fun _ => .ok (h.putApp app _)

theorem alike_updateLocal (h : AgreeOn places s other) (hlocal : places (.localState account app))
    (record : AppRecord) (updates : List (Bytes × StateValue)) :
    Alike (AgreeOn places) (s.updateLocal app record account updates)
      (other.updateLocal app record account updates) := by
  have hsame : other.localState? account app = s.localState? account app := h _ hlocal
  rw [updateLocal, updateLocal, hsame]
  split
  · exact .ok h
  · cases s.localState? account app with
    | none => exact .error _
    | some state => exact .bind_same _ fun _ => .ok (h.putLocal account app _)

theorem alike_run (h : AgreeOn places s other) (happ : places (.app app))
    (hlocal : places (.localState call.header.sender app)) :
    Alike (SameResult places) (run programs s group index call app)
      (run programs other group index call app) := by
  have hrecord : other.apps.get? app = s.apps.get? app := h _ happ
  have hstate : other.localState? call.header.sender app = s.localState? call.header.sender app :=
    h _ hlocal
  have hrequest (record : AppRecord) :
      other.request group index call app record = s.request group index call app record := by
    rw [request, request, hstate]
  rw [run, run, hrecord]
  cases s.apps.get? app with
  | none => exact .error _
  | some record =>
    dsimp only
    cases programs.approvals.get? record.approval with
    | none => exact .ok ⟨rfl, h⟩
    | some program =>
      dsimp only
      rw [hrequest]
      cases program (s.request group index call app record) with
      | error message => exact .error _
      | ok effects =>
        refine (alike_updateGlobal h app record _).bind fun mid mid' hmid => ?_
        refine (alike_updateLocal hmid hlocal record _).bind fun last last' hlast => ?_
        exact .ok ⟨rfl, hlast⟩

theorem alike_callExisting (h : AgreeOn places s other) (happ : places (.app call.app))
    (hlocal : places (.localState call.header.sender call.app)) :
    Alike (SameResult places) (callExisting programs s group index call)
      (callExisting programs other group index call) := by
  have hrecord : other.apps.get? call.app = s.apps.get? call.app := h _ happ
  have hcontains : other.apps.contains call.app = s.apps.contains call.app := by
    rw [Table.contains, Table.contains, hrecord]
  have hstate : other.localState? call.header.sender call.app =
      s.localState? call.header.sender call.app := h _ hlocal
  have hran : Alike (SameResult places) (run programs s group index call call.app)
      (run programs other group index call call.app) := alike_run h happ hlocal
  -- The checks are about what the states agree on, so both calls take the same branch.
  rw [callExisting, callExisting, hcontains, hstate]
  refine .ite (fun _ => ?_) fun _ => .error _
  cases call.onComplete with
  | noOp => exact hran
  | optIn =>
    refine .ite (fun _ => .error _) fun _ => ?_
    exact alike_run (h.putLocal _ _ _) happ hlocal
  | closeOut =>
    refine .ite (fun _ => hran.bind fun r r' hr => ?_) fun _ => .error _
    exact .ok ⟨hr.1, hr.2.eraseLocal _ _⟩
  | clearState => exact .ite (fun _ => .ok ⟨rfl, h.eraseLocal _ _⟩) fun _ => .error _
  | updateApplication =>
    dsimp only
    split
    · refine hran.bind ?_
      rintro ⟨logs, mid⟩ ⟨logs', mid'⟩ ⟨hlogs, hmid⟩
      have hkept : mid'.apps.get? call.app = mid.apps.get? call.app := hmid _ happ
      dsimp only
      rw [hkept]
      cases mid.apps.get? call.app with
      | none => exact .ok ⟨hlogs, hmid⟩
      | some record => exact .ok ⟨hlogs, hmid.putApp _ _⟩
    · exact .error _
  | deleteApplication =>
    refine hran.bind fun r r' hr => ?_
    exact .ok ⟨hr.1, hr.2.eraseApp _⟩

theorem alike_transact {t : Transaction} (ht : t.CallsExisting) (h : AgreeOn places s other)
    (hplaces : ∀ place, t.Reaches place → places place) :
    Alike (SameResult places) (transact programs s group index t)
      (transact programs other group index t) := by
  cases t with
  | payment p => exact ht.elim
  | appCall call =>
    have happ : places (.app call.app) := hplaces _ ⟨call, rfl, .inl rfl⟩
    have hlocal : places (.localState call.header.sender call.app) :=
      hplaces _ ⟨call, rfl, .inr (.inl rfl)⟩
    rw [transact, transact, applyCall, applyCall, if_neg ht, if_neg ht]
    refine (alike_callExisting h happ hlocal).bind ?_
    rintro ⟨logs, mid⟩ ⟨logs', mid'⟩ ⟨rfl, hmid⟩
    exact .ok ⟨rfl, hmid⟩

theorem alike_apply {t : Transaction} (ht : t.CallsExisting) (h : AgreeOn places s other)
    (hplaces : ∀ place, t.Reaches place → places place) :
    Alike (SameResult places) (s.apply programs group index t)
      (other.apply programs group index t) := by
  rw [apply_eq, apply_eq]
  refine (alike_transact ht (h.debit _ _) hplaces).bind fun r r' hr => .ok ⟨hr.1, ?_⟩
  cases t.header.rekeyTo with
  | none => exact hr.2
  | some authorizer => exact hr.2.rekey _ _

end LedgerState

namespace Evaluation

open LedgerState

variable {programs : ProgramTable} {base base' s other : LedgerState} {group : List Transaction}
  {allowUnsigned : Bool} {index : Nat} {id : String} {stxn : SignedTransaction}
  {signed : List SignedTransaction} {places : Place → Prop}

/-- The ledgers know the same of the member, and it is as valid in the next round of one as in that
of the other. -/
structure SameStanding (base base' : LedgerState) (stxn : SignedTransaction) : Prop where
  known : ∀ id, stxn.id = .ok id → base'.confirmations.contains id = base.confirmations.contains id
  header : verifyHeader stxn.transaction.header (base'.lastRound + 1) =
    verifyHeader stxn.transaction.header (base.lastRound + 1)

theorem alike_applyMember (hstanding : SameStanding base base' stxn) (hid : stxn.id = .ok id)
    (ht : stxn.transaction.CallsExisting) (h : AgreeOn places s other)
    (hplaces : ∀ place, stxn.transaction.Reaches place → places place) :
    Alike (SameResult places) (applyMember ⟨programs, base, group, allowUnsigned⟩ s index id stxn)
      (applyMember ⟨programs, base', group, allowUnsigned⟩ other index id stxn) := by
  have hauthorizer : other.authorizer stxn.transaction.sender =
      s.authorizer stxn.transaction.sender :=
    congrArg (Option.getD · _) (h _ (hplaces _ (Transaction.reaches_authorizer ht)))
  have happlied : Alike (SameResult places) (s.apply programs group index stxn.transaction)
      (other.apply programs group index stxn.transaction) := alike_apply ht h hplaces
  rw [applyMember, applyMember, Setting.round, Setting.round, hstanding.known id hid,
    hstanding.header, hauthorizer]
  -- What is left differs only in the states that the transaction is applied to.
  refine .ite (fun _ => .error _) fun _ => .bind_same _ fun _ => ?_
  refine .ite (fun _ => happlied.mapError _) fun _ => .bind_same _ fun _ => happlied.mapError _

theorem alike_applyFrom (hstanding : ∀ stxn ∈ signed, SameStanding base base' stxn)
    (hcalls : ∀ stxn ∈ signed, stxn.transaction.CallsExisting) (h : AgreeOn places s other)
    (hplaces : ∀ stxn ∈ signed, ∀ place, stxn.transaction.Reaches place → places place) :
    Alike (SameResult places) (applyFrom ⟨programs, base, group, allowUnsigned⟩ s index signed)
      (applyFrom ⟨programs, base', group, allowUnsigned⟩ other index signed) := by
  induction signed generalizing s other index with
  | nil => exact .ok ⟨rfl, h⟩
  | cons stxn rest ih =>
    rw [List.forall_mem_cons] at hstanding hcalls hplaces
    rw [applyFrom, applyFrom]
    cases hid : stxn.id with
    | error why => exact .error _
    | ok id =>
      refine ((alike_applyMember hstanding.1 hid hcalls.1 h hplaces.1).mapError _).bind ?_
      rintro ⟨confirmation, mid⟩ ⟨confirmation', mid'⟩ ⟨rfl, hmid⟩
      refine (ih hstanding.2 hcalls.2 hmid hplaces.2).bind ?_
      rintro ⟨results, last⟩ ⟨results', last'⟩ ⟨rfl, hlast⟩
      exact .ok ⟨rfl, hlast⟩

theorem alike_ofGroup (programs : ProgramTable) (allowUnsigned : Bool)
    (hstanding : ∀ stxn ∈ signed, SameStanding base base' stxn)
    (hcalls : ∀ stxn ∈ signed, stxn.transaction.CallsExisting) (h : AgreeOn places base base')
    (hplaces : ∀ stxn ∈ signed, ∀ place, stxn.transaction.Reaches place → places place) :
    Alike (fun e e' => e'.results = e.results ∧ AgreeOn places e.state e'.state)
      (ofGroup programs base signed allowUnsigned)
      (ofGroup programs base' signed allowUnsigned) := by
  rw [ofGroup, ofGroup]
  refine .ite (fun _ => .error _) fun _ => .ite (fun _ => .error _) fun _ => ?_
  refine .bind_same _ fun _ => .bind_same _ fun _ => ?_
  refine (alike_applyFrom hstanding hcalls h hplaces).bind ?_
  rintro ⟨results, last⟩ ⟨results', last'⟩ ⟨rfl, hlast⟩
  exact .ok ⟨rfl, hlast⟩

theorem verifyHeader_eq {header : Header} {round round' : Nat}
    (hfirst : header.firstValid.toNat ≤ round) (hlast : round ≤ header.lastValid.toNat)
    (hfirst' : header.firstValid.toNat ≤ round') (hlast' : round' ≤ header.lastValid.toNat) :
    verifyHeader header round = verifyHeader header round' := by
  have hvalid : ¬ (round < header.firstValid.toNat ∨ header.lastValid.toNat < round) := by omega
  have hvalid' : ¬ (round' < header.firstValid.toNat ∨ header.lastValid.toNat < round') := by omega
  rw [verifyHeader, verifyHeader, if_neg hvalid, if_neg hvalid']

end Evaluation

/-- A call of an application that exists, which is valid in the two rounds after the given one. -/
structure SignedTransaction.Ready (stxn : SignedTransaction) (round : Nat) : Prop where
  calls : stxn.transaction.CallsExisting
  firstValid : stxn.transaction.header.firstValid.toNat ≤ round + 1
  lastValid : round + 2 ≤ stxn.transaction.header.lastValid.toNat

/-- The groups have no sender, no application and no identity in common. -/
structure Independent (a b : List SignedTransaction) : Prop where
  senders : ∀ stxn ∈ a, ∀ stxn' ∈ b, stxn.transaction.sender ≠ stxn'.transaction.sender
  apps : ∀ stxn ∈ a, ∀ stxn' ∈ b, ∀ call call', stxn.transaction = .appCall call →
    stxn'.transaction = .appCall call' → call.app ≠ call'.app
  ids : ∀ stxn ∈ a, ∀ stxn' ∈ b, ∀ id, stxn.id = .ok id → stxn'.id ≠ .ok id

theorem Independent.symm {a b : List SignedTransaction} (h : Independent a b) :
    Independent b a where
  senders stxn hstxn stxn' hstxn' := (h.senders stxn' hstxn' stxn hstxn).symm
  apps stxn hstxn stxn' hstxn' call call' hcall hcall' :=
    (h.apps stxn' hstxn' stxn hstxn call' call hcall' hcall).symm
  ids stxn hstxn stxn' hstxn' id hid hid' := h.ids stxn' hstxn' stxn hstxn id hid' hid

/-- What a group can change none of whose members creates an application. -/
def reach (signed : List SignedTransaction) (place : Place) : Prop :=
  ∃ stxn ∈ signed, stxn.transaction.Reaches place

theorem Independent.not_reach {a b : List SignedTransaction} (h : Independent a b) {place : Place}
    (hplace : reach a place) : ¬ reach b place := by
  obtain ⟨stxn, hstxn, call, hcall, hcases⟩ := hplace
  rintro ⟨stxn', hstxn', call', hcall', hcases'⟩
  have happ : call.app ≠ call'.app := h.apps stxn hstxn stxn' hstxn' call call' hcall hcall'
  have hsender := h.senders stxn hstxn stxn' hstxn'
  rcases hcases with rfl | rfl | rfl | rfl <;> simp [happ, hsender] at hcases'

namespace Ledger

variable {l l' : Ledger} {signed a b : List SignedTransaction} {place : Place}

/-- A group does to two ledgers the same that look the same to it. -/
theorem alike_submit (hprograms : l'.programs = l.programs) (hfaults : l'.faults = l.faults)
    (hstanding : ∀ stxn ∈ signed, Evaluation.SameStanding l.state l'.state stxn)
    (hcalls : ∀ stxn ∈ signed, stxn.transaction.CallsExisting)
    (h : LedgerState.AgreeOn (reach signed) l.state l'.state) :
    (l'.submit signed).1 = (l.submit signed).1 ∧
      LedgerState.AgreeOn (reach signed) (l.submit signed).2.state (l'.submit signed).2.state := by
  have hgroup := Evaluation.alike_ofGroup l.programs false hstanding hcalls h
    fun stxn hstxn place hplace => ⟨stxn, hstxn, hplace⟩
  rw [submit, submit, hprograms, hfaults]
  cases l.faults.submission with
  | some reason => exact ⟨rfl, h⟩
  | none =>
    dsimp only
    generalize Evaluation.ofGroup l.programs l.state signed false = outcome at hgroup ⊢
    generalize Evaluation.ofGroup l.programs l'.state signed false = outcome' at hgroup ⊢
    cases hgroup with
    | error why => exact ⟨rfl, h⟩
    | @ok e e' he =>
      obtain ⟨hresults, hstate⟩ := he
      have hfirst : firstId e' = firstId e := by rw [firstId, firstId, hresults]
      refine ⟨congrArg Except.ok hfirst, fun place hplace => ?_⟩
      dsimp only
      split
      · exact (sameAt_withPending l.state l.faults e place).symm.trans
          ((h place hplace).trans (sameAt_withPending l'.state l.faults e' place))
      · exact (sameAt_withConfirmed e place).symm.trans
          ((hstate place hplace).trans (sameAt_withConfirmed e' place))

/-- Calls change nothing that they do not reach, whatever the ledger answers. -/
theorem sameAt_submit_of_not_reach (hcalls : ∀ stxn ∈ signed, stxn.transaction.CallsExisting)
    (hplace : ¬ reach signed place) : l.state.SameAt (l.submit signed).2.state place := by
  obtain ⟨why, hsubmit, -⟩ | ⟨e, he, -⟩ := submit_cases l signed
  · rw [hsubmit]
    exact .refl l.state place
  · refine sameAt_submit place he fun m hm htouches => hplace ?_
    obtain ⟨stxn, hstxn, hmember⟩ := List.mem_map.mp (List.of_mem_zip hm).1
    refine ⟨stxn, hstxn, hmember ▸ ?_⟩
    exact Transaction.reaches_of_touches (hmember ▸ hcalls stxn hstxn) htouches

/-! ## What a group leaves of the standing of others -/

theorem settings_submit (l : Ledger) (signed : List SignedTransaction) :
    (l.submit signed).2.programs = l.programs ∧ (l.submit signed).2.faults = l.faults := by
  obtain ⟨why, hsubmit, -⟩ | ⟨e, -, ⟨-, hsubmit⟩ | ⟨-, hsubmit⟩⟩ := submit_cases l signed
  all_goals
    rw [hsubmit]
    exact ⟨rfl, rfl⟩

theorem lastRound_submit (l : Ledger) (signed : List SignedTransaction) :
    (l.submit signed).2.state.lastRound = l.state.lastRound ∨
      (l.submit signed).2.state.lastRound = l.state.lastRound + 1 := by
  obtain ⟨why, hsubmit, -⟩ | ⟨e, he, ⟨-, hsubmit⟩ | ⟨-, hsubmit⟩⟩ := submit_cases l signed
  all_goals rw [hsubmit]
  · exact .inl rfl
  · exact .inl rfl
  · exact .inr (Evaluation.accepted_of_ofGroup he).round

theorem known_submit {id : String} (h : ∀ stxn ∈ signed, stxn.id ≠ .ok id) :
    (l.submit signed).2.state.confirmations.get? id = l.state.confirmations.get? id := by
  obtain ⟨why, hsubmit, -⟩ | ⟨e, he, hcases⟩ := submit_cases l signed
  · rw [hsubmit]
  · have haccepted := Evaluation.accepted_of_ofGroup he
    have hids := Evaluation.ids_of_applyFrom haccepted.members
    have hid : id ∉ e.results.map Prod.fst := by
      intro hmem
      obtain ⟨stxn, hstxn, hstxnId⟩ := exists_of_mem_mapM hids id hmem
      exact h stxn hstxn hstxnId
    obtain ⟨-, hsubmit⟩ | ⟨-, hsubmit⟩ := hcases
    all_goals rw [hsubmit]
    · exact get?_withPending_of_not_mem l.state l.faults hid
    · rw [get?_withConfirmed_of_not_mem hid,
        (Evaluation.sameChain_applyFrom haccepted.members).confirmations]

theorem sameStanding_submit {stxn : SignedTransaction} (hready : stxn.Ready l.state.lastRound)
    (hids : ∀ stxn' ∈ signed, ∀ id, stxn'.id = .ok id → stxn.id ≠ .ok id) :
    Evaluation.SameStanding l.state (l.submit signed).2.state stxn where
  known id hid := by
    have hget : (l.submit signed).2.state.confirmations.get? id = l.state.confirmations.get? id :=
      known_submit fun stxn' hstxn' hid' => hids stxn' hstxn' id hid' hid
    rw [Table.contains, Table.contains, hget]
  header := by
    have hround := lastRound_submit l signed
    have hfirst := hready.firstValid
    have hlast := hready.lastValid
    apply Evaluation.verifyHeader_eq <;> omega

/-! ## Commutation -/

/-- A group that is sent after another one, with which it has nothing in common, fares as it would
have done before it. -/
theorem alike_submit_after (ha : ∀ stxn ∈ a, stxn.Ready l.state.lastRound)
    (hb : ∀ stxn ∈ b, stxn.Ready l.state.lastRound) (h : Independent a b) :
    ((l.submit a).2.submit b).1 = (l.submit b).1 ∧
      LedgerState.AgreeOn (reach b) (l.submit b).2.state ((l.submit a).2.submit b).2.state := by
  obtain ⟨hprograms, hfaults⟩ := settings_submit l a
  refine alike_submit hprograms hfaults (fun stxn hstxn => ?_) (fun stxn hstxn => ?_) ?_
  · exact sameStanding_submit (hb stxn hstxn) fun stxn' hstxn' => h.ids stxn' hstxn' stxn hstxn
  · exact (hb stxn hstxn).calls
  · intro place hplace
    exact sameAt_submit_of_not_reach (fun stxn hstxn => (ha stxn hstxn).calls)
      (h.symm.not_reach hplace)

theorem sameAt_submit_comm (ha : ∀ stxn ∈ a, stxn.Ready l.state.lastRound)
    (hb : ∀ stxn ∈ b, stxn.Ready l.state.lastRound) (h : Independent a b) (place : Place) :
    ((l.submit a).2.submit b).2.state.SameAt ((l.submit b).2.submit a).2.state place := by
  have hkeptA (hplace : ¬ reach a place) (l : Ledger) :
      l.state.SameAt (l.submit a).2.state place :=
    sameAt_submit_of_not_reach (fun stxn hstxn => (ha stxn hstxn).calls) hplace
  have hkeptB (hplace : ¬ reach b place) (l : Ledger) :
      l.state.SameAt (l.submit b).2.state place :=
    sameAt_submit_of_not_reach (fun stxn hstxn => (hb stxn hstxn).calls) hplace
  by_cases hplaceA : reach a place
  · -- In either order the first group decides what is there; the second one leaves it alone.
    have hagree := (alike_submit_after hb ha h.symm).2 place hplaceA
    exact (hkeptB (h.not_reach hplaceA) _).symm.trans hagree
  · by_cases hplaceB : reach b place
    · have hagree := (alike_submit_after ha hb h).2 place hplaceB
      exact hagree.symm.trans (hkeptA hplaceA _)
    · have hab := (hkeptA hplaceA l).trans (hkeptB hplaceB _)
      have hba := (hkeptB hplaceB l).trans (hkeptA hplaceA _)
      exact hab.symm.trans hba

/-- Two groups of calls that have no sender, no called application and no identity in common can be
sent in either order: the ledger gives each of them the same answer, and ends with the same
applications, local states, balances and authorizers, whatever the programs do and however the
ledger is set to fail. -/
theorem submit_comm (ha : ∀ stxn ∈ a, stxn.Ready l.state.lastRound)
    (hb : ∀ stxn ∈ b, stxn.Ready l.state.lastRound) (h : Independent a b) :
    let ab := ((l.submit a).2.submit b).2.state
    let ba := ((l.submit b).2.submit a).2.state
    ((l.submit b).2.submit a).1 = (l.submit a).1 ∧ ((l.submit a).2.submit b).1 = (l.submit b).1 ∧
      (∀ app, ba.apps.get? app = ab.apps.get? app) ∧
      (∀ account app, ba.localState? account app = ab.localState? account app) ∧
      (∀ account, ba.balances.get? account = ab.balances.get? account) ∧
      ∀ account, ba.authorizers.get? account = ab.authorizers.get? account := by
  intro ab ba
  have hsame := sameAt_submit_comm ha hb h
  exact ⟨(alike_submit_after hb ha h.symm).1, (alike_submit_after ha hb h).1,
    fun app => hsame (.app app), fun account app => hsame (.localState account app),
    fun account => hsame (.balance account), fun account => hsame (.authorizer account)⟩

/-- One account deletes an application and is rekeyed, another one calls the application next to
it. -/
theorem submit_comm_deletion :
    let program : ApprovalProgram := fun _ => .ok { globalUpdates := [([1], .uint 5)] }
    let record : AppRecord :=
      { creator := .zero, approval := [1], clear := [1], globalSchema := { uints := 1 }
        localSchema := {}, extraPages := 0, globalState := .empty }
    let l : Ledger :=
      { state := { apps := (Table.empty.put 7 record).put 9 record }
        programs := { approvals := Table.empty.put [1] program } }
    let signer (version : UInt8) : LogicSig := { logic := [8, version] }
    let group (version : UInt8) (app : UInt64) (onComplete : OnComplete)
        (rekeyTo : Option Address) : List SignedTransaction :=
      [{ logicSig := some (signer version)
         transaction := .appCall
          { header :=
              { sender := (signer version).address, fee := some 1000, firstValid := 1
                lastValid := 9, rekeyTo }
            app, onComplete } }]
    let a := group 1 7 .deleteApplication (some .zero)
    let b := group 2 9 .noOp none
    ((l.submit b).2.submit a).2.state.apps.get? 7 = none ∧
      (((l.submit b).2.submit a).2.state.apps.get? 9).map (·.globalState.size) = some 1 ∧
      ((l.submit b).2.submit a).2.state.authorizers.get? (signer 1).address = some .zero := by
  intro program record l signer group a b
  have hrun : ((((l.submit a).2.submit b).2.state.apps.get? 7,
      (((l.submit a).2.submit b).2.state.apps.get? 9).map (·.globalState.size),
      ((l.submit a).2.submit b).2.state.authorizers.get? (signer 1).address) =
        (none, some 1, some .zero)) ∧ (signer 1).address ≠ (signer 2).address ∧
      a.map (·.id.toOption) ≠ b.map (·.id.toOption) := by
    decide +kernel
  simp only [Prod.mk.injEq] at hrun
  obtain ⟨⟨hdeleted, hwritten, hrekeyed⟩, hsenders, hids⟩ := hrun
  have hvalid : (1 : UInt64).toNat ≤ 1 + 1 ∧ 1 + 2 ≤ (9 : UInt64).toNat := by decide
  have hready (version : UInt8) (app : UInt64) (onComplete : OnComplete)
      (rekeyTo : Option Address) (happ : app ≠ 0) :
      ∀ stxn ∈ group version app onComplete rekeyTo, stxn.Ready l.state.lastRound :=
    List.forall_mem_singleton.mpr ⟨happ, hvalid.1, hvalid.2⟩
  have hindependent : Independent a b := by
    refine ⟨?_, ?_, ?_⟩
    all_goals
      refine List.forall_mem_singleton.mpr (List.forall_mem_singleton.mpr ?_)
    · exact hsenders
    · rintro call call' ⟨⟩ ⟨⟩
      decide
    · intro id hid hid'
      refine hids ?_
      rw [List.map_singleton, List.map_singleton, hid, hid']
  have ha : ∀ stxn ∈ a, stxn.Ready l.state.lastRound :=
    hready 1 7 .deleteApplication (some .zero) (by decide)
  have hb : ∀ stxn ∈ b, stxn.Ready l.state.lastRound := hready 2 9 .noOp none (by decide)
  obtain ⟨-, -, happs, -, -, hauthorizers⟩ := submit_comm ha hb hindependent
  refine ⟨(happs 7).trans hdeleted, ?_, (hauthorizers _).trans hrekeyed⟩
  rw [happs 9]
  exact hwritten

end Ledger

end AppLedger
