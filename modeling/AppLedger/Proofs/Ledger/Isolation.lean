import AppLedger.Proofs.Ledger.Run

/-! What a group leaves alone. A transaction changes the application that it calls or creates, its
sender's local state there, the balances of its parties, and who signs for its sender. Whatever the
programs answer, the ledger stays as it was everywhere else. -/

namespace AppLedger

/-- What the state of a ledger keeps under a key of its own, and the number of the next
application. -/
inductive Place
  | app (app : UInt64)
  | localState (account : Address) (app : UInt64)
  | balance (account : Address)
  | authorizer (account : Address)
  | nextApp

namespace Transaction

/-- The accounts whose balance a transaction can change. -/
def parties : Transaction → List Address
  | .payment p => p.header.sender :: p.receiver :: p.closeTo.toList
  | .appCall call => [call.header.sender]

/-- The application that a transaction has called or created. -/
def target? (t : Transaction) (confirmation : Confirmation) : Option UInt64 :=
  match t with
  | .payment _ => none
  | .appCall call => if call.app = 0 then confirmation.createdApp else some call.app

/-- What a transaction can change between its fee and its rekeying. -/
def Writes (t : Transaction) (target : Option UInt64) : Place → Prop
  | .app app => target = some app
  | .localState account app => account = t.sender ∧ target = some app
  | .balance account => account ∈ t.parties
  | .authorizer _ => False
  | .nextApp => ∃ call, t = .appCall call ∧ call.app = 0

def Touches (t : Transaction) (target : Option UInt64) (place : Place) : Prop :=
  t.Writes target place ∨ place = .authorizer t.sender

theorem sender_mem_parties (t : Transaction) : t.sender ∈ t.parties := by
  cases t <;> exact List.mem_cons_self

end Transaction

namespace LedgerState

variable {programs : ProgramTable} {s s' s'' : LedgerState} {group : List Transaction}
  {index : Nat} {call : AppCall} {app : UInt64} {record : AppRecord} {account heir : Address}
  {state : AppState} {amount : Nat} {updates : List (Bytes × StateValue)} {logs : List Bytes}
  {confirmation : Confirmation} {place : Place}

/-- The states hold the same at the place. -/
def SameAt (s s' : LedgerState) : Place → Prop
  | .app app => s'.apps.get? app = s.apps.get? app
  | .localState account app => s'.localState? account app = s.localState? account app
  | .balance account => s'.balances.get? account = s.balances.get? account
  | .authorizer account => s'.authorizers.get? account = s.authorizers.get? account
  | .nextApp => s'.nextApp = s.nextApp

namespace SameAt

theorem refl (s : LedgerState) (place : Place) : SameAt s s place := by
  cases place <;> rfl

theorem symm (h : SameAt s s' place) : SameAt s' s place := by
  cases place <;> exact Eq.symm h

theorem trans (h : SameAt s s' place) (h' : SameAt s' s'' place) : SameAt s s'' place := by
  cases place <;> exact Eq.trans h' h

end SameAt

/-! ## One entry -/

theorem sameAt_putApp (h : place ≠ .app app) : SameAt s (s.putApp app record) place := by
  cases place with
  | app app' => exact Table.get?_put_of_ne _ _ fun heq => h (heq ▸ rfl)
  | _ => rfl

theorem sameAt_eraseApp (h : place ≠ .app app) :
    SameAt s { s with apps := s.apps.erase app } place := by
  cases place with
  | app app' => exact Table.get?_erase_of_ne _ fun heq => h (heq ▸ rfl)
  | _ => rfl

theorem sameAt_putLocal (h : place ≠ .localState account app) :
    SameAt s (s.putLocal account app state) place := by
  cases place with
  | localState account' app' =>
    refine Table.get?_put_of_ne _ _ fun heq => h ?_
    obtain ⟨rfl, rfl⟩ := Prod.mk.inj heq
    rfl
  | _ => rfl

theorem sameAt_eraseLocal (h : place ≠ .localState account app) :
    SameAt s (s.eraseLocal account app) place := by
  cases place with
  | localState account' app' =>
    refine Table.get?_erase_of_ne _ fun heq => h ?_
    obtain ⟨rfl, rfl⟩ := Prod.mk.inj heq
    rfl
  | _ => rfl

theorem sameAt_putBalance (h : place ≠ .balance account) :
    SameAt s { s with balances := s.balances.put account amount } place := by
  cases place with
  | balance account' => exact Table.get?_put_of_ne _ _ fun heq => h (heq ▸ rfl)
  | _ => rfl

theorem sameAt_eraseBalance (h : place ≠ .balance account) :
    SameAt s { s with balances := s.balances.erase account } place := by
  cases place with
  | balance account' => exact Table.get?_erase_of_ne _ fun heq => h (heq ▸ rfl)
  | _ => rfl

theorem sameAt_debit (h : place ≠ .balance account) : SameAt s (s.debit account amount) place := by
  rw [debit]
  split
  · exact sameAt_putBalance h
  · exact .refl s place

theorem sameAt_close (haccount : place ≠ .balance account) (hheir : place ≠ .balance heir) :
    SameAt s (s.close account heir) place :=
  (sameAt_eraseBalance haccount).trans (sameAt_putBalance hheir)

theorem sameAt_rekey {authorizer : Address} (h : place ≠ .authorizer account) :
    SameAt s (s.rekey account authorizer) place := by
  rw [rekey]
  cases place with
  | authorizer account' =>
    have hne : account ≠ account' := fun heq => h (heq ▸ rfl)
    split
    · exact Table.get?_erase_of_ne _ hne
    · exact Table.get?_put_of_ne _ _ hne
  | _ => split <;> rfl

/-! ## One transaction -/

theorem sameAt_pay {p : Payment}
    (h : ∀ account ∈ (Transaction.payment p).parties, place ≠ .balance account) :
    SameAt s (s.pay p) place := by
  have hsender := h p.header.sender List.mem_cons_self
  have hreceiver := h p.receiver (List.mem_cons_of_mem _ List.mem_cons_self)
  have hpaid : SameAt s ((s.debit p.header.sender p.amount.toNat).credit p.receiver
      p.amount.toNat) place :=
    (sameAt_debit hsender).trans (sameAt_putBalance hreceiver)
  rw [pay]
  cases hclose : p.closeTo with
  | none => exact hpaid
  | some heir =>
    have hheir : heir ∈ (Transaction.payment p).parties := by
      simp [Transaction.parties, hclose]
    exact hpaid.trans (sameAt_close hsender (h heir hheir))

theorem sameAt_run (h : run programs s group index call app = .ok (logs, s'))
    (happ : place ≠ .app app) (hlocal : place ≠ .localState call.header.sender app) :
    SameAt s s' place := by
  obtain ⟨record, -, ⟨-, -, rfl⟩ | ⟨_, _, mid, -, -, -, hglobals, hlocals⟩⟩ := run_cases h
  · exact .refl s' place
  · have hmid : SameAt s mid place := by
      rcases updateGlobal_cases hglobals with rfl | ⟨-, rfl⟩
      · exact .refl mid place
      · exact sameAt_putApp happ
    rcases updateLocal_cases hlocals with rfl | ⟨_, -, -, rfl⟩
    · exact hmid
    · exact hmid.trans (sameAt_putLocal hlocal)

theorem sameAt_created {approval clear : Bytes} (hnext : place ≠ .nextApp)
    (happ : place ≠ .app s.nextApp)
    (hlocal : place ≠ .localState call.header.sender s.nextApp) :
    SameAt s (s.created call approval clear) place := by
  have hadvanced : SameAt s { s with nextApp := s.nextApp + 1 } place := by
    cases place with
    | nextApp => exact absurd rfl hnext
    | _ => rfl
  rw [created]
  split
  · exact (hadvanced.trans (sameAt_putApp happ)).trans (sameAt_putLocal hlocal)
  · exact hadvanced.trans (sameAt_putApp happ)

theorem sameAt_callExisting
    (h : callExisting programs s group index call = .ok (logs, s'))
    (happ : place ≠ .app call.app)
    (hlocal : place ≠ .localState call.header.sender call.app) : SameAt s s' place := by
  obtain ⟨-, hcalled⟩ := called_of_callExisting h
  cases hcalled with
  | noOp _ hrun => exact sameAt_run hrun happ hlocal
  | optIn _ _ hrun => exact (sameAt_putLocal hlocal).trans (sameAt_run hrun happ hlocal)
  | closeOut _ _ hrun => exact (sameAt_run hrun happ hlocal).trans (sameAt_eraseLocal hlocal)
  | clearState => exact sameAt_eraseLocal hlocal
  | update _ _ _ hrun _ => exact (sameAt_run hrun happ hlocal).trans (sameAt_putApp happ)
  | delete _ hrun => exact (sameAt_run hrun happ hlocal).trans (sameAt_eraseApp happ)

theorem sameAt_transact {t : Transaction}
    (h : transact programs s group index t = .ok (confirmation, s'))
    (hplace : ¬ t.Writes (t.target? confirmation) place) : SameAt s s' place := by
  cases t with
  | payment p =>
    obtain ⟨-, rfl⟩ := Prod.mk.inj (Except.ok.inj h)
    refine sameAt_pay fun account haccount heq => hplace ?_
    rw [heq]
    exact haccount
  | appCall call =>
    -- Both kinds of calls write at the target and at the sender's local state there.
    have hwrites (app : UInt64)
        (htarget : (Transaction.appCall call).target? confirmation = some app) :
        place ≠ .app app ∧ place ≠ .localState call.header.sender app :=
      ⟨fun heq => hplace (heq ▸ htarget), fun heq => hplace (heq ▸ ⟨rfl, htarget⟩)⟩
    rcases applyCall_cases h with ⟨hzero, hcreate⟩ | ⟨hne, _, -, hcall⟩
    · obtain ⟨approval, clear, logs, -, -, -, -, rfl, hrun⟩ := create_cases hcreate
      obtain ⟨happ, hlocal⟩ := hwrites s.nextApp (if_pos hzero)
      have hnext : place ≠ .nextApp := fun heq => hplace (heq ▸ ⟨call, rfl, hzero⟩)
      exact (sameAt_created hnext happ hlocal).trans (sameAt_run hrun happ hlocal)
    · obtain ⟨happ, hlocal⟩ := hwrites call.app (if_neg hne)
      exact sameAt_callExisting hcall happ hlocal

theorem sameAt_apply {t : Transaction}
    (h : s.apply programs group index t = .ok (confirmation, s'))
    (hplace : ¬ t.Touches (t.target? confirmation) place) : SameAt s s' place := by
  obtain ⟨hwrites, hauthorizer⟩ := not_or.mp hplace
  obtain ⟨mid, htransact, rfl⟩ := apply_cases h
  have hfee : place ≠ .balance t.sender := fun heq =>
    hwrites (heq ▸ t.sender_mem_parties)
  have hmid := (sameAt_debit hfee).trans (sameAt_transact htransact hwrites)
  cases t.header.rekeyTo with
  | none => exact hmid
  | some authorizer => exact hmid.trans (sameAt_rekey hauthorizer)

end LedgerState

/-! ## Groups -/

namespace Evaluation

variable {c : Setting} {s s' : LedgerState} {index : Nat} {signed : List SignedTransaction}
  {results : List (String × Confirmation)} {place : Place}

/-- The members of a group, each with what it has done. -/
def done (e : Evaluation) (signed : List SignedTransaction) : List (Transaction × Confirmation) :=
  (signed.map (·.transaction)).zip (e.results.map Prod.snd)

theorem sameAt_applyFrom (h : applyFrom c s index signed = .ok (results, s'))
    (hplace : ∀ m ∈ (signed.map (·.transaction)).zip (results.map Prod.snd),
      ¬ m.1.Touches (m.1.target? m.2) place) : s.SameAt s' place := by
  induction signed generalizing s index results with
  | nil =>
    obtain ⟨-, rfl⟩ := Prod.mk.inj (Except.ok.inj h)
    exact .refl s place
  | cons stxn rest ih =>
    obtain ⟨id, confirmation, mid, results', -, hmember, hrest, rfl⟩ := applyFrom_cons h
    obtain ⟨-, -, -, happly⟩ := applyMember_cases hmember
    obtain ⟨hfirst, hlater⟩ := List.forall_mem_cons.mp hplace
    exact (LedgerState.sameAt_apply happly hfirst).trans (ih hrest hlater)

end Evaluation

namespace Ledger

variable {l : Ledger} {signed : List SignedTransaction} {e : Evaluation} {place : Place}

theorem sameAt_withConfirmed (e : Evaluation) (place : Place) :
    e.state.SameAt (withConfirmed e) place := by
  cases place <;> rfl

theorem sameAt_withPending (s : LedgerState) (faults : Faults) (e : Evaluation) (place : Place) :
    s.SameAt (withPending s faults e) place := by
  cases place <;> rfl

/-- A group changes nothing that none of its members touches, whether it is confirmed or not. -/
theorem sameAt_submit (place : Place)
    (h : Evaluation.ofGroup l.programs l.state signed false = .ok e)
    (hplace : ∀ m ∈ e.done signed, ¬ m.1.Touches (m.1.target? m.2) place) :
    l.state.SameAt (l.submit signed).2.state place := by
  obtain ⟨why, hsubmit, -⟩ | ⟨e', he', hcases⟩ := submit_cases l signed
  · rw [hsubmit]
    exact .refl l.state place
  · obtain rfl := Except.ok.inj (h.symm.trans he')
    obtain ⟨-, hsubmit⟩ | ⟨-, hsubmit⟩ := hcases
    all_goals rw [hsubmit]
    · exact sameAt_withPending l.state l.faults e place
    · have hmembers := (Evaluation.accepted_of_ofGroup h).members
      exact (Evaluation.sameAt_applyFrom hmembers hplace).trans (sameAt_withConfirmed e place)

theorem exists_evaluation_of_submit {id : String} (h : (l.submit signed).1 = .ok id) :
    ∃ e, Evaluation.ofGroup l.programs l.state signed false = .ok e := by
  obtain ⟨why, hsubmit, -⟩ | ⟨e, he, -⟩ := submit_cases l signed
  · rw [hsubmit] at h
    exact absurd h nofun
  · exact ⟨e, he⟩

/-- An accepted group leaves alone the applications that it neither calls nor creates, the local
state of an account in an application that no member sent by the account calls or creates, who signs
for an account that sends no member, and the balance of an account that is neither a sender nor a
receiver of a payment nor takes over what a closed account had left. -/
theorem isolated_of_submit {id : String} (h : (l.submit signed).1 = .ok id) :
    ∃ e, Evaluation.ofGroup l.programs l.state signed false = .ok e ∧
      (∀ app, (∀ m ∈ e.done signed, m.1.target? m.2 ≠ some app) →
        (l.submit signed).2.state.apps.get? app = l.state.apps.get? app) ∧
      (∀ account app,
        (∀ m ∈ e.done signed, m.1.sender = account → m.1.target? m.2 ≠ some app) →
        (l.submit signed).2.state.localState? account app = l.state.localState? account app) ∧
      (∀ account, (∀ stxn ∈ signed, stxn.transaction.sender ≠ account) →
        (l.submit signed).2.state.authorizer account = l.state.authorizer account) ∧
      (∀ account, (∀ stxn ∈ signed, account ∉ stxn.transaction.parties) →
        (l.submit signed).2.state.balance account = l.state.balance account) := by
  obtain ⟨e, he⟩ := exists_evaluation_of_submit h
  have hmember {m : Transaction × Confirmation} (hm : m ∈ e.done signed) :
      ∃ stxn ∈ signed, stxn.transaction = m.1 :=
    List.mem_map.mp (List.of_mem_zip hm).1
  refine ⟨e, he, fun app happ => ?_, fun account app hlocal => ?_, fun account hsender => ?_,
    fun account hparty => ?_⟩
  · refine sameAt_submit (.app app) he fun m hm => ?_
    rintro (htarget | hauthorizer)
    · exact happ m hm htarget
    · cases hauthorizer
  · refine sameAt_submit (.localState account app) he fun m hm => ?_
    rintro (⟨rfl, htarget⟩ | hauthorizer)
    · exact hlocal m hm rfl htarget
    · cases hauthorizer
  · have hsame := sameAt_submit (.authorizer account) he fun m hm => ?_
    · exact congrArg (Option.getD · account) hsame
    · obtain ⟨stxn, hstxn, hm⟩ := hmember hm
      rintro (hwrites | hauthorizer)
      · exact hwrites
      · obtain rfl := Place.authorizer.inj hauthorizer
        exact hsender stxn hstxn (congrArg Transaction.sender hm)
  · have hsame := sameAt_submit (.balance account) he fun m hm => ?_
    · exact congrArg (Option.getD · 0) hsame
    · obtain ⟨stxn, hstxn, hm⟩ := hmember hm
      rintro (hwrites | hauthorizer)
      · exact hparty stxn hstxn (hm ▸ hwrites)
      · cases hauthorizer

/-- A program that writes to whatever it is called for, called by an account that pays the fee. The
application next to it stays as it is, and so does the account's local state there. -/
theorem isolated_of_submit_neighbour :
    let program : ApprovalProgram := fun _ =>
      .ok { globalUpdates := [([1], .uint 5)], localUpdates := [([2], .uint 6)] }
    let logicSig : LogicSig := { logic := [8, 1] }
    let record : AppRecord :=
      { creator := .zero, approval := [1], clear := [1], globalSchema := { uints := 1 }
        localSchema := { uints := 1 }, extraPages := 0, globalState := .empty }
    let state : LedgerState :=
      { apps := (Table.empty.put 7 record).put 9 record
        locals := (Table.empty.put (logicSig.address, 7) .empty).put (logicSig.address, 9) .empty }
    let l : Ledger := { state, programs := { approvals := Table.empty.put [1] program } }
    let call : AppCall :=
      { header :=
          { sender := logicSig.address, fee := some 1000, firstValid := 1, lastValid := 9 }
        app := 7 }
    let stxn : SignedTransaction := { logicSig := some logicSig, transaction := .appCall call }
    (∃ id, (l.submit [stxn]).1 = .ok id) ∧
      ((l.submit [stxn]).2.state.apps.get? 7).map (·.globalState.size) = some 1 ∧
      (l.submit [stxn]).2.state.apps.get? 9 = some record ∧
      (l.submit [stxn]).2.state.localState? logicSig.address 9 = some .empty ∧
      (l.submit [stxn]).2.state.authorizer .zero = .zero ∧
      (l.submit [stxn]).2.state.balance .zero = 0 := by
  intro program logicSig record state l call stxn
  have hdone : ((l.submit [stxn]).1.toOption.isSome,
      ((l.submit [stxn]).2.state.apps.get? 7).map (·.globalState.size)) = (true, some 1) := by
    decide +kernel
  obtain ⟨haccepted, hwritten⟩ := Prod.mk.inj hdone
  obtain ⟨id, hid⟩ : ∃ id, (l.submit [stxn]).1 = .ok id := by
    cases hsubmit : (l.submit [stxn]).1 with
    | error why => simp [hsubmit, Except.toOption] at haccepted
    | ok id => exact ⟨id, rfl⟩
  have hzero : logicSig.address ≠ .zero := by decide +kernel
  obtain ⟨e, he, happs, hlocals, hauthorizers, hbalances⟩ := isolated_of_submit hid
  have htarget : ∀ m ∈ e.done [stxn], m.1.target? m.2 ≠ some 9 := by
    rintro ⟨t, confirmation⟩ hm
    obtain rfl := List.mem_singleton.mp (List.of_mem_zip hm).1
    change some 7 ≠ some 9
    decide
  refine ⟨⟨id, hid⟩, hwritten, ?_, ?_, ?_, ?_⟩
  · exact (happs 9 htarget).trans rfl
  · have hlocal : state.localState? logicSig.address 9 = some .empty :=
      Table.get?_put_self _ _ _
    exact (hlocals _ 9 fun m hm _ => htarget m hm).trans hlocal
  · exact (hauthorizers .zero (List.forall_mem_singleton.mpr hzero)).trans rfl
  · refine (hbalances .zero (List.forall_mem_singleton.mpr fun hparty => ?_)).trans rfl
    exact hzero (List.mem_singleton.mp hparty).symm

end Ledger

end AppLedger
