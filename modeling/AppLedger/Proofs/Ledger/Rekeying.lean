import AppLedger.Proofs.Ledger.Isolation
import Mathlib.Data.List.Induction

/-! Who signs for an account. Every transaction that takes effect carries the account that signs for
its sender at that point, and who signs for an account changes only by a transaction that the
account sends, to the account that this transaction names. -/

namespace AppLedger

/-- Who signs for an account after a transaction, if `signer` does before it. -/
def SignedTransaction.signerAfter (stxn : SignedTransaction) (account signer : Address) : Address :=
  if stxn.transaction.sender = account then stxn.transaction.header.rekeyTo.getD signer else signer

def signerAfter (account signer : Address) (signed : List SignedTransaction) : Address :=
  signed.foldl (fun signer stxn => stxn.signerAfter account signer) signer

theorem signerAfter_append (account signer : Address) (signed signed' : List SignedTransaction) :
    signerAfter account signer (signed ++ signed') =
      signerAfter account (signerAfter account signer signed) signed' :=
  List.foldl_append

/-- A change comes from the last transaction by the account that names a signer. -/
theorem exists_rekey_of_signerAfter_ne {account signer : Address}
    {signed : List SignedTransaction} (h : signerAfter account signer signed ≠ signer) :
    ∃ stxn ∈ signed, stxn.transaction.sender = account ∧
      stxn.transaction.header.rekeyTo = some (signerAfter account signer signed) := by
  -- From the end, since the last transaction that names a signer decides.
  induction signed using List.reverseRecOn with
  | nil => exact absurd rfl h
  | append_singleton before stxn ih =>
    have hlast : signerAfter account signer (before ++ [stxn]) =
        stxn.signerAfter account (signerAfter account signer before) :=
      signerAfter_append account signer before [stxn]
    rw [hlast, SignedTransaction.signerAfter] at h ⊢
    have hearlier (hkept : signerAfter account signer before ≠ signer) :
        ∃ s ∈ before ++ [stxn], s.transaction.sender = account ∧
          s.transaction.header.rekeyTo = some (signerAfter account signer before) := by
      obtain ⟨s, hs, hrekey⟩ := ih hkept
      exact ⟨s, List.mem_append_left _ hs, hrekey⟩
    by_cases hsender : stxn.transaction.sender = account
    · rw [if_pos hsender] at h ⊢
      cases hrekey : stxn.transaction.header.rekeyTo with
      | some authorizer =>
        exact ⟨stxn, List.mem_append_right _ List.mem_cons_self, hsender, hrekey⟩
      | none =>
        rw [hrekey] at h
        exact hearlier h
    · rw [if_neg hsender] at h ⊢
      exact hearlier h

/-! ## One transaction -/

namespace LedgerState

variable {programs : ProgramTable} {s s' : LedgerState} {group : List Transaction} {index : Nat}
  {confirmation : Confirmation}

theorem authorizer_rekey (s : LedgerState) (account authorizer account' : Address) :
    (s.rekey account authorizer).authorizer account' =
      if account = account' then authorizer else s.authorizer account' := by
  rw [rekey, LedgerState.authorizer, LedgerState.authorizer]
  split
  · next hown =>
    rw [Table.get?_erase]
    split
    · next haccount => rw [hown, haccount, Option.getD_none]
    · rfl
  · rw [Table.get?_put]
    split <;> rfl

/-- An account that signs for itself has no entry. -/
def NoOwnAuthorizer (s : LedgerState) : Prop :=
  ∀ account, s.authorizers.get? account ≠ some account

theorem noOwnAuthorizer_rekey (h : s.NoOwnAuthorizer) (account authorizer : Address) :
    (s.rekey account authorizer).NoOwnAuthorizer := by
  intro account'
  rw [rekey]
  split
  · rw [Table.get?_erase]
    split
    · exact (Option.some_ne_none account').symm
    · exact h account'
  · next hown =>
    rw [Table.get?_put]
    split
    · next haccount => exact fun hsome => hown ((Option.some.inj hsome).trans haccount.symm)
    · exact h account'

/-- Nothing but the rekeying changes who signs. -/
theorem authorizers_of_apply {t : Transaction}
    (h : s.apply programs group index t = .ok (confirmation, s')) :
    ∃ mid : LedgerState, (∀ account, mid.authorizers.get? account = s.authorizers.get? account) ∧
      s' = t.header.rekeyTo.elim mid (mid.rekey t.sender) := by
  obtain ⟨mid, htransact, hs'⟩ := apply_cases h
  refine ⟨mid, fun account => ?_, hs'⟩
  have hfee : s.SameAt (s.debit t.sender (t.header.fee.getD 0).toNat) (.authorizer account) :=
    sameAt_debit nofun
  have hmid : s.SameAt mid (.authorizer account) := hfee.trans (sameAt_transact htransact id)
  exact hmid

theorem authorizer_apply {stxn : SignedTransaction}
    (h : s.apply programs group index stxn.transaction = .ok (confirmation, s'))
    (account : Address) :
    s'.authorizer account = stxn.signerAfter account (s.authorizer account) := by
  obtain ⟨mid, hmid, rfl⟩ := authorizers_of_apply h
  have hkept : mid.authorizer account = s.authorizer account :=
    congrArg (Option.getD · account) (hmid account)
  rw [SignedTransaction.signerAfter]
  cases stxn.transaction.header.rekeyTo with
  | none =>
    rw [Option.getD_none, ite_self]
    exact hkept
  | some authorizer =>
    rw [Option.elim_some, authorizer_rekey, hkept]
    rfl

theorem noOwnAuthorizer_apply {t : Transaction} (hs : s.NoOwnAuthorizer)
    (h : s.apply programs group index t = .ok (confirmation, s')) : s'.NoOwnAuthorizer := by
  obtain ⟨mid, hmid, rfl⟩ := authorizers_of_apply h
  have hkept : mid.NoOwnAuthorizer := fun account => hmid account ▸ hs account
  cases t.header.rekeyTo with
  | none => exact hkept
  | some authorizer => exact noOwnAuthorizer_rekey hkept t.sender authorizer

end LedgerState

/-! ## One group -/

namespace Evaluation

variable {c : Setting} {s s' : LedgerState} {index : Nat} {signed : List SignedTransaction}
  {results : List (String × Confirmation)}

theorem authorizer_of_verify {stxn : SignedTransaction} {expected : Address}
    (h : stxn.verify expected = .ok ()) : stxn.authorizer = expected := by
  rw [SignedTransaction.verify] at h
  split at h
  · exact absurd h nofun
  · next hne => exact not_not.mp hne

theorem authorizer_applyFrom (h : applyFrom c s index signed = .ok (results, s'))
    (account : Address) :
    s'.authorizer account = signerAfter account (s.authorizer account) signed := by
  induction signed generalizing s index results with
  | nil =>
    obtain ⟨-, rfl⟩ := Prod.mk.inj (Except.ok.inj h)
    rfl
  | cons stxn rest ih =>
    obtain ⟨id, confirmation, mid, results', -, hmember, hrest, -⟩ := applyFrom_cons h
    obtain ⟨-, -, -, happly⟩ := applyMember_cases hmember
    rw [ih hrest, LedgerState.authorizer_apply happly]
    rfl

/-- Every member carries the account that signs for its sender after the members before it. -/
theorem authorized_of_applyFrom (hsigned : c.allowUnsigned = false)
    (h : applyFrom c s index signed = .ok (results, s')) {before after : List SignedTransaction}
    {stxn : SignedTransaction} (hsplit : signed = before ++ stxn :: after) :
    stxn.authorizer = signerAfter stxn.transaction.sender
      (s.authorizer stxn.transaction.sender) before := by
  -- On the members before it; each of them moves the state on, and who signs along with it.
  induction before generalizing s index signed results with
  | nil =>
    rw [hsplit] at h
    obtain ⟨id, confirmation, mid, results', -, hmember, -, -⟩ := applyFrom_cons h
    obtain ⟨-, -, ⟨-, hunsigned⟩ | hverify, -⟩ := applyMember_cases hmember
    · rw [hsigned] at hunsigned
      exact absurd hunsigned nofun
    · exact authorizer_of_verify hverify
  | cons first before ih =>
    rw [hsplit] at h
    obtain ⟨id, confirmation, mid, results', -, hmember, hrest, -⟩ := applyFrom_cons h
    obtain ⟨-, -, -, happly⟩ := applyMember_cases hmember
    rw [ih hrest rfl, LedgerState.authorizer_apply happly]
    rfl

end Evaluation

/-! ## Runs -/

namespace Ledger

variable {l : Ledger} {op : LedgerOp}

/-- The transactions that take effect in a run, in their order. -/
def committed (l : Ledger) (ops : List LedgerOp) : List SignedTransaction :=
  (l.confirmedGroups ops).flatMap Prod.fst

theorem committed_cons (l : Ledger) (op : LedgerOp) (ops : List LedgerOp) :
    l.committed (op :: ops) =
      (l.confirmedBy op).flatMap Prod.fst ++ (l.perform op).committed ops := by
  rw [committed, confirmedGroups, List.flatMap_append]
  rfl

theorem authorizer_perform (l : Ledger) (op : LedgerOp) (account : Address) :
    (l.perform op).state.authorizer account =
      signerAfter account (l.state.authorizer account) ((l.confirmedBy op).flatMap Prod.fst) := by
  cases performed l op with
  | confirmed hby haccepted hstate =>
    rw [hby, hstate, List.flatMap_singleton]
    exact Evaluation.authorizer_applyFrom haccepted.members account
  | pending hby _ hstate =>
    rw [hby, hstate]
    rfl
  | waited | funded => rfl
  | kept hby hstate =>
    rw [hby, hstate]
    rfl

theorem authorizer_run (l : Ledger) (ops : List LedgerOp) (account : Address) :
    (l.run ops).state.authorizer account =
      signerAfter account (l.state.authorizer account) (l.committed ops) := by
  induction ops generalizing l with
  | nil => rfl
  | cons op ops ih =>
    rw [run_cons, ih, authorizer_perform, ← signerAfter_append, ← committed_cons]

theorem invariant_noOwnAuthorizer : Invariant LedgerState.NoOwnAuthorizer where
  apply _ _ _ _ _ _ _ hs happly := LedgerState.noOwnAuthorizer_apply hs happly
  credit _ _ _ hs := hs
  chain _ _ _ hs := hs

theorem authorized_of_confirmedBy {g : List SignedTransaction × Evaluation}
    (hg : g ∈ l.confirmedBy op) {before after : List SignedTransaction} {stxn : SignedTransaction}
    (hsplit : g.1 = before ++ stxn :: after) :
    stxn.authorizer = signerAfter stxn.transaction.sender
      (l.state.authorizer stxn.transaction.sender) before := by
  obtain ⟨haccepted, -⟩ := accepted_of_confirmedBy hg
  exact Evaluation.authorized_of_applyFrom rfl haccepted.members hsplit

/-- However a new ledger is used, the account that signs for another one is the one that the
committed transactions of that account have named last, and no account is on record as its own
signer. Every transaction of a group that is confirmed next carries the account that signs for its
sender after the members before it, and who signs for an account changes only by a member that the
account sends, to the account that this member names. -/
theorem authorized_run (ops : List LedgerOp) :
    let start : Ledger := {}
    let l := start.run ops
    (∀ account, l.state.authorizer account = signerAfter account account (start.committed ops)) ∧
      (∀ account, l.state.authorizers.get? account ≠ some account) ∧
      ∀ op, (∀ g ∈ l.confirmedBy op, ∀ before stxn after, g.1 = before ++ stxn :: after →
          stxn.authorizer = signerAfter stxn.transaction.sender
            (l.state.authorizer stxn.transaction.sender) before) ∧
        ∀ account, (l.perform op).state.authorizer account ≠ l.state.authorizer account →
          ∃ g ∈ l.confirmedBy op, ∃ stxn ∈ g.1, stxn.transaction.sender = account ∧
            stxn.transaction.header.rekeyTo = some ((l.perform op).state.authorizer account) := by
  intro start l
  have hstart : start.state.NoOwnAuthorizer := fun account => nofun
  refine ⟨authorizer_run start ops, invariant_noOwnAuthorizer.run hstart ops, fun op => ⟨?_, ?_⟩⟩
  · exact fun g hg before stxn after hsplit => authorized_of_confirmedBy hg hsplit
  · intro account hchanged
    rw [authorizer_perform] at hchanged ⊢
    obtain ⟨stxn, hstxn, hsender, hrekey⟩ := exists_rekey_of_signerAfter_ne hchanged
    obtain ⟨g, hg, hmember⟩ := List.mem_flatMap.mp hstxn
    exact ⟨g, hg, stxn, hmember, hsender, hrekey⟩

/-- A payment by a program that is rekeyed with it. The payment is still the program's own to sign,
and nothing that it sends later is. -/
theorem authorized_run_rekeyed :
    let logicSig : LogicSig := { logic := [8, 1] }
    let header : Header :=
      { sender := logicSig.address, fee := some 1000, firstValid := 1, lastValid := 9
        rekeyTo := some .zero }
    let stxn : SignedTransaction :=
      { logicSig := some logicSig, transaction := .payment ⟨header, .zero, 5, none⟩ }
    let op : LedgerOp := .submit [stxn]
    (perform {} op).state.authorizer logicSig.address = .zero ∧
      ∃ e, ([stxn], e) ∈ confirmedBy {} op ∧
        stxn.authorizer = signerAfter logicSig.address logicSig.address [] := by
  intro logicSig header stxn op
  have hrekeyed : (perform {} op).state.authorizer logicSig.address = .zero ∧
      logicSig.address ≠ .zero := by
    decide +kernel
  obtain ⟨hafter, hother⟩ := hrekeyed
  obtain ⟨-, -, hnext⟩ := authorized_run []
  obtain ⟨hauthorized, hchange⟩ := hnext op
  have hchanged : (perform {} op).state.authorizer logicSig.address ≠ logicSig.address := by
    rw [hafter]
    exact hother.symm
  obtain ⟨g, hg, -⟩ := hchange logicSig.address hchanged
  obtain ⟨e, -, rfl⟩ := Option.map_eq_some_iff.mp (Option.mem_toList.mp hg)
  exact ⟨hafter, e, hg, hauthorized _ hg [] stxn [] rfl⟩

end Ledger

end AppLedger
