import AppLedger.AtomicGroup
import AppLedger.Proofs.Outcome

/-! Signers wrap transactions and change nothing in them. What their batches are put together to is
the list of the transactions, each of them signed. -/

namespace AppLedger

theorem Signer.transaction_of_sign {signer : Signer} {t : Transaction} {stxn : SignedTransaction}
    (h : signer.sign t = .ok stxn) : stxn.transaction = t := by
  cases signer with
  | key pair =>
    obtain ⟨message, -, h⟩ := bind_eq_ok.mp h
    obtain rfl := Except.ok.inj h
    rfl
  | multisig account keys =>
    obtain ⟨message, -, h⟩ := bind_eq_ok.mp h
    by_cases hfew : (signShared account keys message).signatureCount < account.threshold.toNat
    · simp only [if_pos hfew] at h
      exact absurd h throw_bind_ne_ok
    · simp only [if_neg hfew] at h
      obtain rfl := Except.ok.inj h
      rfl
  | logicSig program =>
    obtain rfl := Except.ok.inj h
    rfl

theorem Signer.pick_eq_ok_iff {ts : List Transaction} {i : Nat} {t : Transaction} :
    pick ts i = .ok t ↔ ts[i]? = some t := by
  rw [pick]
  cases ts[i]? <;> simp

/-- A signer signs the places that it is given as it signs each of them alone. -/
theorem Signer.signAt_eq_ok_iff {signer : Signer} {ts : List Transaction} {places : List Nat}
    {signed : List SignedTransaction} :
    signer.signAt ts places = .ok signed ↔
      List.Forall₂ (fun i stxn => ∃ t, ts[i]? = some t ∧ signer.sign t = .ok stxn)
        places signed := by
  simp only [signAt, bind_eq_ok, mapM_eq_ok, pick_eq_ok_iff]
  constructor
  · rintro ⟨picked, hpicked, hsigned⟩
    induction hpicked generalizing signed with
    | nil =>
      cases hsigned
      exact .nil
    | cons hpick _ ih =>
      cases hsigned with
      | cons hsign hrest => exact .cons ⟨_, hpick, hsign⟩ (ih hrest)
  · intro h
    induction h with
    | nil => exact ⟨[], .nil, .nil⟩
    | cons hfirst _ ih =>
      obtain ⟨t, hpick, hsign⟩ := hfirst
      obtain ⟨picked, hpicked, hsigned⟩ := ih
      exact ⟨t :: picked, .cons hpick hpicked, .cons hsign hsigned⟩

theorem Signer.getElem?_of_signAt {signer : Signer} {ts : List Transaction} {places : List Nat}
    {signed : List SignedTransaction} (h : signer.signAt ts places = .ok signed) :
    List.Forall₂ (fun i stxn => ts[i]? = some stxn.transaction) places signed := by
  refine (signAt_eq_ok_iff.mp h).imp fun i stxn hsigned => ?_
  obtain ⟨t, hpick, hsign⟩ := hsigned
  rw [hpick, transaction_of_sign hsign]

namespace AtomicGroup

variable {ts : List Transaction} {signed : List SignedTransaction}

/-- Each signed transaction is the one at its place. -/
def PlacedIn (ts : List Transaction) (pairs : List (Nat × SignedTransaction)) : Prop :=
  ∀ p ∈ pairs, ts[p.1]? = some p.2.transaction

theorem placedIn_of_signBatch {b : Batch} {pairs : List (Nat × SignedTransaction)}
    (h : signBatch ts b = .ok pairs) : PlacedIn ts pairs := by
  obtain ⟨signed, hsigned, h⟩ := bind_eq_ok.mp h
  obtain rfl := Except.ok.inj h
  intro p hp
  exact (List.forall₂_iff_zip.mp (Signer.getElem?_of_signAt hsigned)).2 hp

theorem PlacedIn.atPlace? {pairs : List (Nat × SignedTransaction)} (h : PlacedIn ts pairs) {i : Nat}
    {stxn : SignedTransaction} (hi : AtomicGroup.atPlace? pairs i = some stxn) :
    ts[i]? = some stxn.transaction := by
  obtain ⟨p, hfind, rfl⟩ := Option.map_eq_some_iff.mp hi
  have hplace : p.1 = i := by simpa using List.find?_some hfind
  rw [← hplace]
  exact h p (List.mem_of_find?_eq_some hfind)

/-- What is found for each place, in the order of the places. -/
theorem forall₂_filterMap_range {α β : Type} {R : α → β → Prop} {as : List α} {f : Nat → Option β}
    (h : ∀ i a, as[i]? = some a → ∃ b, f i = some b ∧ R a b) :
    List.Forall₂ R as ((List.range as.length).filterMap f) := by
  induction as generalizing f with
  | nil => exact .nil
  | cons a as ih =>
    obtain ⟨b, hb, hfirst⟩ := h 0 a rfl
    rw [List.length_cons, List.range_succ_eq_map, List.filterMap_cons_some hb,
      List.filterMap_map]
    exact .cons hfirst (ih fun i a ha => h (i + 1) a ha)

/-- The order in which the signers sign has no part in it. -/
theorem transactions_of_signBatches {order : List Batch} (h : signBatches ts order = .ok signed) :
    signed.map (·.transaction) = ts := by
  obtain ⟨batches, hbatches, h⟩ := bind_eq_ok.mp h
  rw [mapError_eq_ok] at hbatches
  have hplaced : PlacedIn ts batches.flatten := by
    intro p hp
    obtain ⟨pairs, hpairs, hmem⟩ := List.mem_flatten.mp hp
    obtain ⟨b, -, hb⟩ := exists_of_mem_mapM hbatches pairs hpairs
    exact placedIn_of_signBatch hb p hmem
  dsimp only at h
  split at h
  · next hall =>
    obtain rfl := Except.ok.inj h
    have hsame : List.Forall₂ (fun t stxn => t = stxn.transaction) ts
        ((List.range ts.length).filterMap (atPlace? batches.flatten)) := by
      refine forall₂_filterMap_range fun i t ht => ?_
      have hi := List.mem_range.mpr (List.getElem?_eq_some_iff.mp ht).1
      have hsigned := List.filter_eq_nil_iff.mp hall i hi
      cases hstxn : atPlace? batches.flatten i with
      | none => simp [hstxn] at hsigned
      | some stxn => exact ⟨stxn, rfl, Option.some.inj (ht.symm.trans (hplaced.atPlace? hstxn))⟩
    rw [← List.forall₂_map_right_iff, List.forall₂_eq_eq_eq] at hsame
    exact hsame.symm
  · exact absurd h throw_ne_ok

/-! ## Binding and signing a group -/

theorem build_cases (g : AtomicGroup) :
    (∃ built, g.built = some built ∧ g.build = (.ok built, g)) ∨
    g.built = none ∧ ((∃ why, g.build = (.error why, g)) ∨
      ∃ built, g.boundMembers = .ok built ∧
        g.build = (.ok built, { g with built := some built, status := .built })) := by
  rw [build]
  cases g.built with
  | some built => exact .inl ⟨built, rfl, rfl⟩
  | none =>
    refine .inr ⟨rfl, ?_⟩
    cases g.boundMembers with
    | error why => exact .inl ⟨why, rfl⟩
    | ok built => exact .inr ⟨built, rfl, rfl⟩

theorem gatherSignatures_cases (g : AtomicGroup) :
    (∃ signed, g.signed = some signed ∧ g.gatherSignatures = (.ok signed, g)) ∨
    g.signed = none ∧ ((∃ why, g.gatherSignatures = (.error why, g.build.2)) ∨
      ∃ built signed, g.build.1 = .ok built ∧
        signed.map (·.transaction) = built.map (·.transaction) ∧
        g.gatherSignatures =
          (.ok signed, { g.build.2 with signed := some signed, status := .signed })) := by
  rw [gatherSignatures]
  cases hsigned : g.signed with
  | some signed => exact .inl ⟨signed, rfl, rfl⟩
  | none =>
    refine .inr ⟨rfl, ?_⟩
    rcases hbuild : g.build with ⟨why | built, g'⟩
    · exact .inl ⟨why, rfl⟩
    · cases hbatches : signBatches (built.map (·.transaction)) (batches built) with
      | error why => exact .inl ⟨why, by simp only [hbatches]⟩
      | ok signed =>
        refine .inr ⟨built, signed, rfl, transactions_of_signBatches hbatches, ?_⟩
        simp only [hbatches]

theorem gatherSignatures_single {m : Member} {methods : List (Nat × Abi.Method)}
    {signed : List SignedTransaction} {g : AtomicGroup}
    (h : gatherSignatures { members := [m], methods } = (.ok signed, g)) :
    ∃ stxn, signed = [stxn] ∧ stxn.transaction = m.transaction := by
  obtain ⟨_, hsome, -⟩ | ⟨-, ⟨why, hcase⟩ | ⟨built, signed', hbuilt, hwraps, hcase⟩⟩ :=
    gatherSignatures_cases { members := [m], methods }
  · exact absurd hsome nofun
  · rw [hcase] at h
    exact absurd (Prod.mk.inj h).1 nofun
  · rw [hcase] at h
    obtain rfl := Except.ok.inj (Prod.mk.inj h).1
    obtain rfl : [m] = built := Except.ok.inj hbuilt
    exact List.map_eq_singleton_iff.mp hwraps

end AtomicGroup

end AppLedger
