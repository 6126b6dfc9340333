import AppLedger.Proofs.AtomicGroup.Signing

/-! The batches that the signers of a group sign. Each place is in the batch of its own signer, and
a batch is signed as its transactions are one by one, so that the order of the batches has no part
in what is put together from them. -/

namespace AppLedger

theorem Signer.signAt_singleton {signer : Signer} {t : Transaction} {stxn : SignedTransaction} :
    signer.signAt [t] [0] = .ok [stxn] ↔ signer.sign t = .ok stxn := by
  rw [signAt_eq_ok_iff, List.forall₂_cons]
  simp

namespace AtomicGroup

/-- Handles of one number are one signer. -/
def SharesSigners (members : List Member) : Prop :=
  ∀ m ∈ members, ∀ m' ∈ members, m.signer.number = m'.signer.number → m.signer = m'.signer

/-! ## Forming batches -/

section Batches

variable {signer : SignerHandle} {place : Nat} {bs order : List Batch} {b : Batch}
  {ms done : List Member}

theorem mem_addToBatch (h : b ∈ addToBatch signer place bs) :
    b = ⟨signer, [place]⟩ ∨ b ∈ bs ∨
      ∃ b' ∈ bs, b'.signer.number = signer.number ∧
        b = { b' with places := b'.places ++ [place] } := by
  induction bs with
  | nil => exact .inl (List.mem_singleton.mp h)
  | cons first rest ih =>
    rw [addToBatch] at h
    by_cases hnumber : first.signer.number = signer.number
    · rw [if_pos hnumber] at h
      rcases List.mem_cons.mp h with rfl | h
      · exact .inr (.inr ⟨first, List.mem_cons_self, hnumber, rfl⟩)
      · exact .inr (.inl (List.mem_cons_of_mem _ h))
    · rw [if_neg hnumber] at h
      rcases List.mem_cons.mp h with rfl | h
      · exact .inr (.inl List.mem_cons_self)
      · obtain hnew | hold | ⟨b', hb', hgrown⟩ := ih h
        · exact .inl hnew
        · exact .inr (.inl (List.mem_cons_of_mem _ hold))
        · exact .inr (.inr ⟨b', List.mem_cons_of_mem _ hb', hgrown⟩)

theorem exists_place_addToBatch (signer : SignerHandle) (place : Nat) (bs : List Batch) :
    ∃ b ∈ addToBatch signer place bs, place ∈ b.places := by
  induction bs with
  | nil => exact ⟨_, List.mem_singleton_self _, List.mem_singleton_self _⟩
  | cons first rest ih =>
    rw [addToBatch]
    split
    · exact ⟨_, List.mem_cons_self, List.mem_append_right _ (List.mem_singleton_self _)⟩
    · obtain ⟨b, hb, hplace⟩ := ih
      exact ⟨b, List.mem_cons_of_mem _ hb, hplace⟩

/-- No place is lost. -/
theorem exists_subset_addToBatch (hb : b ∈ bs) :
    ∃ b' ∈ addToBatch signer place bs, b.places ⊆ b'.places := by
  induction bs with
  | nil => exact absurd hb nofun
  | cons first rest ih =>
    rw [addToBatch]
    split
    · rcases List.mem_cons.mp hb with rfl | hb
      · exact ⟨_, List.mem_cons_self, List.subset_append_left _ _⟩
      · exact ⟨b, List.mem_cons_of_mem _ hb, List.Subset.refl _⟩
    · rcases List.mem_cons.mp hb with rfl | hb
      · exact ⟨b, List.mem_cons_self, List.Subset.refl _⟩
      · obtain ⟨b', hb', hsubset⟩ := ih hb
        exact ⟨b', List.mem_cons_of_mem _ hb', hsubset⟩

theorem nodup_addToBatch (h : (bs.map (·.signer.number)).Nodup) :
    ((addToBatch signer place bs).map (·.signer.number)).Nodup := by
  induction bs with
  | nil => exact List.pairwise_singleton _ _
  | cons first rest ih =>
    rw [addToBatch]
    by_cases hnumber : first.signer.number = signer.number
    · rw [if_pos hnumber]
      exact h
    · rw [if_neg hnumber]
      rw [List.map_cons, List.nodup_cons] at h ⊢
      refine ⟨fun hmem => ?_, ih h.2⟩
      obtain ⟨b, hb, hsame⟩ := List.mem_map.mp hmem
      obtain rfl | hb | ⟨b', hb', -, rfl⟩ := mem_addToBatch hb
      · exact hnumber hsame.symm
      · exact h.1 (List.mem_map.mpr ⟨b, hb, hsame⟩)
      · exact h.1 (List.mem_map.mpr ⟨b', hb', hsame⟩)

/-- The places of the members, in one batch for each signer. -/
structure IsBatched (ms : List Member) (bs : List Batch) : Prop where
  distinct : (bs.map (·.signer.number)).Nodup
  covers : ∀ i < ms.length, ∃ b ∈ bs, i ∈ b.places
  places : ∀ b ∈ bs, ∀ i ∈ b.places, ∃ m, ms[i]? = some m ∧ m.signer.number = b.signer.number
  signer : ∀ b ∈ bs, ∃ m ∈ ms, m.signer = b.signer

theorem IsBatched.add (h : IsBatched ms bs) (m : Member) :
    IsBatched (ms ++ [m]) (addToBatch m.signer ms.length bs) := by
  have hlast : (ms ++ [m])[ms.length]? = some m := List.getElem?_concat_length
  have hearlier {i : Nat} {m' : Member} (hi : ms[i]? = some m') : (ms ++ [m])[i]? = some m' := by
    rw [List.getElem?_append_left (List.getElem?_eq_some_iff.mp hi).1, hi]
  constructor
  · exact nodup_addToBatch h.distinct
  · intro i hi
    rw [List.length_append, List.length_singleton] at hi
    rcases Nat.lt_succ_iff_lt_or_eq.mp hi with hi | rfl
    · obtain ⟨b, hb, hplace⟩ := h.covers i hi
      obtain ⟨b', hb', hsubset⟩ := exists_subset_addToBatch hb
      exact ⟨b', hb', hsubset hplace⟩
    · exact exists_place_addToBatch m.signer _ bs
  · intro b hb i hi
    obtain rfl | hold | ⟨b', hb', hnumber, rfl⟩ := mem_addToBatch hb
    · obtain rfl := List.mem_singleton.mp hi
      exact ⟨m, hlast, rfl⟩
    · obtain ⟨m', hm', hsigner⟩ := h.places b hold i hi
      exact ⟨m', hearlier hm', hsigner⟩
    · rcases List.mem_append.mp hi with hi | hi
      · obtain ⟨m', hm', hsigner⟩ := h.places b' hb' i hi
        exact ⟨m', hearlier hm', hsigner⟩
      · obtain rfl := List.mem_singleton.mp hi
        exact ⟨m, hlast, hnumber.symm⟩
  · intro b hb
    have hold {b' : Batch} (hb' : b' ∈ bs) : ∃ m' ∈ ms ++ [m], m'.signer = b'.signer := by
      obtain ⟨m', hm', hsigner⟩ := h.signer b' hb'
      exact ⟨m', List.mem_append_left _ hm', hsigner⟩
    obtain rfl | hb | ⟨b', hb', -, rfl⟩ := mem_addToBatch hb
    · exact ⟨m, List.mem_append_right _ (List.mem_singleton_self m), rfl⟩
    · exact hold hb
    · obtain ⟨m', hm', hsigner⟩ := hold hb'
      exact ⟨m', hm', hsigner⟩

theorem isBatched_batchesFrom (h : IsBatched done bs) :
    IsBatched (done ++ ms) (batchesFrom done.length bs ms) := by
  induction ms generalizing done bs with
  | nil =>
    rw [List.append_nil]
    exact h
  | cons m ms ih =>
    have hadded := ih (h.add m)
    rwa [List.append_assoc, List.length_append] at hadded

theorem isBatched_nil : IsBatched [] [] where
  distinct := List.nodup_nil
  covers _ hi := absurd hi (Nat.not_lt_zero _)
  places _ hb := absurd hb List.not_mem_nil
  signer _ hb := absurd hb List.not_mem_nil

theorem isBatched_batches (ms : List Member) : IsBatched ms (batches ms) := by
  have h : IsBatched ([] ++ ms) (batchesFrom 0 [] ms) := isBatched_batchesFrom isBatched_nil
  rwa [List.nil_append] at h

theorem IsBatched.perm (h : IsBatched ms bs) (horder : order.Perm bs) : IsBatched ms order := by
  constructor
  · exact (horder.map _).nodup_iff.mpr h.distinct
  · intro i hi
    obtain ⟨b, hb, hplace⟩ := h.covers i hi
    exact ⟨b, horder.mem_iff.mpr hb, hplace⟩
  · exact fun b hb => h.places b (horder.mem_iff.mp hb)
  · exact fun b hb => h.signer b (horder.mem_iff.mp hb)

theorem IsBatched.member (h : IsBatched ms bs) (hshares : SharesSigners ms) (hb : b ∈ bs)
    (hplace : place ∈ b.places) : ∃ m, ms[place]? = some m ∧ m.signer = b.signer := by
  obtain ⟨m, hm, hnumber⟩ := h.places b hb place hplace
  obtain ⟨m', hm', hsigner⟩ := h.signer b hb
  have hsame := hshares m (List.mem_of_getElem? hm) m' hm' (by rw [hnumber, hsigner])
  exact ⟨m, hm, hsame.trans hsigner⟩

end Batches

/-! ## Signing the batches -/

/-- The signer of the member signs its transaction alone. -/
def SignsAs (m : Member) (stxn : SignedTransaction) : Prop :=
  m.signer.signer.signAt [m.transaction] [0] = .ok [stxn]

section Signing

variable {ts : List Transaction} {b : Batch} {pairs : List (Nat × SignedTransaction)}

theorem signBatch_eq_ok (h : signBatch ts b = .ok pairs) :
    pairs.map Prod.fst = b.places ∧
      ∀ p ∈ pairs, ∃ t, ts[p.1]? = some t ∧ b.signer.signer.sign t = .ok p.2 := by
  obtain ⟨signed, hsigned, h⟩ := bind_eq_ok.mp h
  obtain rfl := Except.ok.inj h
  obtain ⟨hlen, heach⟩ := List.forall₂_iff_zip.mp (Signer.signAt_eq_ok_iff.mp hsigned)
  exact ⟨List.map_fst_zip (Nat.le_of_eq hlen), fun p hp => heach hp⟩

theorem exists_signBatch
    (h : ∀ i ∈ b.places, ∃ t, ts[i]? = some t ∧ ∃ stxn, b.signer.signer.sign t = .ok stxn) :
    ∃ pairs, signBatch ts b = .ok pairs := by
  obtain ⟨picked, hpicked⟩ : ∃ picked, b.places.mapM (Signer.pick ts) = .ok picked := by
    refine exists_mapM fun i hi => ?_
    obtain ⟨t, ht, -⟩ := h i hi
    exact ⟨t, Signer.pick_eq_ok_iff.mpr ht⟩
  obtain ⟨signed, hsigned⟩ : ∃ signed, picked.mapM b.signer.signer.sign = .ok signed := by
    refine exists_mapM fun t ht => ?_
    obtain ⟨i, hi, hpick⟩ := exists_of_mem_mapM hpicked t ht
    obtain ⟨t', ht', hsign⟩ := h i hi
    rwa [Option.some.inj ((Signer.pick_eq_ok_iff.mp hpick).symm.trans ht')]
  refine ⟨b.places.zip signed, bind_eq_ok.mpr ⟨signed, ?_, rfl⟩⟩
  exact bind_eq_ok.mpr ⟨picked, hpicked, hsigned⟩

variable {ms : List Member} {order : List Batch} {all : List (List (Nat × SignedTransaction))}
  {signed : List SignedTransaction}

/-- The place of a member has what its own signer signs, whichever batch has signed it. -/
theorem IsBatched.atPlace?_eq (h : IsBatched ms order) (hshares : SharesSigners ms)
    (hall : order.mapM (signBatch (ms.map (·.transaction))) = .ok all) (i : Nat) (m : Member)
    (hm : ms[i]? = some m) : ∃ stxn, atPlace? all.flatten i = some stxn ∧ SignsAs m stxn := by
  obtain ⟨b, hb, hplace⟩ := h.covers i (List.getElem?_eq_some_iff.mp hm).1
  obtain ⟨pairs, hpairs, hsigned⟩ := exists_mem_of_mapM hall b hb
  have hfound : (all.flatten.find? (·.1 = i)).isSome := by
    rw [← (signBatch_eq_ok hsigned).1] at hplace
    obtain ⟨p, hp, hfst⟩ := List.mem_map.mp hplace
    refine List.find?_isSome.mpr ⟨p, List.mem_flatten.mpr ⟨pairs, hpairs, hp⟩, ?_⟩
    exact decide_eq_true hfst
  obtain ⟨p, hfind⟩ := Option.isSome_iff_exists.mp hfound
  -- what is found first may be of another batch, which is one of the same signer then
  refine ⟨p.2, by rw [atPlace?, hfind]; rfl, ?_⟩
  obtain rfl : p.1 = i := by simpa using List.find?_some hfind
  obtain ⟨pairs', hpairs', hp⟩ := List.mem_flatten.mp (List.mem_of_find?_eq_some hfind)
  obtain ⟨b', hb', hsigned'⟩ := exists_of_mem_mapM hall pairs' hpairs'
  obtain ⟨hplaces, heach⟩ := signBatch_eq_ok hsigned'
  obtain ⟨t, ht, hsign⟩ := heach p hp
  obtain ⟨m', hm', hsigner⟩ := h.member hshares hb' (hplaces ▸ List.mem_map_of_mem hp)
  obtain rfl := Option.some.inj (hm'.symm.trans hm)
  rw [List.getElem?_map, hm', Option.map_some] at ht
  obtain rfl := Option.some.inj ht
  rw [SignsAs, Signer.signAt_singleton, hsigner]
  exact hsign

/-- Once every batch is signed no place is left over. -/
theorem IsBatched.signBatches_of_mapM (h : IsBatched ms order) (hshares : SharesSigners ms)
    (hall : order.mapM (signBatch (ms.map (·.transaction))) = .ok all) :
    ∃ signed, signBatches (ms.map (·.transaction)) order = .ok signed ∧
      List.Forall₂ SignsAs ms signed := by
  have hplaced := h.atPlace?_eq hshares hall
  refine ⟨_, ?_, forall₂_filterMap_range hplaced⟩
  refine bind_eq_ok.mpr ⟨all, mapError_eq_ok.mpr hall, ?_⟩
  have hnone : (List.range ms.length).filter (fun i => (atPlace? all.flatten i).isNone) = [] := by
    refine List.filter_eq_nil_iff.mpr fun i hi => ?_
    rw [List.mem_range] at hi
    obtain ⟨stxn, hstxn, -⟩ := hplaced i _ (List.getElem?_eq_getElem hi)
    simp [hstxn]
  simp only [List.length_map, hnone]
  rfl

theorem IsBatched.forall₂_of_signBatches (h : IsBatched ms order) (hshares : SharesSigners ms)
    (hsigned : signBatches (ms.map (·.transaction)) order = .ok signed) :
    List.Forall₂ SignsAs ms signed := by
  obtain ⟨all, hall, -⟩ := bind_eq_ok.mp hsigned
  obtain ⟨signed', hsigned', heach⟩ := h.signBatches_of_mapM hshares (mapError_eq_ok.mp hall)
  obtain rfl := Except.ok.inj (hsigned'.symm.trans hsigned)
  exact heach

theorem IsBatched.exists_signBatches (h : IsBatched ms order) (hshares : SharesSigners ms)
    (heach : ∀ m ∈ ms, ∃ stxn, SignsAs m stxn) :
    ∃ signed, signBatches (ms.map (·.transaction)) order = .ok signed := by
  obtain ⟨all, hall⟩ : ∃ all, order.mapM (signBatch (ms.map (·.transaction))) = .ok all := by
    refine exists_mapM fun b hb => exists_signBatch fun i hi => ?_
    obtain ⟨m, hm, hsigner⟩ := h.member hshares hb hi
    obtain ⟨stxn, hstxn⟩ := heach m (List.mem_of_getElem? hm)
    rw [SignsAs, Signer.signAt_singleton, hsigner] at hstxn
    exact ⟨m.transaction, by rw [List.getElem?_map, hm, Option.map_some], stxn, hstxn⟩
  obtain ⟨signed, hsigned, -⟩ := h.signBatches_of_mapM hshares hall
  exact ⟨signed, hsigned⟩

end Signing

end AtomicGroup

end AppLedger
