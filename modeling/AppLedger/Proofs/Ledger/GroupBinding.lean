import AppLedger.AtomicGroup
import AppLedger.Ledger.Evaluation
import AppLedger.Proofs.DomainSeparation

/-! A ledger takes the groups that are put together here. A group identity stands for one list of
transactions only, as far as no two of the hashed byte strings have one hash. -/

namespace AppLedger

open Transaction Evaluation

theorem Transaction.withGroup_none {t : Transaction} (h : t.header.group = none) :
    t.withGroup none = t := by
  cases t <;> rw [withGroup, ← h] <;> rfl

theorem Transaction.group_withGroup (group : Option Digest) (t : Transaction) :
    (t.withGroup group).header.group = group := by
  cases t <;> rfl

theorem Transaction.withGroup_withGroup (group group' : Option Digest) (t : Transaction) :
    (t.withGroup group).withGroup group' = t.withGroup group' := by
  cases t <;> rfl

/-- The byte strings whose hashes make up the identity of a group: one for each member without its
group, and one for the whole. -/
def hashedStrings (group : List Transaction) : List Bytes :=
  match (group.map (·.withGroup none)).mapM encode with
  | .ok members => groupPreimage (members.map digest) :: members
  | .error _ => []

theorem hashedStrings_norm (group : List Transaction) :
    hashedStrings (group.map norm) = hashedStrings group := by
  have hmembers : ((group.map norm).map (·.withGroup none)).mapM encode =
      (group.map (·.withGroup none)).mapM encode := by
    rw [List.map_map, mapM_map_congr (g := fun t => (t.withGroup none).encode), List.mapM_map]
    · rfl
    · intro t _
      rw [← encode_norm (t.withGroup none), norm_withGroup]
      rfl
  rw [hashedStrings, hmembers, hashedStrings]

theorem hashedStrings_withGroup (id : Option Digest) (group : List Transaction) :
    hashedStrings (group.map (·.withGroup id)) = hashedStrings group := by
  have hungrouped : (group.map (·.withGroup id)).map (·.withGroup none) =
      group.map (·.withGroup none) := by
    rw [List.map_map]
    exact List.map_congr_left fun t _ => withGroup_withGroup _ _ t
  rw [hashedStrings, hungrouped, hashedStrings]

namespace Evaluation

variable {group : List Transaction} {id : Digest}

theorem verifyMembers_eq_ok_iff :
    verifyMembers group = .ok () ↔ ∃ id, groupId (group.map (·.withGroup none)) = .ok id ∧
      ∀ t ∈ group, t.header.group = some id := by
  rw [verifyMembers]
  cases groupId (group.map (·.withGroup none)) with
  | error why => simp
  | ok id =>
    by_cases hall : ∀ t ∈ group, t.header.group = some id <;> simp [hall]

theorem verifyGroup_singleton {t : Transaction} (h : t.header.group = none) :
    verifyGroup [t] = .ok () := by
  simp [verifyGroup, h]

/-- What the members say of their group is looked at as soon as one of them says something. -/
theorem verifyMembers_of_verifyGroup (hgroup : ∀ t ∈ group, t.header.group = some id)
    (h : verifyGroup group = .ok ()) : verifyMembers group = .ok () := by
  rw [verifyGroup] at h
  split at h
  · next hsingle =>
    obtain ⟨t, rfl⟩ := List.length_eq_one_iff.mp hsingle.1
    have hnone := hsingle.2
    simp [hgroup t (by simp)] at hnone
  · exact h

theorem verifyGroup_withGroup {ts : List Transaction} (hgroup : ∀ t ∈ ts, t.header.group = none)
    (h : groupId ts = .ok id) : verifyGroup (ts.map (·.withGroup (some id))) = .ok () := by
  have hungrouped : (ts.map (·.withGroup (some id))).map (·.withGroup none) = ts := by
    rw [List.map_map]
    conv_rhs => rw [← List.map_id ts]
    exact List.map_congr_left fun t ht =>
      (withGroup_withGroup _ _ t).trans (withGroup_none (hgroup t ht))
  have hmembers : verifyMembers (ts.map (·.withGroup (some id))) = .ok () := by
    refine verifyMembers_eq_ok_iff.mpr ⟨id, by rwa [hungrouped], fun t ht => ?_⟩
    obtain ⟨t, -, rfl⟩ := List.mem_map.mp ht
    exact group_withGroup _ t
  rw [verifyGroup]
  split
  · rfl
  · exact hmembers

theorem exists_encodings (hgroup : ∀ t ∈ group, t.header.group = some id)
    (h : verifyGroup group = .ok ()) :
    ∃ members, (group.map (·.withGroup none)).mapM encode = .ok members ∧
      digest (groupPreimage (members.map digest)) = id ∧ group.length ≤ maxGroupSize := by
  obtain ⟨id', hid, hall⟩ := verifyMembers_eq_ok_iff.mp (verifyMembers_of_verifyGroup hgroup h)
  obtain ⟨hne, hsize, ids, hids, hdigest⟩ := groupId_eq_ok_iff.mp hid
  rw [List.length_map] at hsize
  have hnone : ∀ t ∈ group.map (·.withGroup none), t.header.group = none := by
    intro t ht
    obtain ⟨t, -, rfl⟩ := List.mem_map.mp ht
    exact group_withGroup none t
  obtain ⟨members, hmembers, rfl⟩ := (mapM_ungroupedId_eq_ok_iff hnone).mp hids
  obtain ⟨t, ht⟩ := List.exists_mem_of_ne_nil group fun hnil => hne (by rw [hnil, List.map_nil])
  have heq : some id' = some id := (hall t ht).symm.trans (hgroup t ht)
  exact ⟨members, hmembers, hdigest.trans (Option.some.inj heq), hsize⟩

/-- Two groups under one identity are made of the same byte strings. -/
theorem encodings_unique {group' : List Transaction} {members members' : List Bytes}
    (hfree : CollisionFree (hashedStrings group ++ hashedStrings group'))
    (hm : (group.map (·.withGroup none)).mapM encode = .ok members)
    (hm' : (group'.map (·.withGroup none)).mapM encode = .ok members')
    (hsize : group.length ≤ maxGroupSize) (hsize' : group'.length ≤ maxGroupSize)
    (heq : digest (groupPreimage (members.map digest)) =
      digest (groupPreimage (members'.map digest))) : members = members' := by
  have hstrings : hashedStrings group = groupPreimage (members.map digest) :: members := by
    rw [hashedStrings, hm]
  have hstrings' : hashedStrings group' = groupPreimage (members'.map digest) :: members' := by
    rw [hashedStrings, hm']
  rw [hstrings, hstrings'] at hfree
  have hpreimage := hfree _ (by simp) _ (by simp) heq
  have hbound : maxGroupSize < UInt32.size := by decide
  have hlen := (mapM_eq_ok.mp hm).length_eq
  have hlen' := (mapM_eq_ok.mp hm').length_eq
  rw [List.length_map] at hlen hlen'
  have hids := groupPreimage_injective (by rw [List.length_map]; omega)
    (by rw [List.length_map]; omega) hpreimage
  exact hfree.eq_of_map (fun _ ha => by simp [ha]) (fun _ hb => by simp [hb]) hids

theorem map_norm_eq_of_encodings {ts us : List Transaction} {bs : List Bytes}
    (hts : ∀ t ∈ ts, t.Sized) (hus : ∀ u ∈ us, u.Sized) (ht : ts.mapM encode = .ok bs)
    (hu : us.mapM encode = .ok bs) : ts.map norm = us.map norm := by
  rw [mapM_eq_ok] at ht hu
  induction ht generalizing us with
  | nil =>
    cases hu
    rfl
  | cons htb _ ih =>
    cases hu with
    | cons hub hrest =>
      rw [List.forall_mem_cons] at hts hus
      rw [List.map_cons, List.map_cons, norm_eq_of_encode hts.1 hus.1 htb hub,
        ih hts.2 hus.2 hrest]

end Evaluation

theorem Transaction.sized_withGroup {group : Option Digest} {t : Transaction} (h : t.Sized) :
    (t.withGroup group).Sized := by
  cases t with
  | payment p => exact ⟨h.genesisId, h.note⟩
  | appCall c => exact { h with header := ⟨h.header.genesisId, h.header.note⟩ }

theorem Transaction.norm_eq_withGroup {group : Option Digest} {t : Transaction}
    (h : t.header.group = group) :
    t.norm = (t.withGroup none).norm.withGroup (group.filter (!·.isZero)) := by
  rw [← norm_withGroup, withGroup_withGroup, ← h]
  cases t <;> rfl

namespace AtomicGroup

theorem map_transaction_zipWith {ts : List Transaction} {members : List Member}
    (h : ts.length = members.length) :
    (List.zipWith (fun t m => { m with transaction := t : Member }) ts members).map
      (·.transaction) = ts := by
  induction ts generalizing members with
  | nil => rfl
  | cons t ts ih =>
    cases members with
    | nil => simp at h
    | cons m members => rw [List.zipWith_cons_cons, List.map_cons, ih (by simpa using h)]

theorem build_of_boundMembers {g : AtomicGroup} {bound : List Member} (hbuilt : g.built = none)
    (h : g.boundMembers = .ok bound) : g.build.1 = .ok bound := by
  rw [build, hbuilt, h]

theorem exists_build {g : AtomicGroup} (hbuilt : g.built = none)
    (hgroup : ∀ t ∈ g.members.map (·.transaction), t.header.group = none) {id : Digest}
    (hid : groupId (g.members.map (·.transaction)) = .ok id) :
    ∃ bound, g.build.1 = .ok bound ∧ verifyGroup (bound.map (·.transaction)) = .ok () := by
  have hne : g.members ≠ [] := fun hnil => (groupId_eq_ok_iff.mp hid).1 (by rw [hnil]; rfl)
  have hmembers : ¬ g.members.isEmpty = true := by rwa [List.isEmpty_iff]
  by_cases hone : g.size = 1
  · have hbound : g.boundMembers = .ok g.members := by
      rw [boundMembers, if_neg hmembers, if_pos hone]
    obtain ⟨m, hm⟩ := List.length_eq_one_iff.mp hone
    refine ⟨g.members, build_of_boundMembers hbuilt hbound, ?_⟩
    rw [hm] at hgroup ⊢
    exact verifyGroup_singleton (hgroup _ (by simp))
  · have hbound : g.boundMembers = .ok (List.zipWith (fun t m => { m with transaction := t })
        ((g.members.map (·.transaction)).map (·.withGroup (some id))) g.members) := by
      rw [boundMembers, if_neg hmembers, if_neg hone, assignGroup_of_groupId hid]
      rfl
    refine ⟨_, build_of_boundMembers hbuilt hbound, ?_⟩
    rw [map_transaction_zipWith (by simp)]
    exact verifyGroup_withGroup hgroup hid

end AtomicGroup

end AppLedger
