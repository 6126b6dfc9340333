import AppLedger.Proofs.AtomicGroup.Adding
import AppLedger.Proofs.AtomicGroup.Signing
import AppLedger.Proofs.Transaction.Group

/-! What holds of a group from its beginning on, and what of it never changes again: the members
once they are bound, the bound members, and their signatures. -/

namespace AppLedger.AtomicGroup

open Transaction

variable {g g' g'' : AtomicGroup} {built : List Member} {signed : List SignedTransaction}

/-- One member is bound as it is. Several carry the identity of the group that they make up. -/
def Binds (members built : List Member) : Prop :=
  members.length = 1 ∧ built = members ∨
    2 ≤ members.length ∧ ∃ id, groupId (members.map (·.transaction)) = .ok id ∧
      built = members.map fun m => { m with transaction := m.transaction.withGroup (some id) }

structure Sound (g : AtomicGroup) : Prop where
  size_le : g.size ≤ maxGroupSize
  ungrouped : ∀ m ∈ g.members, m.transaction.header.group = none
  isSome_built : g.built.isSome ↔ GroupStatus.built.rank ≤ g.status.rank
  isSome_signed : g.signed.isSome ↔ GroupStatus.signed.rank ≤ g.status.rank
  binds : ∀ built ∈ g.built, Binds g.members built
  wraps : ∀ built ∈ g.built, ∀ signed ∈ g.signed,
    signed.map (·.transaction) = built.map (·.transaction)

/-- The second group is what the first one can become. -/
structure Advances (g g' : AtomicGroup) : Prop where
  status : g.status.rank ≤ g'.status.rank
  members : g.built.isSome → g'.members = g.members
  built : ∀ built ∈ g.built, g'.built = some built
  signed : ∀ signed ∈ g.signed, g'.signed = some signed

theorem Advances.refl (g : AtomicGroup) : g.Advances g :=
  ⟨Nat.le_refl _, fun _ => rfl, fun _ h => h, fun _ h => h⟩

theorem Advances.trans (h : g.Advances g') (h' : g'.Advances g'') : g.Advances g'' where
  status := Nat.le_trans h.status h'.status
  members hbuilt := by
    obtain ⟨built, hsome⟩ := Option.isSome_iff_exists.mp hbuilt
    have hbuilt' : g'.built.isSome := by rw [h.built built hsome]; rfl
    rw [h'.members hbuilt', h.members hbuilt]
  built _ hsome := h'.built _ (h.built _ hsome)
  signed _ hsome := h'.signed _ (h.signed _ hsome)

/-- A sound group becomes a sound group, and is not sent. -/
def Prepares (g g' : AtomicGroup) : Prop :=
  g.Sound → g'.Sound ∧ g.Advances g' ∧
    (GroupStatus.submitted.rank ≤ g'.status.rank ↔ GroupStatus.submitted.rank ≤ g.status.rank)

theorem Prepares.refl (g : AtomicGroup) : g.Prepares g :=
  fun h => ⟨h, .refl g, Iff.rfl⟩

theorem Prepares.trans (h : g.Prepares g') (h' : g'.Prepares g'') : g.Prepares g'' := by
  intro hsound
  obtain ⟨hsound', hadvances, hsent⟩ := h hsound
  obtain ⟨hsound'', hadvances', hsent'⟩ := h' hsound'
  exact ⟨hsound'', hadvances.trans hadvances', hsent'.trans hsent⟩

theorem sound_empty : ({} : AtomicGroup).Sound where
  size_le := Nat.zero_le _
  ungrouped := by simp
  isSome_built := by decide
  isSome_signed := by decide
  binds := by simp
  wraps := by simp

/-! ## Adding -/

theorem Sound.building (h : g.Sound) (hstatus : g.status = .building) :
    g.built = none ∧ g.signed = none := by
  have hbuilt := h.isSome_built
  have hsigned := h.isSome_signed
  rw [hstatus] at hbuilt hsigned
  constructor
  · exact Option.not_isSome_iff_eq_none.mp (mt hbuilt.mp (by decide))
  · exact Option.not_isSome_iff_eq_none.mp (mt hsigned.mp (by decide))

theorem prepares_append {ms : List Member} {methods : List (Nat × Abi.Method)}
    (hroom : g.HasRoom ms.length) (hms : ∀ m ∈ ms, m.isUngrouped = true) :
    g.Prepares { g with members := g.members ++ ms, methods } := by
  intro h
  obtain ⟨hbuilt, hsigned⟩ := h.building hroom.1
  refine ⟨⟨?_, ?_, h.isSome_built, h.isSome_signed, ?_, ?_⟩, ⟨Nat.le_refl _, ?_, ?_, ?_⟩, Iff.rfl⟩
  · rw [size, List.length_append]
    exact hroom.2
  · rw [List.forall_mem_append]
    exact ⟨h.ungrouped, fun m hm => Option.isNone_iff_eq_none.mp (hms m hm)⟩
  all_goals simp [hbuilt, hsigned]

theorem prepares_addTransaction (g : AtomicGroup) (m : Member) :
    g.Prepares (g.addTransaction m).2 := by
  obtain ⟨why, hcase⟩ | ⟨hroom, hm, hcase⟩ := addTransaction_cases g m
  all_goals rw [hcase]
  · exact .refl g
  · exact prepares_append hroom (List.forall_mem_singleton.mpr hm)

theorem prepares_addMethodCall (g : AtomicGroup) (c : MethodCall) :
    g.Prepares (g.addMethodCall c).2 := by
  obtain ⟨-, why, hcase⟩ | ⟨hroom, ⟨hall, hcase⟩ | ⟨-, hcase⟩⟩ := addMethodCall_cases g c
  all_goals rw [hcase]
  · exact .refl g
  · exact prepares_append hroom (List.all_eq_true.mp hall)
  · have hshorter := (List.takeWhile_prefix (l := c.members) (·.isUngrouped)).length_le
    have htaken : g.HasRoom (c.members.takeWhile (·.isUngrouped)).length :=
      ⟨hroom.1, Nat.le_trans (Nat.add_le_add_left hshorter _) hroom.2⟩
    exact prepares_append htaken fun m hm => List.mem_takeWhile_imp hm

/-! ## Binding -/

theorem binds_of_boundMembers (h : g.boundMembers = .ok built) : Binds g.members built := by
  rw [boundMembers] at h
  by_cases hempty : g.members.isEmpty = true
  · rw [if_pos hempty] at h
    exact absurd h nofun
  rw [if_neg hempty] at h
  by_cases hone : g.size = 1
  · rw [if_pos hone] at h
    exact .inl ⟨hone, (Except.ok.inj h).symm⟩
  · rw [if_neg hone] at h
    obtain ⟨bound, hbound, h⟩ := bind_eq_ok.mp h
    obtain ⟨id, hid, hbound⟩ := bind_eq_ok.mp (mapError_eq_ok.mp hbound)
    obtain rfl := Except.ok.inj hbound
    obtain rfl := Except.ok.inj h
    have hpos := List.length_pos_iff.mpr (mt List.isEmpty_iff.mpr hempty)
    have hlen : 2 ≤ g.members.length := by
      rw [size] at hone
      omega
    refine .inr ⟨hlen, id, hid, ?_⟩
    rw [List.map_map, List.zipWith_map_left, List.zipWith_self]
    rfl

theorem prepares_build (g : AtomicGroup) : g.Prepares g.build.2 := by
  obtain ⟨built, -, hcase⟩ | ⟨hnone, ⟨why, hcase⟩ | ⟨built, hbound, hcase⟩⟩ := build_cases g
  all_goals rw [hcase]
  · exact .refl g
  · exact .refl g
  · intro h
    have hrank : g.status.rank < GroupStatus.built.rank := by
      refine Nat.not_le.mp (mt h.isSome_built.mpr ?_)
      simp [hnone]
    have hsigned : g.signed = none := by
      refine Option.not_isSome_iff_eq_none.mp (mt h.isSome_signed.mp (Nat.not_le.mpr ?_))
      exact Nat.lt_trans hrank (by decide)
    refine ⟨⟨h.size_le, h.ungrouped, ?_, ?_, ?_, ?_⟩, ⟨Nat.le_of_lt hrank, ?_, ?_, ?_⟩, ?_⟩
    · simp
    · rw [hsigned]
      exact iff_of_false nofun (by decide : ¬ GroupStatus.signed.rank ≤ GroupStatus.built.rank)
    · intro built' hbuilt'
      obtain rfl := Option.some.inj hbuilt'
      exact binds_of_boundMembers hbound
    · simp [hsigned]
    · simp [hnone]
    · simp [hnone]
    · simp [hsigned]
    · have hbuilt : ¬ GroupStatus.submitted.rank ≤ GroupStatus.built.rank := by decide
      exact iff_of_false hbuilt (Nat.not_le.mpr (Nat.lt_trans hrank (by decide)))

theorem built_of_build (h : g.build.1 = .ok built) :
    g.build.2.built = some built ∧ g.build.2.signed = g.signed := by
  obtain ⟨_, hbuilt, hcase⟩ | ⟨-, ⟨why, hcase⟩ | ⟨_, -, hcase⟩⟩ := build_cases g
  all_goals
    rw [hcase] at h ⊢
    dsimp only at h ⊢
  · exact ⟨hbuilt.trans (congrArg some (Except.ok.inj h)), rfl⟩
  · exact absurd h nofun
  · exact ⟨congrArg some (Except.ok.inj h), rfl⟩

/-! ## Signing -/

theorem prepares_sign (hbuilt : g.built = some built) (hsigned : g.signed = none)
    (hwraps : signed.map (·.transaction) = built.map (·.transaction)) :
    g.Prepares { g with signed := some signed, status := .signed } := by
  intro h
  have hrank : g.status.rank < GroupStatus.signed.rank := by
    refine Nat.not_le.mp (mt h.isSome_signed.mpr ?_)
    simp [hsigned]
  refine ⟨⟨h.size_le, h.ungrouped, ?_, ?_, h.binds, ?_⟩,
    ⟨Nat.le_of_lt hrank, fun _ => rfl, fun _ h => h, ?_⟩, ?_⟩
  · simp only [hbuilt, Option.isSome_some, true_iff]
    decide
  · simp only [Option.isSome_some, true_iff]
    exact Nat.le_refl _
  · intro built' hbuilt' signed' hsigned'
    obtain rfl := Option.some.inj (hbuilt.symm.trans hbuilt')
    obtain rfl := Option.some.inj hsigned'
    exact hwraps
  · simp [hsigned]
  · have hsent : ¬ GroupStatus.submitted.rank ≤ GroupStatus.signed.rank := by decide
    exact iff_of_false hsent (Nat.not_le.mpr (Nat.lt_trans hrank (by decide)))

theorem prepares_gatherSignatures (g : AtomicGroup) : g.Prepares g.gatherSignatures.2 := by
  obtain ⟨_, -, hcase⟩ | ⟨hnone, ⟨why, hcase⟩ | ⟨built, signed, hbuilt, hwraps, hcase⟩⟩ :=
    gatherSignatures_cases g
  all_goals rw [hcase]
  · exact .refl g
  · exact prepares_build g
  · obtain ⟨hbuilt, hsigned⟩ := built_of_build hbuilt
    exact (prepares_build g).trans (prepares_sign hbuilt (hsigned.trans hnone) hwraps)

theorem signed_of_gatherSignatures (h : g.gatherSignatures.1 = .ok signed) :
    g.gatherSignatures.2.signed = some signed := by
  obtain ⟨_, hsigned, hcase⟩ | ⟨-, ⟨why, hcase⟩ | ⟨_, _, -, -, hcase⟩⟩ := gatherSignatures_cases g
  all_goals
    rw [hcase] at h ⊢
    dsimp only at h ⊢
  · exact hsigned.trans (congrArg some (Except.ok.inj h))
  · exact absurd h nofun
  · exact congrArg some (Except.ok.inj h)

end AppLedger.AtomicGroup
