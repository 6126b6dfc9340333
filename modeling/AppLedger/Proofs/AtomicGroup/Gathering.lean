import AppLedger.Proofs.AtomicGroup.Batches
import AppLedger.Proofs.AtomicGroup.Run

/-! Gathering the signatures of a group is signing its members one by one. Whatever has happened to
the group before and whichever signer signs first, it succeeds if each member can be signed alone,
and it ends with what their own signers sign. -/

namespace AppLedger.AtomicGroup

open Effect

variable {σ : Type} {g : AtomicGroup} {built : List Member} {signed : List SignedTransaction}

/-- The signatures of the group, where its signers sign in the given order. -/
def gatherInOrder (order : List Batch) (g : AtomicGroup) :
    Except ClientError (List SignedTransaction) :=
  match g.signed with
  | some signed => .ok signed
  | none => do signBatches ((← g.build.1).map (·.transaction)) order

/-- The signers sign in the order in which they first occur. -/
theorem gatherSignatures_eq_inOrder (hbuild : g.build.1 = .ok built) :
    g.gatherSignatures.1 = g.gatherInOrder (batches built) := by
  rw [gatherSignatures, gatherInOrder]
  cases g.signed with
  | some signed => rfl
  | none =>
    rcases hresult : g.build with ⟨why | built', g'⟩
    all_goals rw [hresult] at hbuild
    · simp at hbuild
    · obtain rfl := Except.ok.inj hbuild
      change _ = signBatches (built'.map (·.transaction)) (batches built')
      dsimp only
      cases signBatches (built'.map (·.transaction)) (batches built') <;> rfl

/-! ## What was gathered before -/

/-- Signatures that the group already has were put together from the batches of its members. -/
def Gathered (g : AtomicGroup) : Prop :=
  ∀ signed ∈ g.signed, ∃ built ∈ g.built,
    signBatches (built.map (·.transaction)) (batches built) = .ok signed

theorem gathered_empty : ({} : AtomicGroup).Gathered := nofun

theorem gathered_build (h : g.Gathered) : g.build.2.Gathered := by
  obtain ⟨built, -, hcase⟩ | ⟨hnone, ⟨why, hcase⟩ | ⟨built, -, hcase⟩⟩ := build_cases g
  all_goals rw [hcase]
  · exact h
  · exact h
  · intro signed hsigned
    obtain ⟨built', hbuilt', -⟩ := h signed hsigned
    exact absurd (hnone.symm.trans hbuilt') nofun

theorem gathered_gatherSignatures (h : g.Gathered) : g.gatherSignatures.2.Gathered := by
  rw [gatherSignatures]
  cases g.signed with
  | some signed => exact h
  | none =>
    have hkept := gathered_build h
    rcases hbuild : g.build with ⟨why | built, g'⟩
    all_goals rw [hbuild] at hkept
    · exact hkept
    · dsimp only
      cases hbatches : signBatches (built.map (·.transaction)) (batches built) with
      | error why => exact hkept
      | ok signed =>
        have hbuilt : g'.built = some built := by
          have h := (built_of_build (congrArg Prod.fst hbuild)).1
          rwa [hbuild] at h
        intro signed' hsigned'
        obtain rfl := Option.some.inj hsigned'
        exact ⟨built, hbuilt, hbatches⟩

def Gathers (w w' : AtomicGroup × Session σ) : Prop :=
  w.1.Gathered → w'.1.Gathered

theorem Gathers.trans {w w' w'' : AtomicGroup × Session σ} (h : Gathers w w')
    (h' : Gathers w' w'') : Gathers w w'' :=
  fun hw => h' (h hw)

def signatures (w : AtomicGroup × Session σ) :
    Option (List Member) × Option (List SignedTransaction) :=
  (w.1.built, w.1.signed)

theorem gathers_of_signatures {w w' : AtomicGroup × Session σ}
    (h : signatures w' = signatures w) : Gathers w w' := by
  obtain ⟨hbuilt, hsigned⟩ := Prod.mk.inj h
  intro hw
  rwa [Gathered, hbuilt, hsigned]

section Effects

variable {α : Type}

theorem keeps_signatures_onSession (x : Effect ClientError (Session σ) α) :
    Keeps signatures (onSession x) :=
  fun _ => rfl

theorem keeps_signatures_setStatus (status : GroupStatus) :
    Keeps signatures (setStatus status : GroupEffect σ Unit) :=
  fun _ => rfl

theorem keeps_signatures_read (f : AtomicGroup → Except ClientError α) :
    Keeps signatures (onGroup fun g => (f g, g) : GroupEffect σ α) :=
  fun _ => rfl

theorem gathers_of_keeps {x : GroupEffect σ α} (h : Keeps signatures x) : Leads Gathers x :=
  h.leads fun _ _ => gathers_of_signatures

theorem gathers_gatherSignatures : Leads Gathers (onGroup gatherSignatures : GroupEffect σ _) :=
  fun _ => gathered_gatherSignatures

theorem gathers_submit (net : Network σ) : Leads Gathers (submit net) := by
  refine (gathers_of_keeps keeps_get).bind .trans fun w => ?_
  split
  · exact gathers_of_keeps keeps_throw_bind
  · refine gathers_gatherSignatures.bind .trans fun signed => gathers_of_keeps ?_
    refine keeps_ofExcept.bind fun ids => ?_
    refine (keeps_signatures_onSession _).bind fun _ => ?_
    exact (keeps_signatures_setStatus _).bind fun _ => keeps_pure

theorem gathers_execute (net : Network σ) (maxRounds : Option Nat) :
    Leads Gathers (execute net maxRounds) := by
  refine (gathers_submit net).bind .trans fun ids => gathers_of_keeps ?_
  cases ids with
  | nil => exact keeps_throw
  | cons first rest =>
    refine keeps_get.bind fun w => (keeps_signatures_onSession _).bind fun confirmed => ?_
    refine (Keeps.mapM (fun id => keeps_signatures_onSession _) rest).bind fun others => ?_
    refine (keeps_signatures_setStatus _).bind fun _ => ?_
    exact (keeps_signatures_read _).bind fun _ => keeps_pure

theorem gathers_simulate (net : Network σ) : Leads Gathers (simulate net) := by
  refine gathers_gatherSignatures.bind .trans fun signed => gathers_of_keeps ?_
  refine keeps_ofExcept.bind fun ids => (keeps_signatures_onSession _).bind fun result => ?_
  refine (keeps_signatures_onSession _).bind fun _ => ?_
  cases result.failure with
  | some reason => exact keeps_throw
  | none => exact (keeps_signatures_read _).bind fun _ => keeps_pure

theorem gathers_perform (net : Network σ) (w : AtomicGroup × Session σ) (op : GroupOp) :
    Gathers w (perform net w op) := by
  cases op with
  | addTransaction m =>
    obtain ⟨why, hcase⟩ | ⟨-, -, hcase⟩ := addTransaction_cases w.1 m
    all_goals
      rw [perform, hcase]
      exact gathers_of_signatures rfl
  | addMethodCall c =>
    obtain ⟨-, why, hcase⟩ | ⟨-, ⟨-, hcase⟩ | ⟨-, hcase⟩⟩ := addMethodCall_cases w.1 c
    all_goals
      rw [perform, hcase]
      exact gathers_of_signatures rfl
  | build => exact gathered_build
  | gatherSignatures => exact gathered_gatherSignatures
  | submit => exact gathers_submit net w
  | execute maxRounds => exact gathers_execute net maxRounds w
  | simulate => exact gathers_simulate net w

theorem gathers_run (net : Network σ) (w : AtomicGroup × Session σ) (ops : List GroupOp) :
    Gathers w (run net w ops) := by
  induction ops generalizing w with
  | nil => exact id
  | cons op ops ih => exact (gathers_perform net w op).trans (ih _)

end Effects

/-! ## Groups that a run leads to -/

theorem sound_of_run (net : Network σ) (s : Session σ) (ops : List GroupOp) :
    (run net ({}, s) ops).1.Sound := by
  have hpart : (run net.recorded ({}, s.recorded) ops).1 = (run net ({}, s) ops).1 :=
    congrArg Prod.fst (onPart_run net ({}, s.recorded) ops)
  rw [← hpart]
  exact (goesOn_run net ({}, s.recorded) ops sound_empty handedOver_empty).1

theorem Sound.binds_of_build (h : g.Sound) (hbuild : g.build.1 = .ok built) :
    Binds g.members built := by
  obtain ⟨built', hbuilt, hcase⟩ | ⟨-, ⟨why, hcase⟩ | ⟨built', hbound, hcase⟩⟩ := build_cases g
  all_goals rw [hcase] at hbuild
  · exact h.binds built (hbuilt.trans (congrArg some (Except.ok.inj hbuild)))
  · exact absurd hbuild nofun
  · obtain rfl := Except.ok.inj hbuild
    exact binds_of_boundMembers hbound

/-- Binding leaves every member its signer. -/
theorem Binds.sharesSigners {members : List Member} (h : Binds members built)
    (hshares : SharesSigners members) : SharesSigners built := by
  obtain ⟨-, rfl⟩ | ⟨-, id, -, rfl⟩ := h
  · exact hshares
  · intro m hm m' hm'
    obtain ⟨n, hn, rfl⟩ := List.mem_map.mp hm
    obtain ⟨n', hn', rfl⟩ := List.mem_map.mp hm'
    exact hshares n hn n' hn'

theorem gatherInOrder_ok {order : List Batch} (hgathered : g.Gathered)
    (hshares : SharesSigners built) (hbuild : g.build.1 = .ok built)
    (horder : order.Perm (batches built)) :
    ((∃ signed, g.gatherInOrder order = .ok signed) ↔ ∀ m ∈ built, ∃ stxn, SignsAs m stxn) ∧
      ∀ signed, g.gatherInOrder order = .ok signed → List.Forall₂ SignsAs built signed := by
  have hbatched := isBatched_batches built
  have heach : ∀ signed, g.gatherInOrder order = .ok signed →
      List.Forall₂ SignsAs built signed := by
    intro signed hsigned
    rw [gatherInOrder] at hsigned
    cases hcached : g.signed with
    | some cached =>
      -- the group was signed before, and in the order of its batches
      obtain ⟨built', hbuilt', hbatches⟩ := hgathered cached hcached
      rw [build, hbuilt'] at hbuild
      rw [hcached] at hsigned
      obtain rfl := Except.ok.inj hbuild
      obtain rfl := Except.ok.inj hsigned
      exact hbatched.forall₂_of_signBatches hshares hbatches
    | none =>
      rw [hcached, hbuild] at hsigned
      exact (hbatched.perm horder).forall₂_of_signBatches hshares hsigned
  refine ⟨⟨?_, ?_⟩, heach⟩
  · rintro ⟨signed, hsigned⟩ m hm
    obtain ⟨stxn, -, hstxn⟩ := exists_of_mem_left (heach signed hsigned) m hm
    exact ⟨stxn, hstxn⟩
  · intro halone
    rw [gatherInOrder]
    cases g.signed with
    | some cached => exact ⟨cached, rfl⟩
    | none =>
      rw [hbuild]
      exact (hbatched.perm horder).exists_signBatches hshares halone

/-- In whatever order its distinct signers sign, each of them once, a group that can be bound
gathers its signatures if and only if the signer of each member can sign its bound transaction
alone. The signed transaction at each place is then the one that the signer of that place signs. -/
theorem gatherInOrder_ok_iff (net : Network σ) (s : Session σ) (ops : List GroupOp)
    (hg : (run net ({}, s) ops).1 = g) (hshares : SharesSigners g.members)
    (hbuild : g.build.1 = .ok built) :
    g.gatherSignatures.1 = g.gatherInOrder (batches built) ∧
      ∀ order : List Batch, order.Perm (batches built) →
        (order.map (·.signer.number)).Nodup ∧
        ((∃ signed, g.gatherInOrder order = .ok signed) ↔ ∀ m ∈ built, ∃ stxn, SignsAs m stxn) ∧
        ∀ signed, g.gatherInOrder order = .ok signed → List.Forall₂ SignsAs built signed := by
  have hsound : g.Sound := hg ▸ sound_of_run net s ops
  have hgathered : g.Gathered := hg ▸ gathers_run net ({}, s) ops gathered_empty
  have hshares' := (hsound.binds_of_build hbuild).sharesSigners hshares
  refine ⟨gatherSignatures_eq_inOrder hbuild, fun order horder => ⟨?_, ?_⟩⟩
  · exact ((isBatched_batches built).perm horder).distinct
  · exact gatherInOrder_ok hgathered hshares' hbuild horder

/-- Three payments of two signers, of which the one that signs twice comes last. -/
theorem gatherInOrder_ok_iff_shared :
    let twice : SignerHandle := ⟨0, .logicSig { logic := [8, 1] }⟩
    let once : SignerHandle := ⟨1, .logicSig { logic := [8, 2] }⟩
    let payment (amount : UInt64) : Transaction := .payment
      { header := { sender := Address.zero, firstValid := 1, lastValid := 100 }
        receiver := Address.zero, amount }
    let ms : List Member := [⟨payment 1, twice⟩, ⟨payment 2, once⟩, ⟨payment 3, twice⟩]
    let g := (run (Ledger.network Ledger.compiler) ({}, { world := {} })
      (ms.map GroupOp.addTransaction)).1
    ∃ built signed, SharesSigners g.members ∧ g.build.1 = .ok built ∧
      (batches built).reverse.map (·.places) = [[1], [0, 2]] ∧
      g.gatherInOrder (batches built).reverse = .ok signed ∧
      List.Forall₂ SignsAs built signed := by
  intro twice once payment ms g
  have hmembers : g.members = ms := rfl
  have hshares : SharesSigners g.members := by
    rw [hmembers, SharesSigners]
    decide
  have hends : (g.build.1.bind fun built =>
      (g.gatherInOrder (batches built).reverse).map fun _ =>
        (batches built).reverse.map (·.places)).toOption = some [[1], [0, 2]] := by
    decide
  rcases hbuild : g.build.1 with why | built
  · rw [hbuild] at hends
    exact absurd hends nofun
  rw [hbuild, Except.bind] at hends
  rcases hsigned : g.gatherInOrder (batches built).reverse with why | signed
  · rw [hsigned] at hends
    exact absurd hends nofun
  rw [hsigned] at hends
  have hplaces : (batches built).reverse.map (·.places) = [[1], [0, 2]] := Option.some.inj hends
  obtain ⟨-, horders⟩ := gatherInOrder_ok_iff _ _ _ rfl hshares hbuild
  exact ⟨built, signed, hshares, rfl, hplaces, hsigned,
    (horders _ (List.reverse_perm _)).2.2 signed hsigned⟩

end AppLedger.AtomicGroup
