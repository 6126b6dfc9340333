import AppLedger.AtomicGroup
import Mathlib.Data.List.TakeWhile

/-! What is left in a group when a transaction or the call of a method cannot be added to it. One
transaction leaves nothing. A call leaves those of its transactions that stand in front of the one
that is grouped already. -/

namespace AppLedger

def Member.isUngrouped (m : Member) : Bool :=
  m.transaction.header.group.isNone

/-- The call with the transactions that go in front of it, in their order. -/
def MethodCall.members (c : MethodCall) : List Member :=
  c.before ++ [c.call]

namespace AtomicGroup

variable {g g' : AtomicGroup} {m : Member} {c : MethodCall} {why : ClientError}

/-- The group is not built, and the members do not make it too large. -/
def HasRoom (g : AtomicGroup) (more : Nat) : Prop :=
  g.status = .building ∧ g.size + more ≤ maxGroupSize

instance {more : Nat} : Decidable (g.HasRoom more) :=
  inferInstanceAs (Decidable (_ ∧ _))

theorem checkRoom_eq_ok_iff {more : Nat} : g.checkRoom more = .ok () ↔ g.HasRoom more := by
  rw [checkRoom, HasRoom]
  by_cases hstatus : g.status = .building
  · by_cases hfull : maxGroupSize < g.size + more
    · simp [hstatus, hfull]
    · have hroom : g.size + more ≤ maxGroupSize := Nat.not_lt.mp hfull
      simp [hstatus, hfull, hroom]
  · simp [hstatus]

theorem not_hasRoom_of_checkRoom {more : Nat} (h : g.checkRoom more = .error why) :
    ¬ g.HasRoom more := by
  rw [← checkRoom_eq_ok_iff, h]
  exact nofun

/-- The members are taken up to the first one that is grouped. -/
theorem pushAll_eq (g : AtomicGroup) (ms : List Member) :
    g.pushAll ms =
      (if ms.all (·.isUngrouped) then .ok () else .error (.argument .grouped),
        { g with members := g.members ++ ms.takeWhile (·.isUngrouped) }) := by
  induction ms generalizing g with
  | nil => simp [pushAll]
  | cons m ms ih =>
    rw [pushAll]
    cases hgroup : m.transaction.header.group with
    | some group =>
      have hgrouped : m.isUngrouped = false := by rw [Member.isUngrouped, hgroup]; rfl
      simp [hgrouped]
    | none =>
      have hungrouped : m.isUngrouped = true := by rw [Member.isUngrouped, hgroup]; rfl
      have hrest := ih { g with members := g.members ++ [m] }
      simp [hungrouped, hrest]

theorem addTransaction_cases (g : AtomicGroup) (m : Member) :
    (∃ why, g.addTransaction m = (.error why, g)) ∨
    g.HasRoom 1 ∧ m.isUngrouped = true ∧
      g.addTransaction m = (.ok (), { g with members := g.members ++ [m] }) := by
  rw [addTransaction]
  cases hroom : g.checkRoom 1 with
  | error why => exact .inl ⟨why, rfl⟩
  | ok _ =>
    simp only [pushAll_eq]
    cases hm : m.isUngrouped with
    | false => exact .inl ⟨.argument .grouped, by simp [hm]⟩
    | true => exact .inr ⟨checkRoom_eq_ok_iff.mp hroom, rfl, by simp [hm]⟩

/-- A call is refused as a whole, added as a whole, or taken apart at a transaction that is grouped
already. -/
theorem addMethodCall_cases (g : AtomicGroup) (c : MethodCall) :
    (¬ g.HasRoom c.members.length ∧ ∃ why, g.addMethodCall c = (.error why, g)) ∨
    g.HasRoom c.members.length ∧
      ((c.members.all (·.isUngrouped) = true ∧ g.addMethodCall c =
        (.ok (),
          { g with
            members := g.members ++ c.members
            methods := g.methods ++ [(g.size + c.before.length, c.method)] })) ∨
      (c.members.all (·.isUngrouped) = false ∧ g.addMethodCall c =
        (.error (.argument .grouped),
          { g with members := g.members ++ c.members.takeWhile (·.isUngrouped) }))) := by
  have hlen : c.before.length + 1 = c.members.length := by simp [MethodCall.members]
  have hmembers : c.before ++ [c.call] = c.members := rfl
  rw [addMethodCall, hlen, hmembers]
  cases hroom : g.checkRoom c.members.length with
  | error why => exact .inl ⟨not_hasRoom_of_checkRoom hroom, why, rfl⟩
  | ok _ =>
    refine .inr ⟨checkRoom_eq_ok_iff.mp hroom, ?_⟩
    simp only [pushAll_eq]
    cases hall : c.members.all (·.isUngrouped) with
    | false => exact .inr ⟨rfl, rfl⟩
    | true =>
      have htaken : c.members.takeWhile (·.isUngrouped) = c.members :=
        List.takeWhile_eq_self_iff.mpr (List.all_eq_true.mp hall)
      have hplace : (g.members ++ c.members).length - 1 = g.size + c.before.length := by
        rw [List.length_append, ← hlen]
        rfl
      refine .inl ⟨rfl, ?_⟩
      simp only [htaken, size, if_true, hplace]

/-- What a call that cannot be added leaves in the group. -/
def leftBehind (g : AtomicGroup) (c : MethodCall) : List Member :=
  if g.HasRoom c.members.length then c.members.takeWhile (·.isUngrouped) else []

theorem addTransaction_error (h : g.addTransaction m = (.error why, g')) : g' = g := by
  obtain ⟨_, hcase⟩ | ⟨-, -, hcase⟩ := addTransaction_cases g m
  all_goals rw [hcase] at h
  · exact (Prod.mk.inj h).2.symm
  · exact absurd (Prod.mk.inj h).1 nofun

theorem addMethodCall_error (h : g.addMethodCall c = (.error why, g')) :
    g' = { g with members := g.members ++ g.leftBehind c } := by
  rw [leftBehind]
  obtain ⟨hroom, _, hcase⟩ | ⟨hroom, ⟨-, hcase⟩ | ⟨-, hcase⟩⟩ := addMethodCall_cases g c
  all_goals
    rw [hcase] at h
    obtain ⟨hresult, rfl⟩ := Prod.mk.inj h
  · rw [if_neg hroom, List.append_nil]
  · exact absurd hresult nofun
  · rw [if_pos hroom]

theorem leftBehind_eq_nil_iff :
    g.leftBehind c = [] ↔
      (g.HasRoom c.members.length → ∃ first ∈ c.members.head?, first.isUngrouped = false) := by
  have hne : c.members ≠ [] := List.append_ne_nil_of_right_ne_nil _ (List.cons_ne_nil _ _)
  obtain ⟨first, rest, hmembers⟩ := List.exists_cons_of_ne_nil hne
  rw [leftBehind, hmembers, List.takeWhile_cons]
  cases hfirst : first.isUngrouped <;> simp [hfirst]

/-- A transaction that cannot be added leaves the group as it was. So does the call of a method
where the group has no room for it, or where the first of its transactions is grouped already.
Where a later one is, those in front of it stay in the group without the call. -/
theorem add_error_keeps_iff (g : AtomicGroup) :
    (∀ m why g', g.addTransaction m = (.error why, g') → g' = g) ∧
    ∀ c why g', g.addMethodCall c = (.error why, g') →
      g' = { g with members := g.members ++ g.leftBehind c } ∧
      (g' = g ↔
        (g.HasRoom c.members.length → ∃ first ∈ c.members.head?, first.isUngrouped = false)) := by
  refine ⟨fun _ _ _ => addTransaction_error, fun c why g' h => ?_⟩
  obtain rfl := addMethodCall_error h
  refine ⟨rfl, ?_⟩
  rw [← leftBehind_eq_nil_iff]
  constructor
  · intro hsame
    exact List.append_right_eq_self.mp (congrArg AtomicGroup.members hsame)
  · intro hnil
    rw [hnil, List.append_nil]

/-- A payment in a group, and one that is grouped already: it is refused by itself and as the first
transaction of a call. -/
theorem add_error_keeps_iff_grouped :
    let payment : Payment :=
      { header := { sender := Address.zero, firstValid := 1, lastValid := 100 }
        receiver := Address.zero, amount := 5 }
    let plain : Member := ⟨.payment payment, 0, .logicSig { logic := [8, 1] }⟩
    let grouped : Member := { plain with
      transaction := plain.transaction.withGroup (some FixedBytes.zero) }
    let c : MethodCall := { call := plain, method := { name := "pay" }, before := [grouped, plain] }
    let g : AtomicGroup := { members := [plain] }
    (∃ g', g.addTransaction grouped = (.error (.argument .grouped), g') ∧ g' = g) ∧
      ∃ g', g.addMethodCall c = (.error (.argument .grouped), g') ∧ g' = g := by
  intro payment plain grouped c g
  obtain ⟨htransaction, hcall⟩ := add_error_keeps_iff g
  refine ⟨⟨_, rfl, htransaction grouped _ _ rfl⟩, ⟨_, rfl, ?_⟩⟩
  exact (hcall c _ _ rfl).2.mpr fun _ => ⟨grouped, rfl, rfl⟩

/-- A payment stays in a group although the call that it belongs to is not added, as the payment
behind it is grouped already. -/
theorem addMethodCall_leaves_payment :
    let payment : Payment :=
      { header := { sender := Address.zero, firstValid := 1, lastValid := 100 }
        receiver := Address.zero, amount := 5 }
    let plain : Member := ⟨.payment payment, 0, .logicSig { logic := [8, 1] }⟩
    let grouped : Member := { plain with
      transaction := plain.transaction.withGroup (some FixedBytes.zero) }
    let c : MethodCall := { call := plain, method := { name := "pay" }, before := [plain, grouped] }
    ({} : AtomicGroup).addMethodCall c = (.error (.argument .grouped), { members := [plain] }) ∧
      ({ members := [plain] } : AtomicGroup) ≠ {} := by
  intro payment plain grouped c
  exact ⟨rfl, fun hsame => absurd (congrArg AtomicGroup.members hsame) (List.cons_ne_nil _ _)⟩

end AtomicGroup

end AppLedger
