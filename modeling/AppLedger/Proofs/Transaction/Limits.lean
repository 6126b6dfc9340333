import AppLedger.Proofs.Outcome
import AppLedger.Transaction.Limits

/-! The calls within the limits: the limits of the arguments and the references stand apart from
the budget of the programs, which the extra pages of the call decide alone. -/

namespace AppLedger.AppCall

/-- Nothing but the programs of the call can exceed a limit. -/
structure ArgumentsFit (c : AppCall) : Prop where
  args : c.argList.length ≤ 16
  argsSize : c.argsSize ≤ 2048
  accounts : c.accountList.length ≤ 4
  apps : c.appList.length ≤ 8
  assets : c.assetList.length ≤ 8
  boxes : c.boxList.length ≤ 8
  references : c.referenceCount ≤ 8

theorem limit_eq_none_iff {p : Prop} [Decidable p] {limit : CallLimit}
    {others : Option CallLimit} :
    (if p then some limit else others) = none ↔ ¬p ∧ others = none := by
  by_cases hp : p <;> simp [hp]

theorem exceeded?_eq_none_iff {c : AppCall} :
    c.exceeded? = none ↔
      c.ArgumentsFit ∧ c.pages ≤ maxExtraPages ∧ c.programSize ≤ pageSize * (1 + c.pages) := by
  simp only [exceeded?, limit_eq_none_iff, Nat.not_lt, and_true]
  constructor
  · rintro ⟨hargs, hargsSize, haccounts, happs, hassets, hboxes, hreferences, hpages, hsize⟩
    have hfit : c.ArgumentsFit :=
      ⟨hargs, hargsSize, haccounts, happs, hassets, hboxes, hreferences⟩
    exact ⟨hfit, hpages, hsize⟩
  · rintro ⟨hfit, hpages, hsize⟩
    exact ⟨hfit.args, hfit.argsSize, hfit.accounts, hfit.apps, hfit.assets, hfit.boxes,
      hfit.references, hpages, hsize⟩

theorem validate_eq_ok_iff {c : AppCall} :
    c.validate = .ok () ↔
      c.ArgumentsFit ∧ c.pages ≤ maxExtraPages ∧ c.programSize ≤ pageSize * (1 + c.pages) := by
  rw [← exceeded?_eq_none_iff, validate]
  cases c.exceeded? <;> simp

/-- The budget is checked last, so that programs beyond it are named only where they are all that
is wrong. -/
theorem validate_eq_programSize {c : AppCall} (hfit : c.ArgumentsFit)
    (hpages : c.pages ≤ maxExtraPages) (hsize : pageSize * (1 + c.pages) < c.programSize) :
    c.validate =
      .error (.limit (.programSize c.programSize (pageSize * (1 + c.pages)) c.pages)) := by
  have hexceeded : c.exceeded? =
      some (.programSize c.programSize (pageSize * (1 + c.pages)) c.pages) := by
    rw [exceeded?, if_neg (Nat.not_lt.mpr hfit.args), if_neg (Nat.not_lt.mpr hfit.argsSize),
      if_neg (Nat.not_lt.mpr hfit.accounts), if_neg (Nat.not_lt.mpr hfit.apps),
      if_neg (Nat.not_lt.mpr hfit.assets), if_neg (Nat.not_lt.mpr hfit.boxes),
      if_neg (Nat.not_lt.mpr hfit.references), if_neg (Nat.not_lt.mpr hpages), if_pos hsize]
  rw [validate, hexceeded]

/-! ## Limits on sizes

Where no number is beyond its limit, what is checked is the bytes of the arguments, and after them
the pages and the bytes of the programs. -/

/-- The numbers of arguments and of references are within the limits. Box references have a limit of
their own here. -/
structure CountsFit (c : AppCall) : Prop where
  args : c.argList.length ≤ 16
  accounts : c.accountList.length ≤ 4
  apps : c.appList.length ≤ 8
  assets : c.assetList.length ≤ 8
  boxes : c.boxList.length ≤ 8
  references : c.referenceCount ≤ 8

variable {c : AppCall}

theorem CountsFit.argumentsFit_iff (h : c.CountsFit) : c.ArgumentsFit ↔ c.argsSize ≤ 2048 :=
  ⟨fun hfit => hfit.argsSize, fun hsize =>
    ⟨h.args, hsize, h.accounts, h.apps, h.assets, h.boxes, h.references⟩⟩

theorem CountsFit.exceeded? (h : c.CountsFit) :
    c.exceeded? =
      if 2048 < c.argsSize then some (.argsSize c.argsSize)
      else if maxExtraPages < c.pages then some (.extraPages c.pages)
      else if pageSize * (1 + c.pages) < c.programSize then
        some (.programSize c.programSize (pageSize * (1 + c.pages)) c.pages)
      else none := by
  rw [AppCall.exceeded?, if_neg (Nat.not_lt.mpr h.args), if_neg (Nat.not_lt.mpr h.accounts),
    if_neg (Nat.not_lt.mpr h.apps), if_neg (Nat.not_lt.mpr h.assets),
    if_neg (Nat.not_lt.mpr h.boxes), if_neg (Nat.not_lt.mpr h.references)]

/-- The limits that are left where the numbers are within theirs, with what exceeds them. -/
inductive ExceedsSize (c : AppCall) : CallLimit → Prop
  | argsSize (h : 2048 < c.argsSize) : c.ExceedsSize (.argsSize c.argsSize)
  | extraPages (h : maxExtraPages < c.pages) : c.ExceedsSize (.extraPages c.pages)
  | programSize (h : pageSize * (1 + c.pages) < c.programSize) :
    c.ExceedsSize (.programSize c.programSize (pageSize * (1 + c.pages)) c.pages)

theorem CountsFit.exceedsSize (h : c.CountsFit) {limit : CallLimit}
    (hlimit : c.exceeded? = some limit) : c.ExceedsSize limit := by
  rw [h.exceeded?] at hlimit
  split at hlimit
  · next hsize => exact Option.some.inj hlimit ▸ .argsSize hsize
  split at hlimit
  · next hpages => exact Option.some.inj hlimit ▸ .extraPages hpages
  split at hlimit
  · next hprograms => exact Option.some.inj hlimit ▸ .programSize hprograms
  · exact absurd hlimit nofun

theorem exceeded?_of_validate {why : TransactionError} (h : c.validate = .error why) :
    ∃ limit, c.exceeded? = some limit ∧ why = .limit limit := by
  rw [validate] at h
  cases hlimit : c.exceeded? with
  | none => simp [hlimit] at h
  | some limit =>
    rw [hlimit] at h
    exact ⟨limit, rfl, (Except.error.inj h).symm⟩

end AppLedger.AppCall
