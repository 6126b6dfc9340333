import AppLedger.Client.Argument
import Mathlib.Data.List.Nodup

/-! References are appended to those that are there, each of them once, so that an index keeps
naming its resource. -/

namespace AppLedger

/-- The new list has further items after the old ones, each once and each admitted. -/
def Appends {α : Type} (admitted : α → Prop) (old new : List α) : Prop :=
  ∃ added, new = old ++ added ∧ added.Nodup ∧ ∀ a ∈ added, a ∉ old ∧ admitted a

namespace Appends

variable {α : Type} {admitted : α → Prop} {as bs cs : List α}

theorem refl (as : List α) : Appends admitted as as :=
  ⟨[], by rw [List.append_nil], .nil, nofun⟩

theorem trans (h : Appends admitted as bs) (h' : Appends admitted bs cs) :
    Appends admitted as cs := by
  obtain ⟨first, rfl, hfirst, hadmitted⟩ := h
  obtain ⟨second, rfl, hsecond, hadmitted'⟩ := h'
  refine ⟨first ++ second, by rw [List.append_assoc], ?_, ?_⟩
  · rw [List.nodup_append']
    refine ⟨hfirst, hsecond, fun a ha ha' => ?_⟩
    exact (hadmitted' a ha').1 (List.mem_append_right as ha)
  · intro a ha
    rcases List.mem_append.mp ha with ha | ha
    · exact hadmitted a ha
    · exact ⟨fun hmem => (hadmitted' a ha).1 (List.mem_append_left first hmem), (hadmitted' a ha).2⟩

theorem getElem?_eq_some (h : Appends admitted as bs) {i : Nat} {a : α} (hi : as[i]? = some a) :
    bs[i]? = some a := by
  obtain ⟨added, rfl, -⟩ := h
  rw [List.getElem?_append_left (List.getElem?_eq_some_iff.mp hi).1, hi]

end Appends

namespace References

variable {α : Type} [DecidableEq α]

theorem appends_place {admitted : α → Prop} (items : List α) (item : α) (h : admitted item) :
    Appends admitted items (place items item).1 := by
  unfold place
  split
  · exact .refl items
  · next hnone =>
    have hnot : item ∉ items := by
      rw [List.findIdx?_eq_none_iff] at hnone
      intro hmem
      simpa using hnone item hmem
    refine ⟨[item], rfl, List.nodup_singleton item, ?_⟩
    intro a ha
    obtain rfl := List.mem_singleton.mp ha
    exact ⟨hnot, h⟩

theorem getElem?_place (items : List α) (item : α) :
    (place items item).1[(place items item).2]? = some item := by
  unfold place
  split
  · next i hi =>
    obtain ⟨hlt, hitem, -⟩ := List.findIdx?_eq_some_iff_getElem.mp hi
    rw [List.getElem?_eq_getElem hlt]
    simpa using hitem
  · exact List.getElem?_concat_length

/-- References with others after them. The sender and the called application are never among the
others, since index 0 names them. -/
structure Grows (sender : Address) (app : UInt64) (old new : References) : Prop where
  accounts : Appends (· ≠ sender) old.accounts new.accounts
  apps : Appends (fun id => ¬(id = app ∧ app ≠ 0)) old.apps new.apps
  assets : Appends (fun _ => True) old.assets new.assets
  boxes : new.boxes = old.boxes

variable {sender : Address} {app : UInt64} {refs refs' refs'' : References}

theorem Grows.refl (refs : References) : refs.Grows sender app refs :=
  ⟨.refl _, .refl _, .refl _, rfl⟩

theorem Grows.trans (h : refs.Grows sender app refs') (h' : refs'.Grows sender app refs'') :
    refs.Grows sender app refs'' :=
  ⟨h.accounts.trans h'.accounts, h.apps.trans h'.apps, h.assets.trans h'.assets,
    h'.boxes.trans h.boxes⟩

/-- The account that an index names. -/
def accountAt? (refs : References) (sender : Address) : Nat → Option Address
  | 0 => some sender
  | i + 1 => refs.accounts[i]?

/-- The application that an index names. -/
def appAt? (refs : References) (app : UInt64) : Nat → Option UInt64
  | 0 => some app
  | i + 1 => refs.apps[i]?

theorem Grows.accountAt? (h : refs.Grows sender app refs') {i : Nat} {account : Address}
    (hi : refs.accountAt? sender i = some account) : refs'.accountAt? sender i = some account := by
  cases i with
  | zero => exact hi
  | succ i => exact h.accounts.getElem?_eq_some hi

theorem Grows.appAt? (h : refs.Grows sender app refs') {i : Nat} {id : UInt64}
    (hi : refs.appAt? app i = some id) : refs'.appAt? app i = some id := by
  cases i with
  | zero => exact hi
  | succ i => exact h.apps.getElem?_eq_some hi

theorem grows_placeAccount (refs : References) (sender account : Address) (app : UInt64) :
    refs.Grows sender app (refs.placeAccount sender account).1 := by
  rw [placeAccount]
  by_cases hsender : account = sender
  · rw [if_pos hsender]
    exact .refl refs
  · rw [if_neg hsender]
    exact ⟨appends_place refs.accounts account hsender, .refl _, .refl _, rfl⟩

theorem accountAt?_placeAccount (refs : References) (sender account : Address) :
    (refs.placeAccount sender account).1.accountAt? sender (refs.placeAccount sender account).2 =
      some account := by
  rw [placeAccount]
  by_cases hsender : account = sender
  · rw [if_pos hsender, hsender]
    rfl
  · rw [if_neg hsender]
    exact getElem?_place refs.accounts account

theorem grows_placeApp (refs : References) (sender : Address) (app id : UInt64) :
    refs.Grows sender app (refs.placeApp app id).1 := by
  rw [placeApp]
  by_cases hcurrent : id = app ∧ app ≠ 0
  · rw [if_pos hcurrent]
    exact .refl refs
  · rw [if_neg hcurrent]
    exact ⟨.refl _, appends_place refs.apps id hcurrent, .refl _, rfl⟩

theorem appAt?_placeApp (refs : References) (app id : UInt64) :
    (refs.placeApp app id).1.appAt? app (refs.placeApp app id).2 = some id := by
  rw [placeApp]
  by_cases hcurrent : id = app ∧ app ≠ 0
  · rw [if_pos hcurrent, hcurrent.1]
    rfl
  · rw [if_neg hcurrent]
    exact getElem?_place refs.apps id

theorem grows_placeAsset (refs : References) (sender : Address) (app asset : UInt64) :
    refs.Grows sender app (refs.placeAsset asset).1 :=
  ⟨.refl _, .refl _, appends_place refs.assets asset trivial, rfl⟩

theorem getElem?_placeAsset (refs : References) (asset : UInt64) :
    (refs.placeAsset asset).1.assets[(refs.placeAsset asset).2]? = some asset :=
  getElem?_place refs.assets asset

theorem excess?_eq_none_iff {refs : References} :
    refs.excess? = none ↔ refs.accounts.length ≤ 4 ∧ refs.apps.length ≤ 8 ∧
      refs.assets.length ≤ 8 ∧ refs.count ≤ 8 := by
  rw [excess?]
  split_ifs <;> simp only [false_iff, true_iff] <;> omega

/-- Lists within the limits of a call. -/
theorem length_le_of_excess? (h : refs.excess? = none) :
    refs.accounts.length ≤ 4 ∧ refs.apps.length ≤ 8 ∧ refs.assets.length ≤ 8 := by
  obtain ⟨haccounts, happs, hassets, -⟩ := excess?_eq_none_iff.mp h
  exact ⟨haccounts, happs, hassets⟩

end References

end AppLedger
