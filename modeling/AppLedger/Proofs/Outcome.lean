import Mathlib.Data.List.Forall2

/-! When a computation that may fail succeeds, and when two of them end in the same way. -/

namespace AppLedger

variable {ε δ α β γ : Type}

theorem throw_ne_ok {why : ε} {a : α} : (throw why : Except ε α) ≠ .ok a := nofun

theorem throw_bind_ne_ok {why : ε} {f : α → Except ε β} {b : β} : throw why >>= f ≠ .ok b := nofun

theorem bind_eq_ok {x : Except ε α} {f : α → Except ε β} {b : β} :
    x >>= f = .ok b ↔ ∃ a, x = .ok a ∧ f a = .ok b := by
  cases x <;> simp [bind, Except.bind]

theorem bind_eq_error {x : Except ε α} {f : α → Except ε β} {why : ε} :
    x >>= f = .error why ↔ x = .error why ∨ ∃ a, x = .ok a ∧ f a = .error why := by
  cases x <;> simp [bind, Except.bind]

theorem map_eq_ok {x : Except ε α} {f : α → β} {b : β} :
    x.map f = .ok b ↔ ∃ a, x = .ok a ∧ f a = b := by
  cases x <;> simp [Except.map]

theorem mapError_eq_ok {x : Except ε α} {f : ε → δ} {a : α} :
    x.mapError f = .ok a ↔ x = .ok a := by
  cases x <;> simp [Except.mapError]

theorem mapError_eq_error {x : Except ε α} {f : ε → δ} {why : δ} :
    x.mapError f = .error why ↔ ∃ why', x = .error why' ∧ f why' = why := by
  cases x <;> simp [Except.mapError]

theorem discard_eq_ok {x : Except ε α} : discard x = .ok () ↔ ∃ a, x = .ok a := by
  cases x <;> simp [discard, Functor.discard, Functor.mapConst, Except.map]

/-! ## Lists -/

theorem exists_getElem?_right {R : α → β → Prop} {as : List α} {bs : List β} {i : Nat} {a : α}
    (h : List.Forall₂ R as bs) (hi : as[i]? = some a) : ∃ b, bs[i]? = some b ∧ R a b := by
  induction h generalizing i with
  | nil => cases hi
  | cons hb _ ih =>
    cases i with
    | zero =>
      obtain rfl := Option.some.inj hi
      exact ⟨_, rfl, hb⟩
    | succ i => exact ih hi

theorem exists_of_mem_right {R : α → β → Prop} {as : List α} {bs : List β}
    (h : List.Forall₂ R as bs) : ∀ b ∈ bs, ∃ a ∈ as, R a b := by
  induction h with
  | nil => simp
  | cons hb _ ih =>
    rw [List.forall_mem_cons]
    refine ⟨⟨_, List.mem_cons_self, hb⟩, fun b hmem => ?_⟩
    obtain ⟨a, ha, hb⟩ := ih b hmem
    exact ⟨a, List.mem_cons_of_mem _ ha, hb⟩

theorem exists_of_mem_left {R : α → β → Prop} {as : List α} {bs : List β}
    (h : List.Forall₂ R as bs) : ∀ a ∈ as, ∃ b ∈ bs, R a b :=
  exists_of_mem_right h.flip

theorem forall₂_of_mapM_some {f : α → Option β} {as : List α} {bs : List β}
    (h : as.mapM f = some bs) : List.Forall₂ (fun a b => f a = some b) as bs := by
  induction as generalizing bs with
  | nil =>
    obtain rfl := Option.some.inj h
    exact .nil
  | cons a as ih =>
    rw [List.mapM_cons] at h
    obtain ⟨b, hb, h⟩ := Option.bind_eq_some_iff.mp h
    obtain ⟨bs, hbs, h⟩ := Option.bind_eq_some_iff.mp h
    obtain rfl := Option.some.inj h
    exact .cons hb (ih hbs)

theorem mapM_eq_ok {f : α → Except ε β} {as : List α} {bs : List β} :
    as.mapM f = .ok bs ↔ List.Forall₂ (fun a b => f a = .ok b) as bs := by
  induction as generalizing bs with
  | nil => cases bs <;> simp [pure, Except.pure]
  | cons a as ih =>
    rw [List.mapM_cons, bind_eq_ok]
    constructor
    · rintro ⟨b, hb, h⟩
      obtain ⟨rest, hrest, h⟩ := bind_eq_ok.mp h
      obtain rfl := Except.ok.inj h
      exact .cons hb (ih.mp hrest)
    · intro h
      cases h with
      | cons hb hrest => exact ⟨_, hb, bind_eq_ok.mpr ⟨_, ih.mpr hrest, rfl⟩⟩

theorem mapM_eq_ok_map {f : α → Except ε β} {g : α → β} {as : List α}
    (h : ∀ a ∈ as, f a = .ok (g a)) : as.mapM f = .ok (as.map g) := by
  rw [mapM_eq_ok, List.forall₂_map_right_iff, List.forall₂_same]
  exact h

theorem mapM_map_congr {f : β → Except ε γ} {g : α → Except ε γ} {h : α → β} {as : List α}
    (heq : ∀ a ∈ as, f (h a) = g a) : (as.map h).mapM f = as.mapM g := by
  induction as with
  | nil => rfl
  | cons a as ih =>
    rw [List.forall_mem_cons] at heq
    rw [List.map_cons, List.mapM_cons, List.mapM_cons, heq.1, ih heq.2]

theorem exists_mem_of_mapM {f : α → Except ε β} {as : List α} {bs : List β}
    (h : as.mapM f = .ok bs) : ∀ a ∈ as, ∃ b ∈ bs, f a = .ok b :=
  exists_of_mem_left (mapM_eq_ok.mp h)

theorem exists_of_mapM {f : α → Except ε β} {as : List α} {bs : List β}
    (h : as.mapM f = .ok bs) : ∀ a ∈ as, ∃ b, f a = .ok b := by
  intro a ha
  obtain ⟨b, -, hb⟩ := exists_mem_of_mapM h a ha
  exact ⟨b, hb⟩

theorem exists_of_mem_mapM {f : α → Except ε β} {as : List α} {bs : List β}
    (h : as.mapM f = .ok bs) : ∀ b ∈ bs, ∃ a ∈ as, f a = .ok b :=
  exists_of_mem_right (mapM_eq_ok.mp h)

theorem exists_mapM {f : α → Except ε β} {as : List α} (h : ∀ a ∈ as, ∃ b, f a = .ok b) :
    ∃ bs, as.mapM f = .ok bs := by
  induction as with
  | nil => exact ⟨[], rfl⟩
  | cons a as ih =>
    rw [List.forall_mem_cons] at h
    obtain ⟨b, hb⟩ := h.1
    obtain ⟨bs, hbs⟩ := ih h.2
    exact ⟨b :: bs, mapM_eq_ok.mpr (.cons hb (mapM_eq_ok.mp hbs))⟩

theorem exists_of_mapM_error {f : α → Except ε β} {as : List α} {why : ε}
    (h : as.mapM f = .error why) : ∃ a ∈ as, f a = .error why := by
  induction as with
  | nil => exact absurd h nofun
  | cons a as ih =>
    rw [List.mapM_cons] at h
    cases ha : f a with
    | error why' =>
      rw [ha] at h
      obtain rfl := Except.error.inj h
      exact ⟨a, List.mem_cons_self, ha⟩
    | ok b =>
      cases hrest : as.mapM f with
      | error why' =>
        rw [ha, hrest] at h
        obtain rfl := Except.error.inj h
        obtain ⟨a', hmem, ha'⟩ := ih hrest
        exact ⟨a', List.mem_cons_of_mem _ hmem, ha'⟩
      | ok bs =>
        rw [ha, hrest] at h
        exact absurd h nofun

theorem mapM_set_ok {f : α → Except ε β} {as : List α} {bs : List β} {a : α} {b : β} {i : Nat}
    (h : as.mapM f = .ok bs) (ha : f a = .ok b) : (as.set i a).mapM f = .ok (bs.set i b) := by
  rw [mapM_eq_ok] at *
  induction h generalizing i with
  | nil => exact .nil
  | cons hb hrest ih =>
    cases i with
    | zero => exact .cons ha hrest
    | succ i => exact .cons hb ih

theorem mapM_set_error {f : α → Except ε β} {as : List α} {bs : List β} {a : α} {why : ε} {i : Nat}
    (h : as.mapM f = .ok bs) (hi : i < as.length) (ha : f a = .error why) :
    (as.set i a).mapM f = .error why := by
  rw [mapM_eq_ok] at h
  induction h generalizing i with
  | nil => cases hi
  | cons hb _ ih =>
    cases i with
    | zero =>
      rw [List.set_cons_zero, List.mapM_cons, ha]
      rfl
    | succ i =>
      rw [List.set_cons_succ, List.mapM_cons, hb, ih (Nat.lt_of_succ_lt_succ hi)]
      rfl

theorem forM_eq_ok {f : α → Except ε Unit} {as : List α} :
    as.forM f = .ok () ↔ ∀ a ∈ as, f a = .ok () := by
  induction as with
  | nil => simp [pure, Except.pure]
  | cons a as ih =>
    rw [List.forM, bind_eq_ok, List.forall_mem_cons, ← ih]
    exact ⟨fun ⟨_, ha, has⟩ => ⟨ha, has⟩, fun ⟨ha, has⟩ => ⟨_, ha, has⟩⟩

/-! ## Errors of a kind -/

/-- No error of the kind ends the computation. -/
def Spares (kind : ε → Prop) (x : Except ε α) : Prop :=
  ∀ why, x = .error why → ¬ kind why

section Spares

variable {kind : ε → Prop} {x : Except ε α}

theorem spares_ok {a : α} : Spares kind (.ok a : Except ε α) := nofun

theorem spares_error {why : ε} (h : ¬ kind why) : Spares kind (.error why : Except ε α) := by
  rintro _ ⟨⟩
  exact h

theorem spares_throw_bind {why : ε} {f : α → Except ε β} (h : ¬ kind why) :
    Spares kind (throw why >>= f) :=
  spares_error h

theorem Spares.bind {f : α → Except ε β} (hx : Spares kind x) (hf : ∀ a, Spares kind (f a)) :
    Spares kind (x >>= f) := by
  intro why h
  rcases bind_eq_error.mp h with h | ⟨a, -, h⟩
  · exact hx why h
  · exact hf a why h

theorem Spares.mapError {kind' : δ → Prop} {f : ε → δ} (hx : Spares kind x)
    (hf : ∀ why, kind' (f why) → kind why) : Spares kind' (x.mapError f) := by
  intro why h
  obtain ⟨why', hwhy, rfl⟩ := mapError_eq_error.mp h
  exact fun hkind => hx why' hwhy (hf why' hkind)

theorem spares_mapError {kind' : δ → Prop} {f : ε → δ} (hf : ∀ why, ¬ kind' (f why)) :
    Spares kind' (x.mapError f) := by
  intro why h
  obtain ⟨why', -, rfl⟩ := mapError_eq_error.mp h
  exact hf why'

theorem Spares.mapM {f : α → Except ε β} (hf : ∀ a, Spares kind (f a)) (as : List α) :
    Spares kind (as.mapM f) := by
  intro why h
  obtain ⟨a, -, ha⟩ := exists_of_mapM_error h
  exact hf a why ha

end Spares

/-! ## Two computations -/

/-- Both fail for one reason, or both succeed with results that are related. -/
inductive Alike (R : α → β → Prop) : Except ε α → Except ε β → Prop
  | ok {a : α} {b : β} (h : R a b) : Alike R (.ok a) (.ok b)
  | error (why : ε) : Alike R (.error why) (.error why)

namespace Alike

variable {ζ : Type} {R : α → β → Prop} {S : γ → δ → Prop}

theorem bind {x : Except ε α} {y : Except ε β} {f : α → Except ε γ} {g : β → Except ε δ}
    (h : Alike R x y) (hfg : ∀ a b, R a b → Alike S (f a) (g b)) :
    Alike S (x >>= f) (y >>= g) := by
  cases h with
  | ok hab => exact hfg _ _ hab
  | error why => exact .error why

theorem bind_same (x : Except ε α) {f : α → Except ε γ} {g : α → Except ε δ}
    (hfg : ∀ a, Alike S (f a) (g a)) : Alike S (x >>= f) (x >>= g) := by
  cases x with
  | ok a => exact hfg a
  | error why => exact .error why

theorem ite {c : Prop} [Decidable c] {x x' : Except ε α} {y y' : Except ε β}
    (h : c → Alike R x y) (h' : ¬ c → Alike R x' y') :
    Alike R (if c then x else x') (if c then y else y') := by
  by_cases hc : c
  · rw [if_pos hc, if_pos hc]
    exact h hc
  · rw [if_neg hc, if_neg hc]
    exact h' hc

theorem mapError {x : Except ε α} {y : Except ε β} (f : ε → ζ) (h : Alike R x y) :
    Alike R (x.mapError f) (y.mapError f) := by
  cases h with
  | ok hab => exact .ok hab
  | error why => exact .error (f why)

end Alike

end AppLedger
