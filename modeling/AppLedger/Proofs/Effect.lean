import AppLedger.Effect
import AppLedger.Proofs.Outcome

/-! What a computation on a world yields, and what the parts of one that yields something have
yielded before it. Where it fails, one of its parts has failed; what every part keeps of the world,
the whole keeps. -/

namespace AppLedger.Effect

variable {ε δ σ τ α β : Type}

/-- What the computation ends with from a world, and the world that it leaves. -/
def outcome (x : Effect ε σ α) (s : σ) : Except ε α × σ :=
  (x.run.run s).run

theorem eq_of_outcome {x y : Effect ε σ α} (h : ∀ s, x.outcome s = y.outcome s) : x = y :=
  funext h

/-- From the world `s` the computation ends with `a`, and it leaves `t`. -/
def Yields (x : Effect ε σ α) (s : σ) (a : α) (t : σ) : Prop :=
  x.outcome s = (.ok a, t)

theorem Yields.unique {x : Effect ε σ α} {s t u : σ} {a b : α} (ha : Yields x s a t)
    (hb : Yields x s b u) : a = b ∧ t = u := by
  have h := ha.symm.trans hb
  rw [Prod.mk.injEq, Except.ok.injEq] at h
  exact h

theorem outcome_bind {x : Effect ε σ α} {f : α → Effect ε σ β} {s : σ} :
    outcome (x >>= f) s =
      match x.outcome s with
      | (.ok a, t) => (f a).outcome t
      | (.error why, t) => (.error why, t) := by
  change (ExceptT.bindCont f (x.outcome s).1).run (x.outcome s).2 = _
  rcases x.outcome s with ⟨_ | _, _⟩ <;> rfl

theorem outcome_get {s : σ} : outcome (get : Effect ε σ σ) s = (.ok s, s) := rfl

theorem outcome_throw {s : σ} {why : ε} :
    outcome (throw why : Effect ε σ α) s = (.error why, s) := rfl

theorem outcome_pure {s : σ} {a : α} : outcome (pure a : Effect ε σ α) s = (.ok a, s) := rfl

theorem outcome_ofExcept {r : Except ε α} {s : σ} : outcome (ofExcept r) s = (r, s) := rfl

theorem outcome_mapError {x : Effect ε σ α} {f : ε → δ} {s : σ} :
    outcome (mapError f x) s = ((x.outcome s).1.mapError f, (x.outcome s).2) := rfl

theorem outcome_observe {x : Effect ε σ α} {s : σ} :
    outcome (observe x : Effect δ σ _) s = (.ok (x.outcome s).1, (x.outcome s).2) := rfl

theorem outcome_onPart {get : τ → σ} {set : σ → τ → τ} {x : Effect ε σ α} {s : τ} :
    outcome (onPart get set x) s =
      ((x.outcome (get s)).1, set (x.outcome (get s)).2 s) := rfl

theorem outcome_onSnd {x : Effect ε τ α} {a : σ} {s : τ} :
    outcome (onSnd x) (a, s) = ((x.outcome s).1, a, (x.outcome s).2) := rfl

theorem yields_ofExcept {x : Except ε α} {s t : σ} {a : α} :
    Yields (ofExcept x) s a t ↔ x = .ok a ∧ s = t := by
  rw [Yields, outcome_ofExcept, Prod.mk.injEq]

theorem yields_bind {x : Effect ε σ α} {f : α → Effect ε σ β} {s t : σ} {b : β} :
    Yields (x >>= f) s b t ↔ ∃ a u, Yields x s a u ∧ Yields (f a) u b t := by
  simp only [Yields, outcome_bind]
  rcases x.outcome s with ⟨why | a, u⟩
  · simp
  · constructor
    · intro h
      exact ⟨a, u, rfl, h⟩
    · rintro ⟨a', u', heq, h⟩
      obtain ⟨ha, rfl⟩ := Prod.mk.inj heq
      obtain rfl := Except.ok.inj ha
      exact h

theorem yields_ofExcept_bind {r : Except ε α} {f : α → Effect ε σ β} {s t : σ} {b : β} :
    Yields (ofExcept r >>= f) s b t ↔ ∃ a, r = .ok a ∧ Yields (f a) s b t := by
  rw [yields_bind]
  constructor
  · rintro ⟨a, u, hyields, h⟩
    obtain ⟨hr, rfl⟩ := yields_ofExcept.mp hyields
    exact ⟨a, hr, h⟩
  · rintro ⟨a, hr, h⟩
    exact ⟨a, s, yields_ofExcept.mpr ⟨hr, rfl⟩, h⟩

theorem yields_pure {s t : σ} {a b : α} :
    Yields (pure a : Effect ε σ α) s b t ↔ a = b ∧ s = t := by
  rw [Yields, outcome_pure, Prod.mk.injEq, Except.ok.injEq]

theorem yields_observe {x : Effect ε σ α} {s t : σ} {r : Except ε α} :
    Yields (observe x : Effect δ σ (Except ε α)) s r t ↔ x.outcome s = (r, t) := by
  rw [Yields, outcome_observe, Prod.mk.injEq, Except.ok.injEq, ← Prod.mk.injEq]

theorem yields_onPart {get : τ → σ} {set : σ → τ → τ} {x : Effect ε σ α} {s t : τ} {a : α} :
    Yields (onPart get set x) s a t ↔ ∃ u, Yields x (get s) a u ∧ set u s = t := by
  rw [Yields, outcome_onPart]
  rcases hx : x.outcome (get s) with ⟨r, u⟩
  simp [Yields, hx, and_assoc]

theorem yields_onSnd {x : Effect ε τ α} {s t : σ × τ} {a : α} :
    Yields (onSnd x) s a t ↔ Yields x s.2 a t.2 ∧ t.1 = s.1 := by
  rw [onSnd, yields_onPart]
  constructor
  · rintro ⟨u, h, rfl⟩
    exact ⟨h, rfl⟩
  · rintro ⟨h, heq⟩
    exact ⟨t.2, h, Prod.ext heq.symm rfl⟩

/-! ## Failures -/

/-- From the world `s` the computation ends with the error, and it leaves `t`. -/
def Fails (x : Effect ε σ α) (s : σ) (why : ε) (t : σ) : Prop :=
  x.outcome s = (.error why, t)

theorem fails_bind {x : Effect ε σ α} {f : α → Effect ε σ β} {s t : σ} {why : ε} :
    Fails (x >>= f) s why t ↔
      Fails x s why t ∨ ∃ a u, Yields x s a u ∧ Fails (f a) u why t := by
  simp only [Fails, Yields, outcome_bind]
  rcases x.outcome s with ⟨_ | a, u⟩
  · simp
  · constructor
    · intro h
      exact .inr ⟨a, u, rfl, h⟩
    · rintro (h | ⟨a', u', heq, h⟩)
      · simp at h
      · obtain ⟨ha, rfl⟩ := Prod.mk.inj heq
        obtain rfl := Except.ok.inj ha
        exact h

theorem Yields.fails_bind_iff {x : Effect ε σ α} {f : α → Effect ε σ β} {s t u : σ} {a : α}
    {why : ε} (hx : Yields x s a t) : Fails (x >>= f) s why u ↔ Fails (f a) t why u := by
  rw [Fails, outcome_bind, hx]
  rfl

theorem fails_ofExcept {x : Except ε α} {s t : σ} {why : ε} :
    Fails (ofExcept x) s why t ↔ x = .error why ∧ s = t := by
  rw [Fails, outcome_ofExcept, Prod.mk.injEq]

theorem fails_ofExcept_bind {r : Except ε α} {f : α → Effect ε σ β} {s t : σ} {why : ε} :
    Fails (ofExcept r >>= f) s why t ↔
      r = .error why ∧ s = t ∨ ∃ a, r = .ok a ∧ Fails (f a) s why t := by
  rw [fails_bind, fails_ofExcept]
  refine or_congr_right ⟨?_, ?_⟩
  · rintro ⟨a, u, hyields, h⟩
    obtain ⟨hr, rfl⟩ := yields_ofExcept.mp hyields
    exact ⟨a, hr, h⟩
  · rintro ⟨a, hr, h⟩
    exact ⟨a, s, yields_ofExcept.mpr ⟨hr, rfl⟩, h⟩

theorem fails_throw {s t : σ} {why why' : ε} :
    Fails (throw why : Effect ε σ α) s why' t ↔ why = why' ∧ s = t := by
  rw [Fails, outcome_throw, Prod.mk.injEq, Except.error.injEq]

theorem not_yields_throw {s t : σ} {why : ε} {a : α} :
    ¬ Yields (throw why : Effect ε σ α) s a t := nofun

theorem not_fails_pure {s t : σ} {why : ε} {a : α} :
    ¬ Fails (pure a : Effect ε σ α) s why t := nofun

theorem fails_onPart {get : τ → σ} {set : σ → τ → τ} {x : Effect ε σ α} {s t : τ} {why : ε} :
    Fails (onPart get set x) s why t ↔ ∃ u, Fails x (get s) why u ∧ set u s = t := by
  rw [Fails, outcome_onPart]
  rcases hx : x.outcome (get s) with ⟨r, u⟩
  simp [Fails, hx, and_assoc]

theorem fails_onFst {x : Effect ε σ α} {s t : σ × τ} {why : ε} :
    Fails (onFst x) s why t ↔ Fails x s.1 why t.1 ∧ t.2 = s.2 := by
  rw [onFst, fails_onPart]
  constructor
  · rintro ⟨u, h, rfl⟩
    exact ⟨h, rfl⟩
  · rintro ⟨h, heq⟩
    exact ⟨t.1, h, Prod.ext rfl heq.symm⟩

theorem fails_onSnd {x : Effect ε τ α} {s t : σ × τ} {why : ε} :
    Fails (onSnd x) s why t ↔ Fails x s.2 why t.2 ∧ t.1 = s.1 := by
  rw [onSnd, fails_onPart]
  constructor
  · rintro ⟨u, h, rfl⟩
    exact ⟨h, rfl⟩
  · rintro ⟨h, heq⟩
    exact ⟨t.2, h, Prod.ext heq.symm rfl⟩

theorem fails_throw_bind {f : α → Effect ε σ β} {s t : σ} {why why' : ε} :
    Fails (throw why >>= f) s why' t ↔ why = why' ∧ s = t := by
  rw [fails_bind, fails_throw]
  refine or_iff_left ?_
  rintro ⟨a, u, h, -⟩
  exact not_yields_throw h

theorem not_yields_throw_bind {f : α → Effect ε σ β} {s t : σ} {why : ε} {b : β} :
    ¬ Yields (throw why >>= f) s b t := by
  rw [yields_bind]
  rintro ⟨a, u, h, -⟩
  exact not_yields_throw h

/-- No error of the kind ends the computation. -/
def Avoids (kind : ε → Prop) (x : Effect ε σ α) : Prop :=
  ∀ s why t, Fails x s why t → ¬ kind why

section Avoids

variable {kind : ε → Prop} {x : Effect ε σ α}

theorem Avoids.mono {kind' : ε → Prop} (hx : Avoids kind x) (h : ∀ why, kind' why → kind why) :
    Avoids kind' x :=
  fun s why t hfails hkind => hx s why t hfails (h why hkind)

theorem avoids_pure {a : α} : Avoids kind (pure a : Effect ε σ α) :=
  fun _ _ _ h => absurd h not_fails_pure

theorem avoids_get {kind : ε → Prop} : Avoids kind (get : Effect ε σ σ) := nofun

theorem avoids_throw {why : ε} (h : ¬ kind why) : Avoids kind (throw why : Effect ε σ α) := by
  intro s why' t hfails
  obtain ⟨rfl, -⟩ := fails_throw.mp hfails
  exact h

theorem avoids_ofExcept {r : Except ε α} (h : Spares kind r) :
    Avoids kind (ofExcept r : Effect ε σ α) :=
  fun _ why _ hfails => h why (fails_ofExcept.mp hfails).1

theorem avoids_throw_bind {why : ε} {f : α → Effect ε σ β} (h : ¬ kind why) :
    Avoids kind (throw why >>= f) :=
  fun _ _ _ hfails => (fails_throw_bind.mp hfails).1 ▸ h

theorem avoids_mapError {f : δ → ε} {y : Effect δ σ α} (h : ∀ why, ¬ kind (f why)) :
    Avoids kind (mapError f y) := by
  intro s why t hfails
  rw [Fails, outcome_mapError] at hfails
  obtain ⟨hwhy, -⟩ := Prod.mk.inj hfails
  cases hy : (y.outcome s).1 with
  | error why' =>
    rw [hy] at hwhy
    exact Except.error.inj hwhy ▸ h why'
  | ok a => simp [hy, Except.mapError] at hwhy

theorem avoids_observe {y : Effect δ σ α} : Avoids kind (observe y : Effect ε σ _) := nofun

theorem Avoids.bind {f : α → Effect ε σ β} (hx : Avoids kind x) (hf : ∀ a, Avoids kind (f a)) :
    Avoids kind (x >>= f) := by
  intro s why t hfails
  rcases fails_bind.mp hfails with hfails | ⟨a, u, -, hfails⟩
  · exact hx s why t hfails
  · exact hf a u why t hfails

theorem Avoids.onSnd (hx : Avoids kind x) : Avoids kind (x.onSnd : Effect ε (τ × σ) α) :=
  fun _ why _ hfails => hx _ why _ (fails_onSnd.mp hfails).1

theorem Avoids.mapM {f : α → Effect ε σ β} (hf : ∀ a, Avoids kind (f a)) (as : List α) :
    Avoids kind (as.mapM f) := by
  induction as with
  | nil => exact avoids_pure
  | cons a as ih =>
    rw [List.mapM_cons]
    exact (hf a).bind fun _ => ih.bind fun _ => avoids_pure

end Avoids

/-! ## What stays of the world -/

/-- However the computation ends, it leaves a part of the world as it was. -/
def Keeps (part : σ → τ) (x : Effect ε σ α) : Prop :=
  ∀ s, part (x.outcome s).2 = part s

section Keeps

variable {part : σ → τ} {x : Effect ε σ α} {s t : σ}

theorem Keeps.of_yields (hx : Keeps part x) {a : α} (h : Yields x s a t) : part t = part s := by
  rw [← hx s, h]

theorem Keeps.of_fails (hx : Keeps part x) {why : ε} (h : Fails x s why t) : part t = part s := by
  rw [← hx s, h]

theorem keeps_pure {a : α} : Keeps part (pure a : Effect ε σ α) := fun _ => rfl

theorem keeps_throw {why : ε} : Keeps part (throw why : Effect ε σ α) := fun _ => rfl

theorem keeps_throw_bind {why : ε} {f : α → Effect ε σ β} : Keeps part (throw why >>= f) :=
  fun _ => rfl

theorem keeps_get {part : σ → τ} : Keeps part (get : Effect ε σ σ) := fun _ => rfl

theorem keeps_ofExcept {r : Except ε α} : Keeps part (ofExcept r : Effect ε σ α) := fun _ => rfl

theorem keeps_onFst {x : Effect ε σ α} :
    Keeps Prod.snd (x.onFst : Effect ε (σ × τ) α) := fun _ => rfl

theorem Keeps.observe (hx : Keeps part x) : Keeps part (observe x : Effect δ σ _) := hx

theorem Keeps.mapError {f : ε → δ} (hx : Keeps part x) : Keeps part (mapError f x) := hx

theorem Keeps.bind {f : α → Effect ε σ β} (hx : Keeps part x) (hf : ∀ a, Keeps part (f a)) :
    Keeps part (x >>= f) := by
  intro s
  have hpart := hx s
  rw [outcome_bind]
  rcases hrun : x.outcome s with ⟨why | a, u⟩
  all_goals rw [hrun] at hpart
  · exact hpart
  · exact (hf a u).trans hpart

theorem Keeps.mapM {f : α → Effect ε σ β} (hf : ∀ a, Keeps part (f a)) (as : List α) :
    Keeps part (as.mapM f) := by
  induction as with
  | nil => exact keeps_pure
  | cons a as ih =>
    rw [List.mapM_cons]
    exact (hf a).bind fun _ => ih.bind fun _ => keeps_pure

end Keeps

/-- No error of the kind ends the computation, and if it yields something, a part of the world is
as it was. -/
structure Quiet (kind : ε → Prop) (part : σ → τ) (x : Effect ε σ α) : Prop where
  avoids : Avoids kind x
  keeps : ∀ s a t, Yields x s a t → part t = part s

section Quiet

variable {kind : ε → Prop} {part : σ → τ} {x : Effect ε σ α}

theorem Keeps.quiet (hx : Keeps part x) (h : Avoids kind x) : Quiet kind part x :=
  ⟨h, fun _ _ _ => hx.of_yields⟩

theorem Quiet.bind {f : α → Effect ε σ β} (hx : Quiet kind part x)
    (hf : ∀ a, Quiet kind part (f a)) : Quiet kind part (x >>= f) where
  avoids := hx.avoids.bind fun a => (hf a).avoids
  keeps s b t h := by
    obtain ⟨a, u, hyields, hrest⟩ := yields_bind.mp h
    exact ((hf a).keeps u b t hrest).trans (hx.keeps s a u hyields)

end Quiet

/-! ## Without the world -/

/-- The world has no part in the computation, which ends with an error that is not of the kind, or
with what `P` holds of. -/
def Detached (kind : ε → Prop) (P : α → Prop) (x : Effect ε σ α) : Prop :=
  ∃ r, x = ofExcept r ∧ Spares kind r ∧ ∀ a, r = .ok a → P a

section Detached

variable {kind : ε → Prop} {P : α → Prop} {x : Effect ε σ α}

theorem detached_ofExcept {r : Except ε α} (hr : Spares kind r) (hP : ∀ a, r = .ok a → P a) :
    Detached kind P (ofExcept r : Effect ε σ α) :=
  ⟨r, rfl, hr, hP⟩

theorem detached_pure {a : α} (h : P a) : Detached kind P (pure a : Effect ε σ α) :=
  ⟨.ok a, rfl, spares_ok, fun _ hb => Except.ok.inj hb ▸ h⟩

theorem detached_throw {why : ε} (h : ¬ kind why) : Detached kind P (throw why : Effect ε σ α) :=
  ⟨.error why, rfl, spares_error h, nofun⟩

theorem detached_throw_bind {why : ε} {f : β → Effect ε σ α} (h : ¬ kind why) :
    Detached kind P (throw why >>= f) :=
  ⟨.error why, rfl, spares_error h, nofun⟩

theorem Detached.mono {Q : α → Prop} (hx : Detached kind P x) (h : ∀ a, P a → Q a) :
    Detached kind Q x := by
  obtain ⟨r, rfl, hr, hP⟩ := hx
  exact ⟨r, rfl, hr, fun a ha => h a (hP a ha)⟩

theorem Detached.bind {Q : β → Prop} {f : α → Effect ε σ β} (hx : Detached kind P x)
    (hf : ∀ a, P a → Detached kind Q (f a)) : Detached kind Q (x >>= f) := by
  obtain ⟨r, rfl, hr, hP⟩ := hx
  cases r with
  | error why => exact ⟨.error why, rfl, spares_error (hr why rfl), nofun⟩
  | ok a => exact hf a (hP a rfl)

theorem Detached.mapM {Q : β → Prop} {f : α → Effect ε σ β} {as : List α}
    (hf : ∀ a ∈ as, Detached kind Q (f a)) :
    Detached kind (fun bs => ∀ b ∈ bs, Q b) (as.mapM f) := by
  induction as with
  | nil => exact detached_pure nofun
  | cons a as ih =>
    rw [List.forall_mem_cons] at hf
    rw [List.mapM_cons]
    refine hf.1.bind fun b hb => (ih hf.2).bind fun bs hbs => ?_
    exact detached_pure (List.forall_mem_cons.mpr ⟨hb, hbs⟩)

theorem Detached.avoids (hx : Detached kind P x) : Avoids kind x := by
  obtain ⟨r, rfl, hr, -⟩ := hx
  exact avoids_ofExcept hr

theorem Detached.keeps {part : σ → τ} (hx : Detached kind P x) : Keeps part x := by
  obtain ⟨r, rfl, -, -⟩ := hx
  exact keeps_ofExcept

theorem Detached.of_yields (hx : Detached kind P x) {s t : σ} {a : α} (h : Yields x s a t) :
    s = t ∧ P a := by
  obtain ⟨r, rfl, -, hP⟩ := hx
  obtain ⟨hr, hsame⟩ := yields_ofExcept.mp h
  exact ⟨hsame, hP a hr⟩

end Detached

/-! ## Where a computation leads -/

/-- However the computation ends, the world that it leaves is related to the one it was run in. -/
def Leads (rel : σ → σ → Prop) (x : Effect ε σ α) : Prop :=
  ∀ s, rel s (x.outcome s).2

section Leads

variable {rel : σ → σ → Prop} {x : Effect ε σ α}

theorem Keeps.leads {part : σ → τ} (hx : Keeps part x)
    (hrel : ∀ s t, part t = part s → rel s t) : Leads rel x :=
  fun s => hrel s _ (hx s)

/-- Only what the first computation yields is gone on with. -/
theorem Leads.bind_yields (htrans : ∀ {s t u}, rel s t → rel t u → rel s u) {f : α → Effect ε σ β}
    (hx : Leads rel x) (hf : ∀ a, (∃ s t, Yields x s a t) → Leads rel (f a)) :
    Leads rel (x >>= f) := by
  intro s
  have hfirst := hx s
  rw [outcome_bind]
  rcases hrun : x.outcome s with ⟨why | a, t⟩
  all_goals rw [hrun] at hfirst
  · exact hfirst
  · exact htrans hfirst (hf a ⟨s, t, hrun⟩ t)

theorem Leads.bind (htrans : ∀ {s t u}, rel s t → rel t u → rel s u) {f : α → Effect ε σ β}
    (hx : Leads rel x) (hf : ∀ a, Leads rel (f a)) : Leads rel (x >>= f) := by
  refine Leads.bind_yields ?_ hx fun a _ => hf a
  exact htrans

end Leads

/-! ## Larger worlds -/

/-- On a larger world the computation does what another one does on the part. -/
def Follows (part : τ → σ) (y : Effect ε τ α) (x : Effect ε σ α) : Prop :=
  ∀ t, x.outcome (part t) = ((y.outcome t).1, part (y.outcome t).2)

section Follows

variable {part : τ → σ} {y : Effect ε τ α} {x : Effect ε σ α}

theorem follows_pure {a : α} : Follows part (pure a : Effect ε τ α) (pure a) := fun _ => rfl

theorem follows_throw {why : ε} : Follows part (throw why : Effect ε τ α) (throw why) :=
  fun _ => rfl

theorem follows_throw_bind {why : ε} {f : α → Effect ε τ β} {f' : α → Effect ε σ β} :
    Follows part (throw why >>= f) (throw why >>= f') := fun _ => rfl

theorem follows_ofExcept {r : Except ε α} : Follows part (ofExcept r) (ofExcept r) := fun _ => rfl

theorem follows_onFst (x : Effect ε σ α) : Follows Prod.fst (x.onFst : Effect ε (σ × τ) α) x :=
  fun _ => rfl

theorem Follows.mapError {f : ε → δ} (h : Follows part y x) :
    Follows part (mapError f y) (mapError f x) := by
  intro t
  rw [outcome_mapError, h t, outcome_mapError]

theorem Follows.observe (h : Follows part y x) :
    Follows part (observe y : Effect δ τ _) (observe x) := by
  intro t
  rw [outcome_observe, h t, outcome_observe]

theorem Follows.bind_yields {f : α → Effect ε τ β} {f' : α → Effect ε σ β} (h : Follows part y x)
    (hf : ∀ a, (∃ s t, Yields x s a t) → Follows part (f a) (f' a)) :
    Follows part (y >>= f) (x >>= f') := by
  intro t
  have hrun := h t
  rw [outcome_bind, outcome_bind, hrun]
  rcases hy : y.outcome t with ⟨why | a, u⟩
  · rfl
  · rw [hy] at hrun
    exact hf a ⟨part t, part u, hrun⟩ u

theorem Follows.bind {f : α → Effect ε τ β} {f' : α → Effect ε σ β} (h : Follows part y x)
    (hf : ∀ a, Follows part (f a) (f' a)) : Follows part (y >>= f) (x >>= f') :=
  h.bind_yields fun a _ => hf a

theorem Follows.get_bind {f : τ → Effect ε τ β} {f' : σ → Effect ε σ β}
    (hf : ∀ t, Follows part (f t) (f' (part t))) : Follows part (get >>= f) (get >>= f') :=
  fun t => hf t t

theorem Follows.mapM {f : α → Effect ε τ β} {f' : α → Effect ε σ β}
    (hf : ∀ a, Follows part (f a) (f' a)) (as : List α) :
    Follows part (as.mapM f) (as.mapM f') := by
  induction as with
  | nil => exact follows_pure
  | cons a as ih =>
    rw [List.mapM_cons, List.mapM_cons]
    exact (hf a).bind fun _ => ih.bind fun _ => follows_pure

end Follows

end AppLedger.Effect
