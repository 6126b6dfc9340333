import AppLedger.Bytes

/-! The order of byte strings: by the first byte that differs, and a beginning comes first. -/

namespace AppLedger.Bytes

def before : Bytes → Bytes → Bool
  | _, [] => false
  | [], _ :: _ => true
  | x :: a, y :: b => x.toNat < y.toNat || (x == y && before a b)

theorem before_irrefl (a : Bytes) : before a a = false := by
  induction a with
  | nil => rfl
  | cons x a ih => simp [before, ih]

theorem before_trans {a b c : Bytes} (hab : before a b) (hbc : before b c) : before a c := by
  induction a generalizing b c with
  | nil =>
    cases b with
    | nil => simp [before] at hab
    | cons y b =>
      cases c with
      | nil => simp [before] at hbc
      | cons z c => rfl
  | cons x a ih =>
    cases b with
    | nil => simp [before] at hab
    | cons y b =>
      cases c with
      | nil => simp [before] at hbc
      | cons z c =>
        simp only [before, Bool.or_eq_true, Bool.and_eq_true, decide_eq_true_eq, beq_iff_eq] at *
        rcases hab with hab | ⟨rfl, hab⟩
        · rcases hbc with hbc | ⟨rfl, hbc⟩
          · exact .inl (by omega)
          · exact .inl hab
        · rcases hbc with hbc | ⟨rfl, hbc⟩
          · exact .inl hbc
          · exact .inr ⟨rfl, ih hab hbc⟩

theorem before_total {a b : Bytes} (hab : before a b = false) (hne : a ≠ b) : before b a := by
  induction a generalizing b with
  | nil =>
    cases b with
    | nil => exact absurd rfl hne
    | cons y b => simp [before] at hab
  | cons x a ih =>
    cases b with
    | nil => rfl
    | cons y b =>
      simp only [before, Bool.or_eq_false_iff, Bool.and_eq_false_iff, decide_eq_false_iff_not,
        Bool.or_eq_true, Bool.and_eq_true, decide_eq_true_eq, beq_iff_eq, beq_eq_false_iff_ne] at *
      obtain ⟨hxy, hrest⟩ := hab
      by_cases heq : x = y
      · subst heq
        refine .inr ⟨rfl, ih (hrest.resolve_left (by simp)) ?_⟩
        rintro rfl
        exact hne rfl
      · exact .inl (by have := mt UInt8.toNat_inj.mp heq; omega)

end AppLedger.Bytes
