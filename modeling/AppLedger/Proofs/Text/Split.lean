import AppLedger.Text.Split

/-! Parts are split where they were joined, and a line feed ends the line before it. -/

namespace AppLedger.Text

variable {separator : Char} {part rest line : List Char}

theorem split_append_cons (h : separator ∉ part) :
    split separator (part ++ separator :: rest) = part :: split separator rest := by
  induction part with
  | nil => exact if_pos rfl
  | cons c part ih =>
    rw [List.mem_cons, not_or] at h
    have hc : c ≠ separator := fun heq => h.1 heq.symm
    rw [List.cons_append, split, if_neg hc, ih h.2]

theorem split_eq_singleton (h : separator ∉ part) : split separator part = [part] := by
  induction part with
  | nil => rfl
  | cons c part ih =>
    rw [List.mem_cons, not_or] at h
    have hc : c ≠ separator := fun heq => h.1 heq.symm
    rw [split, if_neg hc, ih h.2]

theorem split_join {parts : List (List Char)} (hne : parts ≠ [])
    (h : ∀ part ∈ parts, separator ∉ part) : split separator (join separator parts) = parts := by
  induction parts with
  | nil => exact absurd rfl hne
  | cons part parts ih =>
    rw [List.forall_mem_cons] at h
    cases parts with
    | nil => exact split_eq_singleton h.1
    | cons next parts =>
      rw [join_cons_cons, split_append_cons h.1, ih (List.cons_ne_nil _ _) h.2]

theorem lines_append_cons (h : ∀ c ∈ line, c ≠ '\n' ∧ c ≠ '\r') :
    lines (line ++ '\n' :: rest) = line :: lines rest := by
  induction line with
  | nil => rw [List.nil_append, lines]
  | cons c line ih =>
    rw [List.forall_mem_cons] at h
    rw [List.cons_append, lines, ih h.2]
    · exact h.1.1
    · exact fun _ hc => absurd hc h.1.2

end AppLedger.Text
