import Schemelet.Text.Basic

/-! The lines of a text. A line goes up to a line feed, which belongs to it; only the last one may
be without. -/

namespace Schemelet.Text

inductive Lines : List Char → List (List Char) → Prop where
  | none : Lines [] []
  | unended {line : List Char} (nonempty : line ≠ []) (unbroken : '\n' ∉ line) : Lines line [line]
  | ended {line rest : List Char} {more : List (List Char)} (unbroken : '\n' ∉ line)
      (behind : Lines rest more) : Lines (line ++ '\n' :: rest) ((line ++ ['\n']) :: more)

theorem lines_of_unbroken {line : List Char} (nonempty : line ≠ []) (unbroken : '\n' ∉ line) :
    lines line = [line] := by
  induction line with
  | nil => exact absurd rfl nonempty
  | cons c cs ih =>
    obtain ⟨first, inside⟩ := List.ne_and_not_mem_of_not_mem_cons unbroken
    rw [lines, if_neg first.symm]
    cases cs with
    | nil => rfl
    | cons d cs => rw [ih (List.cons_ne_nil d cs) inside]

theorem lines_ended {line : List Char} (unbroken : '\n' ∉ line) (rest : List Char) :
    lines (line ++ '\n' :: rest) = (line ++ ['\n']) :: lines rest := by
  induction line with
  | nil => rfl
  | cons c cs ih =>
    obtain ⟨first, inside⟩ := List.ne_and_not_mem_of_not_mem_cons unbroken
    rw [List.cons_append, lines, if_neg first.symm, ih inside]
    rfl

theorem lines_spec (text : List Char) : Lines text (lines text) := by
  induction text with
  | nil => exact .none
  | cons c cs ih =>
    rw [lines]
    split
    · rename_i feed
      rw [feed]
      exact .ended List.not_mem_nil ih
    · rename_i other
      have longer {line : List Char} (unbroken : '\n' ∉ line) : '\n' ∉ c :: line :=
        List.not_mem_cons_of_ne_of_not_mem (Ne.symm other) unbroken
      -- The character goes to the front of the first line behind it.
      revert ih
      generalize lines cs = parts
      intro ih
      cases ih with
      | none => exact .unended (List.cons_ne_nil c []) (longer List.not_mem_nil)
      | unended nonempty unbroken => exact .unended (List.cons_ne_nil c _) (longer unbroken)
      | ended unbroken behind => exact .ended (longer unbroken) behind

theorem lines_eq_iff {text : List Char} {parts : List (List Char)} :
    lines text = parts ↔ Lines text parts := by
  constructor
  · rintro rfl
    exact lines_spec text
  · intro cut
    induction cut with
    | none => rfl
    | unended nonempty unbroken => exact lines_of_unbroken nonempty unbroken
    | ended unbroken behind ih => rw [lines_ended unbroken, ih]

theorem lines_ne_nil {text : List Char} (nonempty : text ≠ []) : lines text ≠ [] := by
  intro none
  have cut := lines_eq_iff.mp none
  cases cut
  exact nonempty rfl

theorem lines_append (text rest : List Char) :
    lines (text ++ '\n' :: rest) = lines (text ++ ['\n']) ++ lines rest := by
  induction text with
  | nil => rfl
  | cons c cs ih =>
    have some : lines (cs ++ ['\n']) ≠ [] := lines_ne_nil (by simp)
    rw [List.cons_append, List.cons_append, lines, lines, ih]
    split
    · rfl
    · cases first : lines (cs ++ ['\n']) with
      | nil => exact absurd first some
      | cons line more => rfl

end Schemelet.Text
