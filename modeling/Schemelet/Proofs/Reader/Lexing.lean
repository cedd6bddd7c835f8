import Schemelet.Token

/-! Texts that are cut into tokens of their own. An atom ends where a blank, a parenthesis or the
end of the source follows it, and nothing else ends it. -/

namespace Schemelet.Token

def isDelimiter (c : Char) : Bool := Text.isBlank c || c = '(' || c = ')'

def Boundary (rest : List Char) : Prop := ∀ c ∈ rest.head?, isDelimiter c = true

def IsAtom (cs : List Char) : Prop :=
  cs ≠ [] ∧ (∀ c ∈ cs, isDelimiter c = false) ∧ cs.head? ≠ some '\x27'

instance (cs : List Char) : Decidable (IsAtom cs) :=
  have free : Decidable (∀ c ∈ cs, isDelimiter c = false) := List.decidableBAll _ cs
  @instDecidableAnd _ _ inferInstance (@instDecidableAnd _ _ free inferInstance)

def Lexes (cs : List Char) (tokens : List Token) : Prop :=
  ∀ rest, Boundary rest → scan [] (cs ++ rest) = tokens ++ scan [] rest

theorem scan_blank {c : Char} (blank : Text.isBlank c = true) (cs : List Char) :
    scan [] (c :: cs) = scan [] cs := by
  simp [scan, blank, endAtom]

theorem scan_opening (cs : List Char) : scan [] ('(' :: cs) = ⟨.opening, "("⟩ :: scan [] cs := by
  have visible : Text.isBlank '(' = false := by decide
  simp [scan, visible, endAtom]

theorem scan_closing (cs : List Char) : scan [] (')' :: cs) = ⟨.closing, ")"⟩ :: scan [] cs := by
  have visible : Text.isBlank ')' = false := by decide
  simp [scan, visible, endAtom]

theorem scan_delimiter {pending : List Char} {c : Char} (ends : isDelimiter c = true)
    (cs : List Char) : scan pending (c :: cs) = endAtom pending (scan [] (c :: cs)) := by
  by_cases blank : Text.isBlank c = true
  · simp [scan, blank, endAtom]
  · have visible : Text.isBlank c = false := Bool.eq_false_iff.mpr blank
    simp only [isDelimiter, visible, Bool.false_or, Bool.or_eq_true, decide_eq_true_eq] at ends
    rcases ends with rfl | rfl <;> simp [scan, visible, endAtom]

theorem scan_boundary (pending : List Char) {rest : List Char} (boundary : Boundary rest) :
    scan pending rest = endAtom pending (scan [] rest) := by
  cases rest with
  | nil => simp [scan, endAtom]
  | cons c cs => exact scan_delimiter (boundary c rfl) cs

/-- Inside an atom every character that does not end it belongs to it, a quote too. -/
theorem scan_append {pending cs : List Char} (begun : pending ≠ [])
    (free : ∀ c ∈ cs, isDelimiter c = false) (rest : List Char) :
    scan pending (cs ++ rest) = scan (cs.reverse ++ pending) rest := by
  induction cs generalizing pending with
  | nil => rfl
  | cons c cs ih =>
    have inside := free c List.mem_cons_self
    simp only [isDelimiter, Bool.or_eq_false_iff, decide_eq_false_iff_not] at inside
    have step : scan pending (c :: (cs ++ rest)) = scan (c :: pending) (cs ++ rest) := by
      simp [scan, inside, begun]
    rw [List.cons_append, step, ih (List.cons_ne_nil _ _) fun d member =>
      free d (List.mem_cons_of_mem _ member), List.reverse_cons, List.append_assoc,
      List.singleton_append]

theorem IsAtom.lexes {cs : List Char} (atom : IsAtom cs) :
    Lexes cs [⟨.atom, String.ofList cs⟩] := by
  obtain ⟨nonempty, free, unquoted⟩ := atom
  intro rest boundary
  cases cs with
  | nil => exact absurd rfl nonempty
  | cons c cs =>
    have inside := free c List.mem_cons_self
    simp only [isDelimiter, Bool.or_eq_false_iff, decide_eq_false_iff_not] at inside
    have noQuote : c ≠ '\x27' := fun same => unquoted (congrArg some same)
    have start : scan [] (c :: (cs ++ rest)) = scan [c] (cs ++ rest) := by
      simp [scan, inside, noQuote]
    rw [List.cons_append, start, scan_append (List.cons_ne_nil _ _) fun d member =>
      free d (List.mem_cons_of_mem _ member), scan_boundary _ boundary]
    simp [endAtom]

end Schemelet.Token
