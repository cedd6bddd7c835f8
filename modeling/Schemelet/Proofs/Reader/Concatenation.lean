import Schemelet.Proofs.Reader.Advance
import Schemelet.Proofs.Reader.Continuation
import Schemelet.Proofs.Reader.Raising

/-! Reading one source behind another. A blank between them keeps their tokens apart, an expression
that is complete is read without a look at what follows it, and so the expressions of the second
source follow those of the first. -/

namespace Schemelet

theorem Token.ofSource_append {blanks : String} (nonempty : blanks ≠ "")
    (blank : ∀ c ∈ blanks.toList, Text.isBlank c = true) (source more : String) :
    Token.ofSource (source ++ blanks ++ more) = Token.ofSource source ++ Token.ofSource more := by
  unfold Token.ofSource
  rw [String.toList_append, String.toList_append]
  cases chars : blanks.toList with
  | nil => exact absurd (String.toList_eq_nil_iff.mp chars) nonempty
  | cons c cs =>
    rw [chars] at blank
    rw [List.append_assoc, List.cons_append, Token.scan_append_blank (blank c List.mem_cons_self),
      Token.scan_blanks fun d member => blank d (List.mem_cons_of_mem _ member)]

namespace Reader

variable {limit : Limit} {v : Value} {rest : List Token}

theorem readFrom_append {levels : List Level} {tokens : List Token}
    (read : readFrom limit levels tokens = (.ok v, rest)) (more : List Token) :
    readFrom limit levels (tokens ++ more) = (.ok v, rest ++ more) := by
  induction tokens generalizing levels with
  | nil => cases read
  | cons token tokens ih =>
    rw [List.cons_append, readFrom_cons]
    rw [readFrom_cons] at read
    cases next : advance limit levels token with
    | error e =>
      rw [next] at read
      cases read
    | ok progress =>
      rw [next] at read
      cases progress with
      | done w =>
        cases read
        rfl
      | more levels' => exact ih read

theorem readAll_append {tokens : List Token} (whole : (readAll limit tokens).fault = none)
    (more : List Token) :
    readAll limit (tokens ++ more) =
      { readAll limit more with
        values := (readAll limit tokens).values ++ (readAll limit more).values } := by
  -- Every expression takes at least one token, so the induction is on their number.
  induction size : tokens.length using Nat.strongRecOn generalizing tokens with
  | ind n ih =>
    by_cases nonempty : tokens = []
    · rw [nonempty, readAll_nil]
      rfl
    · have longer : tokens ++ more ≠ [] := by
        intro none
        exact nonempty (List.append_eq_nil_iff.mp none).1
      rcases read : readNext limit tokens with ⟨result, rest⟩
      cases result with
      | error e =>
        rw [readAll_of_error nonempty read] at whole
        cases whole
      | ok v =>
        have shorter := readNext_rest_shorter nonempty read
        have next : readNext limit (tokens ++ more) = (.ok v, rest ++ more) :=
          readFrom_append read more
        rw [readAll_of_ok nonempty read] at whole
        rw [readAll_of_ok nonempty read, readAll_of_ok longer next,
          ih rest.length (by omega) whole rfl]
        rfl

end Reader

theorem readAll_source_append {limit : Limit} {source : String}
    (whole : (readAll limit source).fault = none) {blanks : String} (nonempty : blanks ≠ "")
    (blank : ∀ c ∈ blanks.toList, Text.isBlank c = true) (more : String) :
    readAll limit (source ++ blanks ++ more) =
      { readAll limit more with
        values := (readAll limit source).values ++ (readAll limit more).values } := by
  unfold readAll
  rw [Token.ofSource_append nonempty blank]
  exact Reader.readAll_append whole (Token.ofSource more)

end Schemelet
