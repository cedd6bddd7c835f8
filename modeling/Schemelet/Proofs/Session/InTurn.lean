import Schemelet.Proofs.Reader.Raising
import Schemelet.Proofs.Session.Expressions

/-! Reading and evaluating in turn. A source is evaluated expression by expression, and none is read
before the ones in front of it have values; a source for one expression is read to its end before
anything is evaluated. The two ways differ only where something follows the first expression, or
where there is nothing at all. -/

namespace Schemelet

namespace Session

open Reader

/-- Reads an expression, evaluates it, and only then reads on. The value is that of the last
expression, or the given one. -/
def evaluateTokens (limits : Limits) (last : Value) (tokens : List Token) : SessionM Value :=
  if isEmpty : tokens = [] then pure last
  else match read : readNext limits.reading tokens with
    | (.error e, _) => throw (.read e)
    | (.ok expr, rest) => do
      have := readNext_rest_shorter isEmpty read
      let v ← evaluate limits expr
      evaluateTokens limits v rest
termination_by tokens.length

variable {limits : Limits} {tokens rest : List Token}

theorem evaluateTokens_nil (limits : Limits) (last : Value) :
    evaluateTokens limits last [] = pure last := by
  rw [evaluateTokens]
  simp

theorem evaluateTokens_of_error (nonempty : tokens ≠ []) {e : ReadError}
    (read : readNext limits.reading tokens = (.error e, rest)) (last : Value) :
    evaluateTokens limits last tokens = throw (.read e) := by
  rw [evaluateTokens, dif_neg nonempty]
  split
  · rename_i other
    rw [read] at other
    cases other
    rfl
  · rename_i other
    rw [read] at other
    cases other

theorem evaluateTokens_of_ok (nonempty : tokens ≠ []) {expr : Value}
    (read : readNext limits.reading tokens = (.ok expr, rest)) (last : Value) :
    evaluateTokens limits last tokens =
      evaluate limits expr >>= fun v => evaluateTokens limits v rest := by
  rw [evaluateTokens, dif_neg nonempty]
  split
  · rename_i other
    rw [read] at other
    cases other
  · rename_i other
    rw [read] at other
    cases other
    rfl

theorem evaluateAll_readAll (limits : Limits) (last : Value) (tokens : List Token) :
    (evaluateAll limits last (Reader.readAll limits.reading tokens).values >>= fun v =>
      match (Reader.readAll limits.reading tokens).fault with
      | none => pure v
      | some e => throw (.read e)) = evaluateTokens limits last tokens := by
  induction size : tokens.length using Nat.strongRecOn generalizing tokens last with
  | ind n ih =>
    by_cases nonempty : tokens = []
    · rw [nonempty, readAll_nil, evaluateTokens_nil]
      rfl
    · rcases read : readNext limits.reading tokens with ⟨result, rest⟩
      cases result with
      | error e =>
        rw [readAll_of_error nonempty read, evaluateTokens_of_error nonempty read]
        rfl
      | ok expr =>
        have shorter := readNext_rest_shorter nonempty read
        rw [readAll_of_ok nonempty read, evaluateTokens_of_ok nonempty read, evaluateAll,
          bind_assoc]
        apply bind_congr
        intro v
        exact ih rest.length (by omega) v rest rfl

theorem evalSource_in_turn (limits : Limits) (source : String) :
    evalSource limits source = evaluateTokens limits .unspecified (Token.ofSource source) :=
  evaluateAll_readAll limits .unspecified (Token.ofSource source)

theorem readOne_eq_ok_iff_readNext {limit : Limit} {source : String} {expr : Value} :
    readOne limit source = .ok expr ↔ readNext limit (Token.ofSource source) = (.ok expr, []) := by
  rw [readOne, readSingle]
  rcases readNext limit (Token.ofSource source) with ⟨result, rest⟩
  cases result with
  | error e => simp
  | ok v => cases rest <;> simp

theorem eval_of_readNext_error {source : String} {e : ReadError}
    (read : readNext limits.reading (Token.ofSource source) = (.error e, rest)) :
    eval limits source = throw (.read e) := by
  rw [eval, readOne, readSingle, read]

theorem eval_of_more {source : String} {expr : Value} (more : rest ≠ [])
    (read : readNext limits.reading (Token.ofSource source) = (.ok expr, rest)) :
    eval limits source = throw (.read .extraInput) := by
  cases rest with
  | nil => exact absurd rfl more
  | cons token rest => rw [eval, readOne, readSingle, read]

theorem eval_of_single {source : String} {expr : Value}
    (read : readOne limits.reading source = .ok expr) :
    eval limits source = evaluate limits expr := by
  rw [eval, read]

theorem evalSource_of_single {source : String} {expr : Value}
    (read : readOne limits.reading source = .ok expr) :
    evalSource limits source = evaluate limits expr := by
  have first := readOne_eq_ok_iff_readNext.mp read
  have nonempty : Token.ofSource source ≠ [] := by
    intro none
    rw [none] at first
    cases first
  rw [evalSource_in_turn, evaluateTokens_of_ok nonempty first]
  simp only [evaluateTokens_nil]
  exact bind_pure _

/-- Evaluation of one expression and of a whole source, compared on any text. They agree where there
is exactly one expression, and where the first one cannot be read; the store is unchanged by all
that the first of the two refuses. Where more follows, the second evaluates the first expression
before it reads on. -/
theorem single_expression_never_half_executed (limits : Limits) (source : String) (s : Store) :
    let tokens := Token.ofSource source
    (∀ expr, readOne limits.reading source = .ok expr →
      eval limits source s = evaluate limits expr s ∧
        evalSource limits source s = evaluate limits expr s) ∧
      (tokens = [] → eval limits source s = .error (.read .unexpectedEnd) s ∧
        evalSource limits source s = .ok .unspecified s) ∧
      (∀ e rest, tokens ≠ [] → Reader.readNext limits.reading tokens = (.error e, rest) →
        eval limits source s = .error (.read e) s ∧
          evalSource limits source s = .error (.read e) s) ∧
      ∀ expr rest, rest ≠ [] → Reader.readNext limits.reading tokens = (.ok expr, rest) →
        eval limits source s = .error (.read .extraInput) s ∧
          (∀ e s', evaluate limits expr s = .error e s' →
            evalSource limits source s = .error e s') ∧
          ∀ v s', evaluate limits expr s = .ok v s' →
            evalSource limits source s = evaluateTokens limits v rest s' := by
  intro tokens
  refine ⟨?_, ?_, ?_, ?_⟩
  · intro expr read
    rw [eval_of_single read, evalSource_of_single read]
    exact ⟨rfl, rfl⟩
  · intro none
    have nothing : Reader.readNext limits.reading tokens = (.error .unexpectedEnd, []) := by
      rw [none]
      rfl
    rw [eval_of_readNext_error nothing, evalSource_in_turn]
    change _ ∧ evaluateTokens limits .unspecified tokens s = _
    rw [none, evaluateTokens_nil]
    exact ⟨rfl, rfl⟩
  · intro e rest nonempty read
    rw [eval_of_readNext_error read, evalSource_in_turn, evaluateTokens_of_error nonempty read]
    exact ⟨rfl, rfl⟩
  · intro expr rest more read
    have nonempty : tokens ≠ [] := by
      intro none
      rw [none] at read
      cases read
    rw [eval_of_more more read, evalSource_in_turn, evaluateTokens_of_ok nonempty read]
    refine ⟨rfl, ?_, ?_⟩
    · intro e s' fails
      exact bind_of_error fails _
    · intro v s' evaluated
      exact bind_of_ok evaluated _

theorem definition_before_fault_kept :
    let limits : Limits := ⟨9, .atMost 1, .atMost 3⟩
    let source := "(define x #t) )"
    let expr : Value := .ofList [.symbol "define", .symbol "x", .bool true]
    let rest : List Token := [⟨.closing, ")"⟩]
    let after := Store.initial.define Store.globalFrame "x" (.bool true)
    rest ≠ [] ∧ Reader.readNext limits.reading (Token.ofSource source) = (.ok expr, rest) ∧
      evaluate limits expr Store.initial = .ok .unspecified after ∧
      eval limits source Store.initial = .error (.read .extraInput) Store.initial ∧
      evalSource limits source Store.initial = .error (.read .unexpectedClosing) after := by
  intro limits source expr rest after
  have more : rest ≠ [] := by simp [rest]
  have tokens : Token.ofSource source = [⟨.opening, "("⟩, ⟨.atom, "define"⟩, ⟨.atom, "x"⟩,
      ⟨.atom, "#t"⟩, ⟨.closing, ")"⟩, ⟨.closing, ")"⟩] := by decide +kernel
  have read : Reader.readNext limits.reading (Token.ofSource source) = (.ok expr, rest) := by
    rw [tokens]
    rfl
  have evaluated : evaluate limits expr Store.initial = .ok .unspecified after := rfl
  have fault : Reader.readNext limits.reading rest = (.error .unexpectedClosing, []) := rfl
  obtain ⟨-, -, -, followed⟩ :=
    single_expression_never_half_executed limits source Store.initial
  obtain ⟨refused, -, goesOn⟩ := followed expr rest more read
  refine ⟨more, read, evaluated, refused, ?_⟩
  rw [goesOn .unspecified after evaluated, evaluateTokens_of_error more fault]
  rfl

end Session

end Schemelet
