import Schemelet.Proofs.Evaluation.Fault
import Schemelet.Proofs.Evaluation.Nesting

/-! The shapes of the forms and the evaluations they ask for. A form whose operands have the wrong
shape fails at once, with an error of its own and the store as it was; a form of the right shape
fails only where one of the evaluations that it asks for does. -/

namespace Schemelet

namespace Form

def WellShaped (operands : Value) : Form → Prop
  | .quotation => ∃ v, operands = .ofList [v]
  | .conditional => ∃ items, operands = .ofList items ∧ (items.length = 2 ∨ items.length = 3)
  | .abstraction => ∃ (params : List String) (bodies : List Value),
      operands = .ofList (.ofList (params.map .symbol) :: bodies) ∧ bodies ≠ [] ∧ params.Nodup
  | .definition => ∃ name expr, operands = .ofList [.symbol name, expr]
  | .sequence => ∃ items, operands = .ofList items

/-- An evaluation that a form asks for: of a part, by one of two evaluators, and in the store that
the parts before it leave. The evaluator `below` is for parts whose value the form waits for, and
`level` for the part whose value becomes its own. -/
inductive Asks (below level : Evaluator) (env : FrameId) (s : Store) :
    Form → Value → Evaluator → Value → Store → Prop where
  | test {operands test yes : Value} {no : Option Value}
      (shape : operands = .ofList (test :: yes :: no.toList)) :
      Asks below level env s .conditional operands below test s
  | thenBranch {operands test yes v : Value} {no : Option Value} {s₁ : Store}
      (shape : operands = .ofList (test :: yes :: no.toList))
      (tested : below env test s = .ok v s₁) (notFalse : v ≠ .bool false) :
      Asks below level env s .conditional operands level yes s₁
  | elseBranch {operands test yes no : Value} {s₁ : Store}
      (shape : operands = .ofList [test, yes, no])
      (tested : below env test s = .ok (.bool false) s₁) :
      Asks below level env s .conditional operands level no s₁
  | definition {operands expr : Value} {name : String}
      (shape : operands = .ofList [.symbol name, expr]) :
      Asks below level env s .definition operands below expr s
  | inOrder {operands expr : Value} {earlier later vs : List Value} {s₁ : Store}
      (shape : operands = .ofList (earlier ++ expr :: later)) (notLast : later ≠ [])
      (before : evaluateOperands below env earlier s = .ok vs s₁) :
      Asks below level env s .sequence operands below expr s₁
  | last {operands expr : Value} {earlier vs : List Value} {s₁ : Store}
      (shape : operands = .ofList (earlier ++ [expr]))
      (before : evaluateOperands below env earlier s = .ok vs s₁) :
      Asks below level env s .sequence operands level expr s₁

variable {form : Form} {operands : Value}

theorem wellShaped_or_misshapen (form : Form) (operands : Value) :
    form.WellShaped operands ∨ ∃ e, form.Misshapen operands e := by
  cases form with
  | quotation =>
    rcases quotation_cases operands with fault | ⟨v, shape⟩
    · exact Or.inr fault
    · exact Or.inl ⟨v, Value.toList?_eq_some_iff.mp shape⟩
  | conditional =>
    rcases conditional_cases operands with fault | ⟨test, yes, no, shape⟩
    · exact Or.inr fault
    · refine Or.inl ⟨_, Value.toList?_eq_some_iff.mp shape, ?_⟩
      cases no <;> simp
  | abstraction =>
    rcases closure_cases Store.globalFrame operands with
      fault | ⟨list, body, bodies, params, shape, parameters, distinct, -⟩
    · exact Or.inr fault
    · have names := Value.toList?_eq_some_iff.mp parameters
      subst names
      have whole := Value.toList?_eq_some_iff.mp shape
      exact Or.inl ⟨params, body :: bodies, whole, List.cons_ne_nil _ _, distinct⟩
  | definition =>
    rcases definition_cases operands with fault | ⟨name, expr, shape⟩
    · exact Or.inr fault
    · exact Or.inl ⟨name, expr, Value.toList?_eq_some_iff.mp shape⟩
  | sequence =>
    rcases sequence_cases operands with fault | ⟨exprs, shape⟩
    · exact Or.inr fault
    · exact Or.inl ⟨exprs, Value.toList?_eq_some_iff.mp shape⟩

theorem WellShaped.not_misshapen (ok : form.WellShaped operands) (e : EvalError) :
    ¬ form.Misshapen operands e := by
  intro fault
  cases form with
  | quotation =>
    obtain ⟨v, rfl⟩ := ok
    cases fault with
    | improper _ shape => cases shape
    | quoteCount shape count =>
      cases shape
      exact count rfl
  | conditional =>
    obtain ⟨items, rfl, sized⟩ := ok
    have proper := Value.toList?_ofList items
    cases fault with
    | improper _ shape => cases proper.symm.trans shape
    | ifCount shape count =>
      cases proper.symm.trans shape
      omega
  | abstraction =>
    obtain ⟨params, bodies, rfl, nonempty, distinct⟩ := ok
    have proper := Value.toList?_ofList (.ofList (params.map .symbol) :: bodies)
    have names := Value.toList?_ofList (params.map .symbol)
    cases fault with
    | improper _ shape => cases proper.symm.trans shape
    | lambdaCount shape count =>
      cases proper.symm.trans shape
      have positive := List.length_pos_iff.mpr nonempty
      simp only [List.length_cons] at count
      omega
    | improperParameters shape improper =>
      cases proper.symm.trans shape
      cases names.symm.trans improper
    | @parameterNotSymbol _ _ _ p _ _ _ shape parameters noSymbol =>
      cases proper.symm.trans shape
      have listed : p ∈ params.map Value.symbol := by
        rw [Option.some.inj (names.symm.trans parameters)]
        exact List.mem_append_right _ List.mem_cons_self
      obtain ⟨name, -, same⟩ := List.mem_map.mp listed
      exact noSymbol name same.symm
    | parametersRepeated shape parameters repeated =>
      cases proper.symm.trans shape
      have listed := Option.some.inj (names.symm.trans parameters)
      rw [(List.map_inj_right fun _ _ => Value.symbol.inj).mp listed] at distinct
      exact repeated distinct
  | definition =>
    obtain ⟨name, expr, rfl⟩ := ok
    cases fault with
    | improper _ shape => cases shape
    | defineCount shape count =>
      cases shape
      exact count rfl
    | defineName shape noSymbol =>
      cases shape
      exact noSymbol name rfl
  | sequence =>
    obtain ⟨items, rfl⟩ := ok
    cases fault with
    | improper _ shape => cases (Value.toList?_ofList items).symm.trans shape

theorem misshapen_iff : (∃ e, form.Misshapen operands e) ↔ ¬ form.WellShaped operands := by
  constructor
  · rintro ⟨e, fault⟩ ok
    exact ok.not_misshapen e fault
  · intro bad
    exact (wellShaped_or_misshapen form operands).resolve_left bad

theorem Misshapen.kind {e : EvalError} (fault : form.Misshapen operands e) :
    (e.kind = .invalidName ∨ e.kind = .malformedForm) ∧
      (e.kind = .invalidName ↔ form = .definition ∧
        ∃ v expr, operands = .ofList [v, expr] ∧ ∀ name, v ≠ .symbol name) := by
  -- In all other cases the operands are no definition, or not two.
  have malformed (kind : e.kind = .malformedForm)
      (other : ¬ (form = .definition ∧ ∃ v expr, operands = .ofList [v, expr])) :
      (e.kind = .invalidName ∨ e.kind = .malformedForm) ∧
        (e.kind = .invalidName ↔ form = .definition ∧
          ∃ v expr, operands = .ofList [v, expr] ∧ ∀ name, v ≠ .symbol name) := by
    refine ⟨Or.inr kind, iff_of_false ?_ ?_⟩
    · rw [kind]
      simp
    · rintro ⟨definition, v, expr, shape, -⟩
      exact other ⟨definition, v, expr, shape⟩
  cases fault with
  | defineName shape noSymbol =>
    exact ⟨Or.inl rfl, iff_of_true rfl ⟨rfl, _, _, Value.toList?_eq_some_iff.mp shape, noSymbol⟩⟩
  | improper form shape =>
    apply malformed rfl
    rintro ⟨-, v, expr, rfl⟩
    cases shape
  | defineCount shape count =>
    apply malformed rfl
    rintro ⟨-, v, expr, rfl⟩
    cases shape
    exact count rfl
  | _ =>
    apply malformed rfl
    rintro ⟨impossible, -⟩
    cases impossible

section

variable {below level : Evaluator} {env env' : FrameId} {s s₁ s' : Store} {vs : List Value}
  {expr : Value} {h : Halt}

theorem value_of_single {eval : Evaluator}
    (first : evaluateOperands eval env [expr] s = .ok vs s₁) :
    ∃ v, vs = [v] ∧ eval env expr s = .ok v s₁ := by
  cases run : eval env expr s with
  | error h s' =>
    rw [evaluateOperands, bind_of_error run] at first
    cases first
  | ok v s' =>
    rw [evaluateOperands, bind_of_ok run] at first
    cases first
    exact ⟨v, rfl, rfl⟩

theorem asks_of_demands {earlier later : List Value}
    (parts : form.demands operands = earlier ++ expr :: later)
    (before : evaluateOperands below env earlier s = .ok vs s₁) :
    form.Asks below level env s operands below expr s₁ := by
  -- A form of the wrong shape demands nothing.
  have wellShaped : ¬ ∃ e, form.Misshapen operands e := by
    rintro ⟨e, fault⟩
    rw [demands_of_misshapen fault] at parts
    cases earlier <;> cases parts
  cases form with
  | quotation => cases earlier <;> cases parts
  | abstraction => cases earlier <;> cases parts
  | conditional =>
    obtain ⟨test, yes, no, shape⟩ := (conditional_cases operands).resolve_left wellShaped
    rw [demands_conditional shape] at parts
    rcases List.singleton_eq_append_iff.mp parts with ⟨rfl, single⟩ | ⟨-, impossible⟩
    · cases before
      cases single
      exact .test (Value.toList?_eq_some_iff.mp shape)
    · cases impossible
  | definition =>
    obtain ⟨name, value, shape⟩ := (definition_cases operands).resolve_left wellShaped
    rw [demands_definition shape] at parts
    rcases List.singleton_eq_append_iff.mp parts with ⟨rfl, single⟩ | ⟨-, impossible⟩
    · cases before
      cases single
      exact .definition (Value.toList?_eq_some_iff.mp shape)
    · cases impossible
  | sequence =>
    obtain ⟨exprs, shape⟩ := (sequence_cases operands).resolve_left wellShaped
    rw [demands_sequence shape] at parts
    have nonempty : exprs ≠ [] := by
      rintro rfl
      cases earlier <;> cases parts
    have whole := List.dropLast_concat_getLast nonempty
    rw [parts, List.append_assoc, List.cons_append] at whole
    rw [← whole, Value.toList?_eq_some_iff] at shape
    exact .inOrder shape (List.append_ne_nil_of_right_ne_nil later (List.cons_ne_nil _ [])) before

theorem asks_of_tail (level : Evaluator)
    (first : evaluateOperands below env (form.demands operands) s = .ok vs s₁)
    (rest : form.finish env operands vs s₁ = .ok (.tail expr env') s') :
    env' = env ∧ form.Asks below level env s operands level expr s' := by
  -- A form of the wrong shape hands nothing on.
  have wellShaped : ¬ ∃ e, form.Misshapen operands e := by
    rintro ⟨e, fault⟩
    rw [finish_of_misshapen fault] at rest
    cases rest
  cases form with
  | quotation =>
    obtain ⟨v, shape⟩ := (quotation_cases operands).resolve_left wellShaped
    rw [finish_quotation env shape] at rest
    cases rest
  | abstraction =>
    obtain ⟨list, body, bodies, params, shape, parameters, distinct, -⟩ :=
      (closure_cases env operands).resolve_left wellShaped
    rw [finish_abstraction env shape parameters distinct] at rest
    cases rest
  | definition =>
    obtain ⟨name, value, shape⟩ := (definition_cases operands).resolve_left wellShaped
    rw [finish, Value.toList_of_some _ shape] at rest
    cases rest
  | conditional =>
    obtain ⟨test, yes, no, shape⟩ := (conditional_cases operands).resolve_left wellShaped
    rw [demands_conditional shape] at first
    obtain ⟨v, rfl, tested⟩ := value_of_single first
    by_cases isFalse : v = .bool false
    · subst isFalse
      cases no with
      | none =>
        rw [finish_conditional_none env shape] at rest
        cases rest
      | some no =>
        rw [finish_conditional_else env shape] at rest
        cases rest
        exact ⟨rfl, .elseBranch (Value.toList?_eq_some_iff.mp shape) tested⟩
    · rw [finish_conditional_true env shape isFalse] at rest
      cases rest
      exact ⟨rfl, .thenBranch (Value.toList?_eq_some_iff.mp shape) tested isFalse⟩
  | sequence =>
    obtain ⟨exprs, shape⟩ := (sequence_cases operands).resolve_left wellShaped
    rw [demands_sequence shape] at first
    rw [finish_sequence env shape] at rest
    cases isLast : exprs.getLast? with
    | none =>
      rw [isLast] at rest
      cases rest
    | some last =>
      rw [isLast] at rest
      cases rest
      obtain ⟨earlier, rfl⟩ := List.getLast?_eq_some_iff.mp isLast
      rw [List.dropLast_concat] at first
      exact ⟨rfl, .last (Value.toList?_eq_some_iff.mp shape) first⟩

end

variable {steps : Nat} {limit : Limit} {env : FrameId} {s s' : Store} {h : Halt} {e : EvalError}

theorem evaluate_of_misshapen (fault : form.Misshapen operands e) :
    evaluate (steps + 1) limit env (.pair (.symbol form.name) operands) s =
      .error (.error e) s := by
  rw [evaluate, Schemelet.step_eq, demands_form, demands_of_misshapen fault, evaluateOperands,
    pure_bind, finish_form, finish_of_misshapen fault]
  rfl

/-- Where a form of the right shape fails, an evaluation that it asked for has failed so. -/
theorem asks_of_error (ok : form.WellShaped operands)
    (stops : evaluate (steps + 1) limit env (.pair (.symbol form.name) operands) s = .error h s') :
    ∃ sub part s₁, form.Asks (oneLevelDown limit (evaluate steps)) (evaluate steps limit) env s
      operands sub part s₁ ∧ sub env part s₁ = .error h s' := by
  rw [evaluate, Schemelet.step_eq, demands_form, bind_assoc] at stops
  cases first : evaluateOperands (oneLevelDown limit (evaluate steps)) env (form.demands operands)
    s with
  | error h₁ s₁ =>
    rw [bind_of_error first] at stops
    cases stops
    obtain ⟨earlier, part, later, vs, s₂, parts, before, stopped⟩ :=
      part_of_evaluateOperands_error first
    exact ⟨_, part, s₂, asks_of_demands parts before, stopped⟩
  | ok vs s₁ =>
    rw [bind_of_ok first, finish_form] at stops
    cases rest : form.finish env operands vs s₁ with
    | error h₁ s₂ =>
      obtain ⟨e, -, fault⟩ := misshapen_of_finish rest
      exact absurd fault (ok.not_misshapen e)
    | ok transition s₂ =>
      rw [bind_of_ok rest] at stops
      cases transition with
      | done v => cases stops
      | tail expr env' =>
        obtain ⟨rfl, asked⟩ := asks_of_tail (evaluate steps limit) first rest
        exact ⟨_, expr, s₂, asked, stops⟩

end Form

/-- A form whose operands are not well shaped has one error of its own, whatever the store, the
frame and the limit: that of a name, exactly for a definition of two operands, or else that of a
malformed form. The store stays as it was. A form whose operands are well shaped ends in an error
only if an evaluation that it asked for ended in that error and left that store. -/
theorem shapes_checked_before_effects (form : Form) (operands : Value) :
    (¬ form.WellShaped operands → ∃ e : EvalError,
      (e.kind = .invalidName ∨ e.kind = .malformedForm) ∧
      (e.kind = .invalidName ↔ form = .definition ∧
        ∃ v expr, operands = .ofList [v, expr] ∧ ∀ name, v ≠ .symbol name) ∧
      ∀ (steps : Nat) (limit : Limit) (env : FrameId) (s : Store),
        evaluate (steps + 1) limit env (.pair (.symbol form.name) operands) s =
          .error (.error e) s) ∧
      (form.WellShaped operands → ∀ (steps : Nat) (limit : Limit) (env : FrameId) (s : Store)
        (h : Halt) (s' : Store),
        evaluate (steps + 1) limit env (.pair (.symbol form.name) operands) s = .error h s' →
          ∃ sub part s₁, form.Asks (oneLevelDown limit (evaluate steps)) (evaluate steps limit) env
            s operands sub part s₁ ∧ sub env part s₁ = .error h s') := by
  constructor
  · intro bad
    obtain ⟨e, fault⟩ := Form.misshapen_iff.mpr bad
    refine ⟨e, fault.kind.1, fault.kind.2, ?_⟩
    intro steps limit env s
    exact Form.evaluate_of_misshapen fault
  · intro ok steps limit env s h s' stops
    exact Form.asks_of_error ok stops

theorem inner_definition_made_only_in_sequence :
    let inner := Value.ofList [.symbol "define", .symbol "x", .bool true]
    let named := Value.ofList [.number ⟨0⟩, inner]
    let sequence := Value.ofList [inner, .ofList [.symbol "if"]]
    let left := Store.initial.define Store.globalFrame "x" (.bool true)
    (¬ Form.definition.WellShaped named ∧ ∃ e : EvalError, e.kind = .invalidName ∧
      ∀ s, evaluate 3 .unlimited Store.globalFrame (.pair (.symbol "define") named) s =
        .error (.error e) s) ∧
      Form.sequence.WellShaped sequence ∧ ∃ sub part s₁, Form.sequence.Asks
        (oneLevelDown .unlimited (evaluate 2)) (evaluate 2 .unlimited) Store.globalFrame
        Store.initial sequence sub part s₁ ∧
        sub Store.globalFrame part s₁ = .error (.error (.malformedForm .ifCount)) left := by
  intro inner named sequence left
  have misnamed : ¬ Form.definition.WellShaped named := by
    rintro ⟨name, expr, same⟩
    simp [named, Value.ofList, Value.chain] at same
  have ok : Form.sequence.WellShaped sequence := ⟨[inner, .ofList [.symbol "if"]], rfl⟩
  have stops : evaluate 3 .unlimited Store.globalFrame (.pair (.symbol "begin") sequence)
      Store.initial = .error (.error (.malformedForm .ifCount)) left := rfl
  obtain ⟨e, -, kind, unchanged⟩ := (shapes_checked_before_effects .definition named).1 misnamed
  have isNamed := kind.mpr ⟨rfl, .number ⟨0⟩, inner, rfl, by simp⟩
  exact ⟨⟨misnamed, e, isNamed, unchanged 2 .unlimited Store.globalFrame⟩, ok,
    (shapes_checked_before_effects .sequence sequence).2 ok 2 .unlimited Store.globalFrame
      Store.initial _ _ stops⟩

end Schemelet
