import Schemelet.Proofs.Evaluation.Rules
import Schemelet.Proofs.Evaluation.Run

/-! Evaluation by steps agrees with the rules. Runs stand between the two: a derivation and a run
have the same parts, and differ in that a run takes the part in tail position at its own level.
Main statement: an evaluation ends with an outcome and a store exactly when the rules derive
them. -/

namespace Schemelet

variable {cut : Halt → Prop}

def Outcome.result {α : Type} (s : Store) : Outcome α → EStateM.Result Halt Store α
  | .ok a => .ok a s
  | .error e => .error (.error e) s

theorem Primitive.run_arity {p : Primitive} {args : List Value} (count : args.length ≠ p.arity) :
    p.run args = .error (.arityMismatch p.name p.arity args.length) := by
  unfold run
  split
  case h_16 => rfl
  all_goals exact absurd rfl count

theorem apply_primitive (p : Primitive) (args : List Value) (s : Store) {r}
    (run : r = Outcome.result s (p.run args)) : Continues cut r (apply (.primitive p) args s) := by
  subst run
  rw [apply, bind_apply]
  cases p.run args <;> rfl

def RunsSequence (cut : Halt → Prop) (env : FrameId) (exprs : List Value) (s : Store)
    (r : EStateM.Result Halt Store Value) : Prop :=
  (∃ h s', r = .error h s' ∧ RunsAll cut env exprs.dropLast s (.error h s')) ∨
    ∃ vs s₁, RunsAll cut env exprs.dropLast s (.ok vs s₁) ∧
      match exprs.getLast? with
      | some last => Runs cut env last s₁ r
      | none => r = .ok .unspecified s₁

theorem Runs.form {env : FrameId} {operands : Value} {exprs vs : List Value} {s s₁ : Store}
    {r : EStateM.Result Halt Store Value} (form : Form) (demanded : form.demands operands = exprs)
    (first : RunsAll cut env exprs s (.ok vs s₁))
    (rest : Continues cut r (form.finish env operands vs s₁)) :
    Runs cut env (.pair (.symbol form.name) operands) s r := by
  subst demanded
  rw [← demands_form] at first
  rw [← finish_form] at rest
  exact .finishes first rest

theorem Runs.formFails {env : FrameId} {operands : Value} {exprs : List Value} {s s' : Store}
    {h : Halt} (form : Form) (demanded : form.demands operands = exprs)
    (first : RunsAll cut env exprs s (.error h s')) :
    Runs cut env (.pair (.symbol form.name) operands) s (.error h s') := by
  subst demanded
  rw [← demands_form] at first
  exact .demandFails first

theorem Runs.sequence {env : FrameId} {operands : Value} {exprs : List Value} {s : Store}
    {r : EStateM.Result Halt Store Value} (shape : operands.toList? = some exprs)
    (run : RunsSequence cut env exprs s r) :
    Runs cut env (.pair (.symbol "begin") operands) s r := by
  rcases run with ⟨h, s', rfl, fails⟩ | ⟨vs, s₁, first, rest⟩
  · exact .formFails .sequence (Form.demands_sequence shape) fails
  · refine .form .sequence (Form.demands_sequence shape) first ?_
    rw [Form.finish_sequence env shape]
    cases isLast : exprs.getLast? with
    | some last =>
      rw [isLast] at rest
      exact rest
    | none =>
      rw [isLast] at rest
      exact rest

mutual
theorem runs_of_evaluates {s s' : Store} {env : FrameId} {expr : Value} {o : Outcome Value} :
    Evaluates s env expr o s' → Runs cut env expr s (o.result s')
  | .variable bound => by
    refine .finishes .nil ?_
    rw [finish, bind_apply, EvalM.lookup_apply, bound]
    rfl
  | .unbound free => by
    refine .finishes .nil ?_
    rw [finish, bind_apply, EvalM.lookup_apply, free]
    rfl
  | .constant noSymbol noPair => by
    cases expr with
    | symbol name => exact absurd rfl (noSymbol name)
    | pair a d => exact absurd rfl (noPair a d)
    | _ => exact .finishes .nil rfl
  | .misshapen form fault => by
    refine .form form (Form.demands_of_misshapen fault) .nil ?_
    rw [Form.finish_of_misshapen fault]
    rfl
  | .quotation shape => by
    refine .form .quotation rfl .nil ?_
    rw [Form.finish_quotation _ shape]
    rfl
  | .testError shape fails =>
    .formFails .conditional (Form.demands_conditional shape) (.headFails (runs_of_evaluates fails))
  | .thenBranch shape tested notFalse branch => by
    refine .form .conditional (Form.demands_conditional shape)
      (.cons (runs_of_evaluates tested) .nil) ?_
    rw [Form.finish_conditional_true _ shape notFalse]
    exact runs_of_evaluates branch
  | .elseBranch shape tested branch => by
    refine .form .conditional (@Form.demands_conditional _ _ _ (some _) shape)
      (.cons (runs_of_evaluates tested) .nil) ?_
    rw [Form.finish_conditional_else _ shape]
    exact runs_of_evaluates branch
  | .noBranch shape tested => by
    refine .form .conditional (@Form.demands_conditional _ _ _ none shape)
      (.cons (runs_of_evaluates tested) .nil) ?_
    rw [Form.finish_conditional_none _ shape]
    rfl
  | .abstraction shape parameters distinct => by
    refine .form .abstraction rfl .nil ?_
    rw [Form.finish_abstraction _ shape parameters distinct]
    rfl
  | .definitionError shape fails =>
    .formFails .definition (Form.demands_definition shape) (.headFails (runs_of_evaluates fails))
  | .definition shape value => by
    refine .form .definition (Form.demands_definition shape)
      (.cons (runs_of_evaluates value) .nil) ?_
    rw [Form.finish_definition _ shape]
    rfl
  | .sequence shape inOrder => .sequence shape (runs_of_sequence inOrder)
  | .operatorError plain fails => by
    apply Runs.demandFails
    rw [demands_application plain]
    exact .headFails (runs_of_evaluates fails)
  | .operandError plain procedure fails => by
    apply Runs.demandFails
    rw [demands_application plain]
    exact .tailFails (runs_of_evaluates procedure) (runsAll_of_evaluates fails)
  | .application plain procedure arguments applied => by
    have demanded := RunsAll.cons (runs_of_evaluates procedure) (runsAll_of_evaluates arguments)
    rw [← demands_application plain] at demanded
    refine .finishes demanded ?_
    rw [finish_application plain]
    exact continues_of_applies applied

theorem runsAll_of_evaluates {s s' : Store} {env : FrameId} {exprs : List Value}
    {o : Outcome (List Value)} :
    EvaluatesOperands s env exprs o s' → RunsAll cut env exprs s (o.result s')
  | .nil => .nil
  | .cons head tail => .cons (runs_of_evaluates head) (runsAll_of_evaluates tail)
  | .headError fails => .headFails (runs_of_evaluates fails)
  | .tailError head fails => .tailFails (runs_of_evaluates head) (runsAll_of_evaluates fails)

theorem runs_of_sequence {s s' : Store} {env : FrameId} {exprs : List Value} {o : Outcome Value} :
    EvaluatesSequence s env exprs o s' → RunsSequence cut env exprs s (o.result s')
  | .nil => .inr ⟨[], s, .nil, rfl⟩
  | .last value => .inr ⟨[], s, .nil, runs_of_evaluates value⟩
  | .cons head tail => by
    rcases runs_of_sequence tail with ⟨h, s', same, fails⟩ | ⟨vs, s₁, first, rest⟩
    · exact .inl ⟨h, s', same, .tailFails (runs_of_evaluates head) fails⟩
    · exact .inr ⟨_, s₁, .cons (runs_of_evaluates head) first, rest⟩
  | .headError fails => .inl ⟨_, _, rfl, .headFails (runs_of_evaluates fails)⟩

theorem continues_of_applies {s s' : Store} {p : Value} {args : List Value} {o : Outcome Value} :
    Applies s p args o s' → Continues cut (o.result s') (apply p args s)
  | .notAProcedure noPrimitive noClosure => by
    cases p with
    | primitive q => exact absurd rfl (noPrimitive q)
    | closure params body frame => exact absurd rfl (noClosure params body frame)
    | _ => rfl
  | .primitiveArity count => by
    apply apply_primitive
    rw [Primitive.run_arity count]
  | .primitive count => apply_primitive _ _ _ rfl
  | .closureArity count => by
    rw [apply, if_neg count]
    rfl
  | .closure count value => by
    rw [apply, if_pos count]
    exact runs_of_evaluates value
end

def Concludes (o : Outcome Value) (s' : Store) : EStateM.Result Halt Store Transition → Prop
  | .error h s => s' = s ∧ ∃ e, h = .error e ∧ o = .error e
  | .ok (.done v) s => s' = s ∧ o = .ok v
  | .ok (.tail expr env) s => Evaluates s env expr o s'

theorem applies_of_concludes {s s' : Store} {p : Value} {args : List Value} {o : Outcome Value}
    (rest : Concludes o s' (apply p args s)) : Applies s p args o s' := by
  cases p with
  | closure params body frame =>
    by_cases count : args.length = params.length
    · rw [apply, if_pos count] at rest
      exact .closure count rest
    · rw [apply, if_neg count] at rest
      obtain ⟨rfl, e, known, rfl⟩ := rest
      cases known
      exact .closureArity count
  | primitive p =>
    by_cases count : args.length = p.arity
    · have whole : s' = s ∧ o = p.run args := by
        rw [apply] at rest
        cases run : p.run args with
        | ok v =>
          rw [run] at rest
          exact rest
        | error e =>
          rw [run] at rest
          obtain ⟨same, e', known, rfl⟩ := rest
          cases known
          exact ⟨same, rfl⟩
      obtain ⟨rfl, rfl⟩ := whole
      exact .primitive count
    · rw [apply, Primitive.run_arity count] at rest
      obtain ⟨rfl, e, known, rfl⟩ := rest
      cases known
      exact .primitiveArity count
  | _ =>
    obtain ⟨rfl, e, known, rfl⟩ := rest
    cases known
    exact .notAProcedure (by simp) (by simp)

theorem evaluates_of_misshapen {s s₁ s' : Store} {env : FrameId} {operands : Value}
    {vs : List Value} {form : Form} {e : EvalError} {o : Outcome Value}
    (fault : form.Misshapen operands e)
    (first : EvaluatesOperands s env (form.demands operands) (.ok vs) s₁)
    (rest : Concludes o s' (form.finish env operands vs s₁)) :
    Evaluates s env (.pair (.symbol form.name) operands) o s' := by
  rw [Form.demands_of_misshapen fault] at first
  rw [Form.finish_of_misshapen fault] at rest
  cases first
  obtain ⟨rfl, e', known, rfl⟩ := rest
  cases known
  exact .misshapen form fault

theorem evaluates_of_form {s s₁ s' : Store} {env : FrameId} {operands : Value} {vs : List Value}
    {form : Form} {o : Outcome Value}
    (first : EvaluatesOperands s env (form.demands operands) (.ok vs) s₁)
    (rest : Concludes o s' (form.finish env operands vs s₁)) :
    Evaluates s env (.pair (.symbol form.name) operands) o s' := by
  cases form with
  | quotation =>
    rcases Form.quotation_cases operands with ⟨e, fault⟩ | ⟨v, shape⟩
    · exact evaluates_of_misshapen fault first rest
    · cases first
      rw [Form.finish_quotation env shape] at rest
      obtain ⟨rfl, rfl⟩ := rest
      exact .quotation shape
  | conditional =>
    rcases Form.conditional_cases operands with ⟨e, fault⟩ | ⟨test, yes, no, shape⟩
    · exact evaluates_of_misshapen fault first rest
    · rw [Form.demands_conditional shape] at first
      obtain ⟨v, rfl, tested⟩ := first.of_single
      by_cases isFalse : v = .bool false
      · subst isFalse
        cases no with
        | none =>
          rw [Form.finish_conditional_none env shape] at rest
          obtain ⟨rfl, rfl⟩ := rest
          exact .noBranch shape tested
        | some no =>
          rw [Form.finish_conditional_else env shape] at rest
          exact .elseBranch shape tested rest
      · rw [Form.finish_conditional_true env shape isFalse] at rest
        exact .thenBranch shape tested isFalse rest
  | abstraction =>
    rcases Form.closure_cases env operands with
      ⟨e, fault⟩ | ⟨list, body, bodies, params, shape, parameters, distinct, _⟩
    · exact evaluates_of_misshapen fault first rest
    · cases first
      rw [Form.finish_abstraction env shape parameters distinct] at rest
      obtain ⟨rfl, rfl⟩ := rest
      exact .abstraction shape parameters distinct
  | definition =>
    rcases Form.definition_cases operands with ⟨e, fault⟩ | ⟨name, expr, shape⟩
    · exact evaluates_of_misshapen fault first rest
    · rw [Form.demands_definition shape] at first
      obtain ⟨v, rfl, value⟩ := first.of_single
      rw [Form.finish_definition env shape] at rest
      obtain ⟨rfl, rfl⟩ := rest
      exact .definition shape value
  | sequence =>
    rcases Form.sequence_cases operands with ⟨e, fault⟩ | ⟨exprs, shape⟩
    · exact evaluates_of_misshapen fault first rest
    · rw [Form.demands_sequence shape] at first
      rw [Form.finish_sequence env shape] at rest
      cases isLast : exprs.getLast? with
      | some last =>
        rw [isLast] at rest
        exact .sequence shape (.of_last first isLast rest)
      | none =>
        rw [isLast] at rest
        obtain rfl := List.getLast?_eq_none_iff.mp isLast
        cases first
        obtain ⟨rfl, rfl⟩ := rest
        exact .sequence shape .nil

theorem evaluates_of_formError {s s' : Store} {env : FrameId} {operands : Value} {form : Form}
    {e : EvalError} (first : EvaluatesOperands s env (form.demands operands) (.error e) s') :
    Evaluates s env (.pair (.symbol form.name) operands) (.error e) s' := by
  -- A form of the wrong shape demands nothing, so it is not among the cases.
  have wellShaped : ¬ ∃ e, form.Misshapen operands e := by
    rintro ⟨e, fault⟩
    rw [Form.demands_of_misshapen fault] at first
    cases first
  cases form with
  | quotation => cases first
  | abstraction => cases first
  | conditional =>
    obtain ⟨test, yes, no, shape⟩ := (Form.conditional_cases operands).resolve_left wellShaped
    rw [Form.demands_conditional shape] at first
    exact .testError shape first.error_of_single
  | definition =>
    obtain ⟨name, expr, shape⟩ := (Form.definition_cases operands).resolve_left wellShaped
    rw [Form.demands_definition shape] at first
    exact .definitionError shape first.error_of_single
  | sequence =>
    obtain ⟨exprs, shape⟩ := (Form.sequence_cases operands).resolve_left wellShaped
    rw [Form.demands_sequence shape] at first
    exact .sequence shape (.of_error first)

theorem evaluates_of_demandError {s s' : Store} {env : FrameId} {expr : Value} {e : EvalError}
    (first : EvaluatesOperands s env (demands expr) (.error e) s') :
    Evaluates s env expr (.error e) s' := by
  cases expr with
  | pair operator operands =>
    rcases form_or_plain operator with ⟨form, rfl⟩ | plain
    · rw [demands_form] at first
      exact evaluates_of_formError first
    · rw [demands_application plain] at first
      cases first with
      | headError fails => exact .operatorError plain fails
      | tailError head fails => exact .operandError plain head fails
  | _ => cases first

theorem evaluates_of_concludes {s s₁ s' : Store} {env : FrameId} {expr : Value} {vs : List Value}
    {o : Outcome Value} (first : EvaluatesOperands s env (demands expr) (.ok vs) s₁)
    (rest : Concludes o s' (finish env vs expr s₁)) : Evaluates s env expr o s' := by
  cases expr with
  | symbol name =>
    cases first
    rw [finish, bind_apply, EvalM.lookup_apply] at rest
    cases bound : s.lookup? env name with
    | some v =>
      rw [bound] at rest
      obtain ⟨rfl, rfl⟩ := rest
      exact .variable bound
    | none =>
      rw [bound] at rest
      obtain ⟨rfl, e, known, rfl⟩ := rest
      cases known
      exact .unbound bound
  | pair operator operands =>
    rcases form_or_plain operator with ⟨form, rfl⟩ | plain
    · rw [demands_form] at first
      rw [finish_form] at rest
      exact evaluates_of_form first rest
    · rw [demands_application plain] at first
      cases first with
      | cons head tail =>
        rw [finish_application plain] at rest
        exact .application plain head tail (applies_of_concludes rest)
  | _ =>
    cases first
    obtain ⟨rfl, rfl⟩ := rest
    exact .constant (by simp) (by simp)

theorem Outcome.result_ok {α : Type} {o : Outcome α} {a : α} {s s' : Store}
    (same : EStateM.Result.ok a s = o.result s') : o = .ok a ∧ s' = s := by
  cases o with
  | ok b =>
    cases same
    exact ⟨rfl, rfl⟩
  | error e => cases same

theorem Outcome.result_error {α : Type} {o : Outcome α} {h : Halt} {s s' : Store}
    (same : EStateM.Result.error h s = o.result s') :
    s' = s ∧ ∃ e, h = .error e ∧ o = .error e := by
  cases o with
  | ok b => cases same
  | error e =>
    cases same
    exact ⟨rfl, e, rfl, rfl⟩

-- The premises are taken before the outcome is known, so that they stay the premises of the run.
mutual
theorem evaluates_of_runs {s : Store} {env : FrameId} {expr : Value}
    {r : EStateM.Result Halt Store Value} :
    Runs (· = .outOfSteps) env expr s r → ∀ (o : Outcome Value) (s' : Store), r = o.result s' →
      Evaluates s env expr o s'
  | .cut cause, o, s', same => by
    obtain ⟨-, e, impossible, -⟩ := Outcome.result_error same
    cases cause.symm.trans impossible
  | .demandFails first, o, s', same => by
    have demanded := evaluatesOperands_of_runs first
    obtain ⟨rfl, e, rfl, rfl⟩ := Outcome.result_error same
    exact evaluates_of_demandError (demanded (.error e) _ rfl)
  | .fails first rest, o, s', same => by
    have demanded := evaluatesOperands_of_runs first (.ok _) _ rfl
    refine evaluates_of_concludes demanded ?_
    rw [rest]
    exact Outcome.result_error same
  | .done first rest, o, s', same => by
    have demanded := evaluatesOperands_of_runs first (.ok _) _ rfl
    refine evaluates_of_concludes demanded ?_
    rw [rest]
    exact (Outcome.result_ok same).symm
  | .tail first rest next, o, s', same => by
    have demanded := evaluatesOperands_of_runs first (.ok _) _ rfl
    refine evaluates_of_concludes demanded ?_
    rw [rest]
    exact evaluates_of_runs next o s' same

theorem evaluatesOperands_of_runs {s : Store} {env : FrameId} {exprs : List Value}
    {r : EStateM.Result Halt Store (List Value)} :
    RunsAll (· = .outOfSteps) env exprs s r → ∀ (o : Outcome (List Value)) (s' : Store),
      r = o.result s' → EvaluatesOperands s env exprs o s'
  | .nil, o, s', same => by
    obtain ⟨rfl, rfl⟩ := Outcome.result_ok same
    exact .nil
  | .cons head tail, o, s', same => by
    have first := evaluates_of_runs head (.ok _) _ rfl
    have rest := evaluatesOperands_of_runs tail (.ok _) _ rfl
    obtain ⟨rfl, rfl⟩ := Outcome.result_ok same
    exact .cons first rest
  | .headFails head, o, s', same => by
    have first := evaluates_of_runs head
    obtain ⟨rfl, e, rfl, rfl⟩ := Outcome.result_error same
    exact .headError (first (.error e) _ rfl)
  | .tailFails head tail, o, s', same => by
    have first := evaluates_of_runs head (.ok _) _ rfl
    have rest := evaluatesOperands_of_runs tail
    obtain ⟨rfl, e, rfl, rfl⟩ := Outcome.result_error same
    exact .tailError first (rest (.error e) _ rfl)
end

/-- Without a limit and with enough steps, the evaluation has this outcome and leaves this store. -/
def EndsWith (env : FrameId) (expr : Value) (s : Store) (o : Outcome Value) (s' : Store) : Prop :=
  ∃ enough, ∀ steps, enough ≤ steps → evaluate steps .unlimited env expr s = o.result s'

/-- Without a limit, no number of steps suffices for the evaluation. -/
def Diverges (env : FrameId) (expr : Value) (s : Store) : Prop :=
  ∀ steps, ∃ s', evaluate steps .unlimited env expr s = .error .outOfSteps s'

theorem unlimited_covers : Limit.unlimited.Covers (· = .outOfSteps) := ⟨rfl, .inl rfl⟩

theorem Outcome.ended {α : Type} (o : Outcome α) (s : Store) : Ended (o.result s) := by
  intro h s' same
  obtain ⟨-, e, known, -⟩ := Outcome.result_error same.symm
  exact ⟨e, known⟩

theorem evaluates_of_evaluate {steps : Nat} {env : FrameId} {expr : Value} {s s' : Store}
    {o : Outcome Value} (run : evaluate steps .unlimited env expr s = o.result s') :
    Evaluates s env expr o s' :=
  evaluates_of_runs (evaluate_runs steps unlimited_covers env expr s) o s' run

theorem endsWith_of_evaluates {env : FrameId} {expr : Value} {s s' : Store} {o : Outcome Value}
    (derived : Evaluates s env expr o s') : EndsWith env expr s o s' := by
  obtain ⟨enough, run⟩ := evaluate_of_runs (runs_of_evaluates derived) (o.ended s')
  refine ⟨enough, fun steps le => ?_⟩
  exact (evaluate_le le .unlimited env expr).of_ended run (o.ended s')

theorem diverges_or_evaluates (steps : Nat) (env : FrameId) (expr : Value) (s : Store) :
    (∃ s', evaluate steps .unlimited env expr s = .error .outOfSteps s') ∨
      ∃ o s', Evaluates s env expr o s' := by
  have run := evaluate_runs steps unlimited_covers env expr s
  cases result : evaluate steps .unlimited env expr s with
  | ok v s' =>
    rw [result] at run
    exact .inr ⟨.ok v, s', evaluates_of_runs run (.ok v) s' rfl⟩
  | error h s' =>
    rw [result] at run
    rcases error_of_runs run h s' rfl with rfl | ⟨e, rfl⟩
    · exact .inl ⟨s', rfl⟩
    · exact .inr ⟨.error e, s', evaluates_of_runs run (.error e) s' rfl⟩

theorem diverges_or_endsWith (env : FrameId) (expr : Value) (s : Store) :
    Diverges env expr s ∨ ∃ o s', EndsWith env expr s o s' := by
  by_cases derived : ∃ o s', Evaluates s env expr o s'
  · obtain ⟨o, s', derived⟩ := derived
    exact Or.inr ⟨o, s', endsWith_of_evaluates derived⟩
  · left
    intro steps
    exact (diverges_or_evaluates steps env expr s).resolve_right derived

/-- Evaluation by steps and the rules agree: they have the same outcomes with the same stores, and
an evaluation diverges exactly when no rule applies to the end. -/
theorem evaluation_ends_as_derived (env : FrameId) (expr : Value) (s : Store) :
    (∀ o s', EndsWith env expr s o s' ↔ Evaluates s env expr o s') ∧
      (Diverges env expr s ↔ ¬ ∃ o s', Evaluates s env expr o s') := by
  refine ⟨fun o s' => ⟨?_, endsWith_of_evaluates⟩, ?_, ?_⟩
  · rintro ⟨enough, run⟩
    exact evaluates_of_evaluate (run enough (Nat.le_refl enough))
  · rintro diverges ⟨o, s', derived⟩
    obtain ⟨enough, run⟩ := endsWith_of_evaluates derived
    obtain ⟨s₁, cut⟩ := diverges enough
    have both := cut.symm.trans (run enough (Nat.le_refl enough))
    obtain ⟨-, e, impossible, -⟩ := Outcome.result_error both
    cases impossible
  · intro underivable steps
    exact (diverges_or_evaluates steps env expr s).resolve_right underivable

end Schemelet
