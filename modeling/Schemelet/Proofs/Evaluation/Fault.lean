import Schemelet.Proofs.Evaluation.Transition
import Schemelet.Proofs.Value.Procedure

/-! All the errors that the second half of a step can raise, each with the data that it carries. A
form fails for its shape only, and an application for what its operator is or for the arguments. -/

namespace Schemelet

inductive Faults (env : FrameId) (vs : List Value) (s : Store) : Value → EvalError → Prop where
  | unbound {name : String} (free : s.lookup? env name = none) :
      Faults env vs s (.symbol name) (.undefinedVariable name)
  | misshapen {operands : Value} {e : EvalError} (form : Form) (fault : form.Misshapen operands e) :
      Faults env vs s (.pair (.symbol form.name) operands) e
  | notAProcedure {operator operands p : Value} (first : p = vs.headD .unspecified)
      (noPrimitive : ∀ q, p ≠ .primitive q)
      (noClosure : ∀ params body frame, p ≠ .closure params body frame) :
      Faults env vs s (.pair operator operands) (.notAProcedure p)
  | closureArity {operator operands body : Value} {params : List String} {frame : FrameId}
      {args : List Value} (values : vs = .closure params body frame :: args)
      (count : args.length ≠ params.length) :
      Faults env vs s (.pair operator operands)
        (.arityMismatch (Value.closureText params) params.length args.length)
  | primitive {operator operands : Value} {p : Primitive} {args : List Value} {e : EvalError}
      (values : vs = .primitive p :: args) (run : p.run args = .error e) :
      Faults env vs s (.pair operator operands) e

theorem Primitive.error_of_run {p : Primitive} {args : List Value} {e : EvalError}
    (run : p.run args = .error e) :
    e = .arityMismatch p.name p.arity args.length ∨ (∃ v ∈ args, e = .numberExpected p v) ∨
      e = .pairExpected p := by
  have numbers {f : Number → Number → Value} {v w : Value} (run : p.onNumbers f v w = .error e) :
      ∃ u ∈ [v, w], e = .numberExpected p u := by
    cases v with
    | number x =>
      cases w with
      | number y => cases run
      | _ =>
        cases run
        exact ⟨_, List.mem_cons_of_mem _ List.mem_cons_self, rfl⟩
    | _ =>
      cases run
      exact ⟨_, List.mem_cons_self, rfl⟩
  have pair {f : Value → Value → Value} {v : Value} (run : p.onPair f v = .error e) :
      e = .pairExpected p := by
    cases v with
    | pair a d => cases run
    | _ =>
      cases run
      rfl
  unfold Primitive.run at run
  split at run
  case h_1 | h_2 | h_3 | h_4 | h_5 | h_6 | h_7 | h_8 | h_9 => exact Or.inr (Or.inl (numbers run))
  case h_12 | h_13 => exact Or.inr (Or.inr (pair run))
  case h_10 | h_11 | h_14 | h_15 => cases run
  case h_16 =>
    cases run
    exact Or.inl rfl

variable {env : FrameId} {vs : List Value} {s s' : Store} {h : Halt}

theorem Form.misshapen_of_finish {form : Form} {operands : Value}
    (stops : form.finish env operands vs s = .error h s') :
    ∃ e, h = .error e ∧ form.Misshapen operands e := by
  have known (fault : ∃ e, form.Misshapen operands e) :
      ∃ e, h = .error e ∧ form.Misshapen operands e := by
    obtain ⟨e, fault⟩ := fault
    rw [Form.finish_of_misshapen fault] at stops
    cases stops
    exact ⟨e, rfl, fault⟩
  cases form with
  | quotation =>
    rcases Form.quotation_cases operands with fault | ⟨v, shape⟩
    · exact known fault
    · rw [Form.finish_quotation env shape] at stops
      cases stops
  | conditional =>
    rcases Form.conditional_cases operands with fault | ⟨test, yes, no, shape⟩
    · exact known fault
    · rw [Form.finish, Value.toList_of_some _ shape] at stops
      cases no <;> cases stops
  | abstraction =>
    rcases Form.closure_cases env operands with
      fault | ⟨list, body, bodies, params, shape, parameters, distinct, _⟩
    · exact known fault
    · rw [Form.finish_abstraction env shape parameters distinct] at stops
      cases stops
  | definition =>
    rcases Form.definition_cases operands with fault | ⟨name, expr, shape⟩
    · exact known fault
    · rw [Form.finish, Value.toList_of_some _ shape] at stops
      cases stops
  | sequence =>
    rcases Form.sequence_cases operands with fault | ⟨exprs, shape⟩
    · exact known fault
    · rw [Form.finish_sequence env shape] at stops
      cases isLast : exprs.getLast? with
      | some last =>
        rw [isLast] at stops
        cases stops
      | none =>
        rw [isLast] at stops
        cases stops

theorem faults_of_apply {operator operands : Value}
    (stops : apply (vs.headD .unspecified) vs.tail s = .error h s') :
    ∃ e, h = .error e ∧ Faults env vs s (.pair operator operands) e := by
  cases vs with
  | nil =>
    cases stops
    exact ⟨_, rfl, .notAProcedure rfl (by simp) (by simp)⟩
  | cons p args =>
    change apply p args s = .error h s' at stops
    cases p with
    | closure params body frame =>
      by_cases count : args.length = params.length
      · rw [apply, if_pos count] at stops
        cases stops
      · rw [apply, if_neg count] at stops
        cases stops
        exact ⟨_, rfl, .closureArity rfl count⟩
    | primitive p =>
      rw [apply] at stops
      cases run : p.run args with
      | ok v =>
        rw [run] at stops
        cases stops
      | error e =>
        rw [run] at stops
        cases stops
        exact ⟨e, rfl, .primitive rfl run⟩
    | _ =>
      cases stops
      exact ⟨_, rfl, .notAProcedure rfl (by simp) (by simp)⟩

theorem faults_of_finish {expr : Value} (stops : finish env vs expr s = .error h s') :
    ∃ e, h = .error e ∧ Faults env vs s expr e := by
  cases expr with
  | symbol name =>
    rw [finish, bind_apply, EvalM.lookup_apply] at stops
    cases bound : s.lookup? env name with
    | some v =>
      rw [bound] at stops
      cases stops
    | none =>
      rw [bound] at stops
      cases stops
      exact ⟨_, rfl, .unbound bound⟩
  | pair operator operands =>
    rcases form_or_plain operator with ⟨form, rfl⟩ | plain
    · rw [finish_form] at stops
      obtain ⟨e, known, fault⟩ := Form.misshapen_of_finish stops
      exact ⟨e, known, .misshapen form fault⟩
    · rw [finish, Form.ofOperator?_eq_none plain] at stops
      exact faults_of_apply stops
  | _ => cases stops

def EvalError.values : EvalError → List Value
  | .notAProcedure v | .invalidName v | .malformedForm (.parameterNotSymbol v)
  | .numberExpected _ v => [v]
  | _ => []

theorem mem_procedures_of_faults {env : FrameId} {vs : List Value} {s : Store} {expr v p : Value}
    {e : EvalError} (fault : Faults env vs s expr e) (carried : v ∈ e.values)
    (inside : p ∈ v.procedures) : p ∈ expr.procedures ∨ ∃ w ∈ vs, p ∈ w.procedures := by
  cases fault with
  | unbound => cases carried
  | misshapen form fault =>
    left
    apply List.mem_append_right
    cases fault with
    | parameterNotSymbol shape parameters noSymbol =>
      rw [List.mem_singleton.mp carried] at inside
      have listed := Value.mem_procedures_of_toList? parameters
        (List.mem_append_right _ List.mem_cons_self) inside
      exact Value.mem_procedures_of_toList? shape List.mem_cons_self listed
    | defineName shape noSymbol =>
      rw [List.mem_singleton.mp carried] at inside
      exact Value.mem_procedures_of_toList? shape List.mem_cons_self inside
    | _ => cases carried
  | notAProcedure first =>
    right
    rw [List.mem_singleton.mp carried, first] at inside
    cases vs with
    | nil => cases inside
    | cons w vs => exact ⟨w, List.mem_cons_self, inside⟩
  | closureArity => cases carried
  | primitive values run =>
    subst values
    rcases Primitive.error_of_run run with rfl | ⟨w, member, rfl⟩ | rfl
    · cases carried
    · rw [List.mem_singleton.mp carried] at inside
      exact Or.inr ⟨w, List.mem_cons_of_mem _ member, inside⟩
    · cases carried

end Schemelet
