import Schemelet.Proofs.Evaluation.Shape

/-! All that the second half of a step can do: fail, give a value, define a name in the current
frame, hand on a part of the expression, or enter the body of a closure in a new frame. -/

namespace Schemelet

inductive Finishes (env : FrameId) (vs : List Value) (s : Store) :
    Value → EStateM.Result Halt Store Transition → Prop where
  | fails {expr : Value} (e : EvalError) : Finishes env vs s expr (.error (.error e) s)
  | constant {expr : Value} (noSymbol : ∀ name, expr ≠ .symbol name)
      (noPair : ∀ a d, expr ≠ .pair a d) : Finishes env vs s expr (.ok (.done expr) s)
  | variable {name : String} {v : Value} (bound : s.lookup? env name = some v) :
      Finishes env vs s (.symbol name) (.ok (.done v) s)
  | quoted {operands v : Value} (shape : operands.toList? = some [v]) :
      Finishes env vs s (.pair (.symbol "quote") operands) (.ok (.done v) s)
  | unspecified {operator operands : Value} :
      Finishes env vs s (.pair operator operands) (.ok (.done .unspecified) s)
  | closure {operands list body : Value} {bodies : List Value} {params : List String}
      (shape : operands.toList? = some (list :: body :: bodies))
      (parameters : list.toList? = some (params.map .symbol)) (distinct : params.Nodup) :
      Finishes env vs s (.pair (.symbol "lambda") operands)
        (.ok (.done (.closure params (Form.closureBody (body :: bodies)) env)) s)
  | define {operands expr : Value} {name : String}
      (shape : operands.toList? = some [.symbol name, expr]) :
      Finishes env vs s (.pair (.symbol "define") operands)
        (.ok (.done .unspecified) (s.define env name (vs.headD .unspecified)))
  | part {operator operands expr : Value} (part : expr ∈ operands.elements) :
      Finishes env vs s (.pair operator operands) (.ok (.tail expr env) s)
  | primitive {operator operands v : Value} {p : Primitive} {args : List Value}
      (values : vs = .primitive p :: args) (run : p.run args = .ok v) :
      Finishes env vs s (.pair operator operands) (.ok (.done v) s)
  | call {operator operands body : Value} {params : List String} {frame : FrameId}
      {args : List Value} (values : vs = .closure params body frame :: args)
      (count : args.length = params.length) :
      Finishes env vs s (.pair operator operands) (.ok (.tail body s.frames.size)
        (s.allocate (.ofBindings (some frame) (params.zip args))).2)

variable {env : FrameId} {vs : List Value} {s : Store}

theorem Form.finishes_of_misshapen {form : Form} {operands : Value} {e : EvalError}
    (fault : form.Misshapen operands e) (env : FrameId) (vs : List Value) (s : Store) :
    Finishes env vs s (.pair (.symbol form.name) operands) (form.finish env operands vs s) := by
  rw [Form.finish_of_misshapen fault]
  exact .fails e

theorem Form.finishes_conditional (env : FrameId) (vs : List Value) (s : Store) (operands : Value) :
    Finishes env vs s (.pair (.symbol "if") operands)
      (Form.finish env operands vs .conditional s) := by
  rcases Form.conditional_cases operands with ⟨e, fault⟩ | ⟨test, yes, no, shape⟩
  · exact Form.finishes_of_misshapen fault env vs s
  · have elements := Value.elements_of_toList? shape
    rw [Form.finish, Value.toList_of_some _ shape]
    cases no with
    | none =>
      change Finishes env vs s _ (.ok (if (vs.headD .unspecified).isFalse then .done .unspecified
        else .tail yes env) s)
      split
      · exact .unspecified
      · exact .part (by simp [elements])
    | some no =>
      change Finishes env vs s _ (.ok (.tail (if (vs.headD .unspecified).isFalse then no else yes)
        env) s)
      split
      · exact .part (by simp [elements])
      · exact .part (by simp [elements])

theorem Form.finishes (env : FrameId) (vs : List Value) (s : Store) (form : Form)
    (operands : Value) :
    Finishes env vs s (.pair (.symbol form.name) operands) (form.finish env operands vs s) := by
  cases form with
  | quotation =>
    rcases Form.quotation_cases operands with ⟨e, fault⟩ | ⟨v, shape⟩
    · exact Form.finishes_of_misshapen fault env vs s
    · rw [Form.finish_quotation env shape]
      exact .quoted shape
  | conditional => exact Form.finishes_conditional env vs s operands
  | abstraction =>
    rcases Form.closure_cases env operands with
      ⟨e, fault⟩ | ⟨list, body, bodies, params, shape, parameters, distinct, _⟩
    · exact Form.finishes_of_misshapen fault env vs s
    · rw [Form.finish_abstraction env shape parameters distinct]
      exact .closure shape parameters distinct
  | definition =>
    rcases Form.definition_cases operands with ⟨e, fault⟩ | ⟨name, expr, shape⟩
    · exact Form.finishes_of_misshapen fault env vs s
    · rw [Form.finish, Value.toList_of_some _ shape]
      exact .define shape
  | sequence =>
    rcases Form.sequence_cases operands with ⟨e, fault⟩ | ⟨exprs, shape⟩
    · exact Form.finishes_of_misshapen fault env vs s
    · rw [Form.finish_sequence env shape]
      cases isLast : exprs.getLast? with
      | none => exact .unspecified
      | some last =>
        refine .part ?_
        rw [Value.elements_of_toList? shape]
        exact List.mem_of_getLast? isLast

theorem apply_finishes (operator operands : Value) :
    Finishes env vs s (.pair operator operands) (apply (vs.headD .unspecified) vs.tail s) := by
  cases vs with
  | nil => exact .fails _
  | cons p args =>
    change Finishes env (p :: args) s (.pair operator operands) (apply p args s)
    cases p with
    | closure params body frame =>
      by_cases count : args.length = params.length
      · rw [apply, if_pos count]
        exact .call rfl count
      · rw [apply, if_neg count]
        exact .fails _
    | primitive p =>
      rw [apply]
      cases run : p.run args with
      | ok v => exact .primitive rfl run
      | error e => exact .fails e
    | _ => exact .fails _

theorem finish_finishes (env : FrameId) (vs : List Value) (s : Store) (expr : Value) :
    Finishes env vs s expr (finish env vs expr s) := by
  cases expr with
  | symbol name =>
    rw [finish, bind_apply, EvalM.lookup_apply]
    cases bound : s.lookup? env name with
    | some v => exact .variable bound
    | none => exact .fails _
  | pair operator operands =>
    rcases form_or_plain operator with ⟨form, rfl⟩ | plain
    · rw [finish_form]
      exact form.finishes env vs s operands
    · rw [finish, Form.ofOperator?_eq_none plain]
      exact apply_finishes operator operands
  | _ => exact .constant (by simp) (by simp)

/-- The second half of a step is never cut short. -/
theorem error_of_finish {expr : Value} {h : Halt} {s' : Store}
    (stops : finish env vs expr s = .error h s') : ∃ e, h = .error e := by
  have finished := finish_finishes env vs s expr
  rw [stops] at finished
  cases finished
  exact ⟨_, rfl⟩

end Schemelet
