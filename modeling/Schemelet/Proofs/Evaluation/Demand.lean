import Schemelet.Proofs.Evaluation.Computation

/-! A step in two halves: the parts of an expression that it evaluates first, one after the other,
and what it does with their values. Only the first half calls the evaluator, and only the second
looks at the expression. -/

namespace Schemelet

namespace Value

theorem elements_of_toList? {v : Value} {items : List Value} (proper : v.toList? = some items) :
    v.elements = items := by
  induction v generalizing items with
  | empty => simpa [toList?, elements] using proper
  | pair a d _ ih =>
    simp only [toList?, Option.map_eq_some_iff] at proper
    obtain ⟨rest, properRest, rfl⟩ := proper
    simp [elements, ih properRest]
  | _ => simp [toList?] at proper

theorem toList?_ofList (items : List Value) : (ofList items).toList? = some items := by
  induction items with
  | nil => rfl
  | cons item items ih =>
    change (ofList items).toList?.map (item :: ·) = some (item :: items)
    rw [ih]
    rfl

theorem toList?_eq_some_iff {v : Value} {items : List Value} :
    v.toList? = some items ↔ v = ofList items := by
  constructor
  · intro proper
    induction v generalizing items with
    | empty =>
      cases proper
      rfl
    | pair a d _ ih =>
      simp only [toList?, Option.map_eq_some_iff] at proper
      obtain ⟨rest, properRest, rfl⟩ := proper
      rw [ih properRest]
      rfl
    | _ => simp [toList?] at proper
  · rintro rfl
    exact toList?_ofList items

end Value

namespace Form

@[reducible] def name : Form → String
  | .quotation => "quote"
  | .conditional => "if"
  | .abstraction => "lambda"
  | .definition => "define"
  | .sequence => "begin"

def demands (operands : Value) : Form → List Value
  | .conditional =>
    match operands.toList? with
    | some [test, _] | some [test, _, _] => [test]
    | _ => []
  | .definition =>
    match operands.toList? with
    | some [.symbol _, expr] => [expr]
    | _ => []
  | .sequence =>
    match operands.toList? with
    | some exprs => exprs.dropLast
    | none => []
  | .quotation | .abstraction => []

def finish (env : FrameId) (operands : Value) (vs : List Value) : Form → EvalM Transition
  | .quotation => do
    match ← EvalM.ofExcept (operands.toList "quote form") with
    | [v] => pure (.done v)
    | _ => .fail (.malformedForm .quoteCount)
  | .conditional => do
    match ← EvalM.ofExcept (operands.toList "if form") with
    | [_, yes] =>
      pure (if (vs.headD .unspecified).isFalse then .done .unspecified else .tail yes env)
    | [_, yes, no] => pure (.tail (if (vs.headD .unspecified).isFalse then no else yes) env)
    | _ => .fail (.malformedForm .ifCount)
  | .abstraction => do
    let v ← EvalM.ofExcept (closure env operands)
    pure (.done v)
  | .definition => do
    match ← EvalM.ofExcept (operands.toList "define form") with
    | [.symbol name, _] =>
      EvalM.define env name (vs.headD .unspecified)
      pure (.done .unspecified)
    | [v, _] => .fail (.invalidName v)
    | _ => .fail (.malformedForm .defineCount)
  | .sequence => do
    let exprs ← EvalM.ofExcept (operands.toList "begin form")
    match exprs.getLast? with
    | some last => pure (.tail last env)
    | none => pure (.done .unspecified)

theorem ofOperator?_eq_some {operator : Value} {form : Form} :
    ofOperator? operator = some form ↔ operator = .symbol form.name := by
  constructor
  · intro named
    cases operator with
    | symbol text =>
      simp only [ofOperator?, ofName?] at named
      split at named <;> cases named <;> rfl
    | _ => simp [ofOperator?] at named
  · rintro rfl
    cases form <;> rfl

theorem runSequence_eq (eval : Evaluator) (env : FrameId) (exprs : List Value) :
    runSequence eval env exprs = (do
      let _ ← evaluateOperands eval env exprs.dropLast
      match exprs.getLast? with
      | some last => pure (.tail last env)
      | none => pure (.done .unspecified)) := by
  induction exprs with
  | nil => simp [runSequence, evaluateOperands]
  | cons expr exprs ih =>
    cases exprs with
    | nil => simp [runSequence, evaluateOperands]
    | cons next exprs =>
      rw [runSequence, ih]
      · simp [evaluateOperands]
      · simp

theorem step_eq (eval : Evaluator) (env : FrameId) (operands : Value) (form : Form) :
    form.step eval env operands =
      evaluateOperands eval env (form.demands operands) >>=
        fun vs => form.finish env operands vs := by
  cases form with
  | quotation => rfl
  | abstraction => simp [step, demands, finish, evaluateOperands]
  | conditional =>
    simp only [step, demands, finish, Value.toList]
    cases operands.toList? with
    | none => simp [evaluateOperands]
    | some items =>
      rcases items with _ | ⟨test, _ | ⟨yes, _ | ⟨no, _ | _⟩⟩⟩
      · simp [evaluateOperands]
      · simp [evaluateOperands]
      · simp only [EvalM.ofExcept_ok, evaluateOperands, pure_bind, bind_assoc]
        rfl
      · simp only [EvalM.ofExcept_ok, evaluateOperands, pure_bind, bind_assoc]
        rfl
      · simp [evaluateOperands]
  | definition =>
    simp only [step, demands, finish, Value.toList]
    cases operands.toList? with
    | none => simp [evaluateOperands]
    | some items =>
      rcases items with _ | ⟨target, _ | ⟨expr, _ | _⟩⟩
      · simp [evaluateOperands]
      · simp [evaluateOperands]
      · cases target <;> simp [evaluateOperands]
      · simp [evaluateOperands]
  | sequence =>
    simp only [step, demands, finish, Value.toList]
    cases operands.toList? with
    | none => simp [evaluateOperands]
    | some exprs => simp [runSequence_eq]

end Form

def demands : Value → List Value
  | .pair operator operands =>
    match Form.ofOperator? operator with
    | some form => form.demands operands
    | none => operator :: operands.elements
  | _ => []

def finish (env : FrameId) (vs : List Value) : Value → EvalM Transition
  | .symbol name => do
    let v ← EvalM.lookup env name
    pure (.done v)
  | .pair operator operands =>
    match Form.ofOperator? operator with
    | some form => form.finish env operands vs
    | none => apply (vs.headD .unspecified) vs.tail
  | v => pure (.done v)

theorem demands_form (form : Form) (operands : Value) :
    demands (.pair (.symbol form.name) operands) = form.demands operands := by
  rw [demands, Form.ofOperator?_eq_some.mpr rfl]

theorem finish_form (env : FrameId) (vs : List Value) (form : Form) (operands : Value) :
    finish env vs (.pair (.symbol form.name) operands) = form.finish env operands vs := by
  rw [finish, Form.ofOperator?_eq_some.mpr rfl]

theorem form_or_plain (operator : Value) :
    (∃ form : Form, operator = .symbol form.name) ∨
      ∀ form : Form, operator ≠ .symbol form.name := by
  cases named : Form.ofOperator? operator with
  | some form => exact .inl ⟨form, Form.ofOperator?_eq_some.mp named⟩
  | none =>
    refine .inr fun form same => ?_
    rw [Form.ofOperator?_eq_some.mpr same] at named
    cases named

section

variable {operator : Value} (plain : ∀ form : Form, operator ≠ .symbol form.name)

include plain

theorem Form.ofOperator?_eq_none : Form.ofOperator? operator = none := by
  cases named : Form.ofOperator? operator with
  | none => rfl
  | some form => exact absurd (Form.ofOperator?_eq_some.mp named) (plain form)

theorem demands_application (operands : Value) :
    demands (.pair operator operands) = operator :: operands.elements := by
  rw [demands, Form.ofOperator?_eq_none plain]

theorem finish_application (env : FrameId) (p : Value) (args : List Value) (operands : Value) :
    finish env (p :: args) (.pair operator operands) = apply p args := by
  rw [finish, Form.ofOperator?_eq_none plain]
  rfl

end

theorem step_eq (eval : Evaluator) (env : FrameId) (expr : Value) :
    step eval env expr =
      evaluateOperands eval env (demands expr) >>= fun vs => finish env vs expr := by
  cases expr with
  | pair operator operands =>
    simp only [step, demands, finish]
    cases Form.ofOperator? operator with
    | some form => exact form.step_eq eval env operands
    | none => simp [evaluateOperands]
  | _ => simp [step, demands, finish, evaluateOperands]

end Schemelet
