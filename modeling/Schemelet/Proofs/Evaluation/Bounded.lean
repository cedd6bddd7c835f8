import Schemelet.Proofs.Evaluation.Raising

/-! Values that come out within bounds, by rules for expressions. A part lies one level below the
expression it is a part of; what is in tail position lies on the same level and comes one step
later. -/

namespace Schemelet

def Yields (levels steps : Nat) (env : FrameId) (expr : Value) (s : Store) (v : Value)
    (s' : Store) : Prop :=
  evaluate steps (.atMost levels) env expr s = .ok v s'

def YieldsAll (levels steps : Nat) (env : FrameId) (exprs : List Value) (s : Store)
    (vs : List Value) (s' : Store) : Prop :=
  evaluateOperands (evaluate steps (.atMost levels)) env exprs s = .ok vs s'

section

variable {levels steps : Nat} {env : FrameId} {expr v : Value} {exprs vs : List Value}
  {s s₁ s' : Store}

theorem Yields.within (known : Yields levels steps env expr s v s') {limit : Limit}
    (le : (Limit.atMost levels).Le limit) {more : Nat} (enough : steps ≤ more) :
    evaluate more limit env expr s = .ok v s' :=
  (evaluate_raised more le env expr).of_ok ((evaluate_le enough _ env expr).of_ok known)

theorem Yields.mono (known : Yields levels steps env expr s v s') {higher more : Nat}
    (le : levels ≤ higher) (enough : steps ≤ more) : Yields higher more env expr s v s' :=
  known.within (show (Limit.atMost levels).Le (.atMost higher) from le) enough

theorem YieldsAll.mono (known : YieldsAll levels steps env exprs s vs s') {more : Nat}
    (enough : steps ≤ more) : YieldsAll levels more env exprs s vs s' :=
  (evaluateOperands_le enough _ env exprs).of_ok known

theorem YieldsAll.nil : YieldsAll levels steps env [] s [] s := rfl

theorem YieldsAll.cons (head : Yields levels steps env expr s v s₁)
    (tail : YieldsAll levels steps env exprs s₁ vs s') :
    YieldsAll levels steps env (expr :: exprs) s (v :: vs) s' := by
  rw [YieldsAll, evaluateOperands, bind_of_ok head, bind_of_ok tail]
  rfl

theorem Yields.done (first : YieldsAll levels steps env (demands expr) s vs s₁)
    (last : finish env vs expr s₁ = .ok (.done v) s') :
    Yields (levels + 1) (steps + 1) env expr s v s' := by
  rw [Yields, evaluate, step_eq, bind_assoc]
  exact (bind_of_ok first _).trans (bind_of_ok last _)

theorem Yields.tail {expr' : Value} {env' : FrameId} {s₂ : Store}
    (first : YieldsAll levels steps env (demands expr) s vs s₁)
    (last : finish env vs expr s₁ = .ok (.tail expr' env') s₂)
    (rest : Yields (levels + 1) steps env' expr' s₂ v s') :
    Yields (levels + 1) (steps + 1) env expr s v s' := by
  rw [Yields, evaluate, step_eq, bind_assoc]
  exact ((bind_of_ok first _).trans (bind_of_ok last _)).trans rest

end

section

variable {steps : Nat} {env : FrameId} {s : Store} {v : Value}

theorem Yields.variable {name : String} (bound : s.lookup? env name = some v) (levels : Nat) :
    Yields levels (steps + 1) env (.symbol name) s v s := by
  rw [Yields, evaluate, step, bind_assoc, bind_apply, EvalM.lookup_apply, bound]
  rfl

theorem Yields.quotation (env : FrameId) (v : Value) (s : Store) (levels : Nat) :
    Yields levels (steps + 1) env (.ofList [.symbol "quote", v]) s v s := rfl

end

section

variable {levels steps : Nat} {env : FrameId} {operands : Value} {s s₁ s' : Store} {name : String}
  {v : Value}

theorem plain_of_name (other : Form.ofName? name = none) (form : Form) :
    Value.symbol name ≠ .symbol form.name := by
  intro same
  have named : Form.ofName? name = some form := Form.ofOperator?_eq_some.mpr same
  rw [other] at named
  cases named

theorem YieldsAll.application {p : Value} {args : List Value} (other : Form.ofName? name = none)
    (bound : s.lookup? env name = some p)
    (arguments : YieldsAll levels (steps + 1) env operands.elements s args s') :
    YieldsAll levels (steps + 1) env (demands (.pair (.symbol name) operands)) s (p :: args)
      s' := by
  rw [demands_application (plain_of_name other)]
  exact .cons (.variable bound levels) arguments

theorem Yields.primitive {p : Primitive} {args : List Value} (other : Form.ofName? name = none)
    (bound : s.lookup? env name = some (.primitive p))
    (arguments : YieldsAll levels (steps + 1) env operands.elements s args s')
    (result : p.run args = .ok v) :
    Yields (levels + 1) (steps + 2) env (.pair (.symbol name) operands) s v s' := by
  refine Yields.done (.application other bound arguments) ?_
  rw [finish_application (plain_of_name other), apply, result]
  rfl

theorem Yields.call {params : List String} {body : Value} {frame : FrameId} {args : List Value}
    (other : Form.ofName? name = none)
    (bound : s.lookup? env name = some (.closure params body frame))
    (arguments : YieldsAll levels (steps + 1) env operands.elements s args s₁)
    (count : args.length = params.length)
    (value : Yields (levels + 1) (steps + 1) s₁.frames.size body
      (s₁.allocate (.ofBindings (some frame) (params.zip args))).2 v s') :
    Yields (levels + 1) (steps + 2) env (.pair (.symbol name) operands) s v s' := by
  refine Yields.tail (.application other bound arguments) ?_ value
  rw [finish_application (plain_of_name other), apply, if_pos count]
  rfl

theorem Yields.branch {test yes no t : Value} (shape : operands.toList? = some [test, yes, no])
    (tested : Yields levels steps env test s t s₁)
    (value : Yields (levels + 1) steps env (if t.isFalse then no else yes) s₁ v s') :
    Yields (levels + 1) (steps + 1) env (.pair (.symbol "if") operands) s v s' := by
  have parts : YieldsAll levels steps env (demands (.pair (.symbol "if") operands)) s [t] s₁ := by
    rw [demands_form .conditional, @Form.demands_conditional _ test yes (some no) shape]
    exact .cons tested .nil
  refine Yields.tail parts ?_ value
  rw [finish_form env _ .conditional, Form.finish, Value.toList_of_some _ shape]
  rfl

end

end Schemelet
