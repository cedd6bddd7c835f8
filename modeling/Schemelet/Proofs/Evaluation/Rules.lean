import Schemelet.Proofs.Evaluation.Shape

/-! Evaluation as a relation, by rules without steps, tail positions and limits: what is in tail
position is a premise like any other part. The first error ends everything and leaves the store as
it was changed so far. -/

namespace Schemelet

abbrev Outcome (α : Type) := Except EvalError α

mutual
/-- `Evaluates s env expr o s'`: in the store `s` and the frame `env` the expression has the outcome
`o` and leaves the store `s'`. -/
inductive Evaluates : Store → FrameId → Value → Outcome Value → Store → Prop where
  | variable {s : Store} {env : FrameId} {name : String} {v : Value}
      (bound : s.lookup? env name = some v) : Evaluates s env (.symbol name) (.ok v) s
  | unbound {s : Store} {env : FrameId} {name : String} (free : s.lookup? env name = none) :
      Evaluates s env (.symbol name) (.error (.undefinedVariable name)) s
  | constant {s : Store} {env : FrameId} {v : Value} (noSymbol : ∀ name, v ≠ .symbol name)
      (noPair : ∀ a d, v ≠ .pair a d) : Evaluates s env v (.ok v) s
  | misshapen {s : Store} {env : FrameId} {operands : Value} {e : EvalError} (form : Form)
      (fault : form.Misshapen operands e) :
      Evaluates s env (.pair (.symbol form.name) operands) (.error e) s
  | quotation {s : Store} {env : FrameId} {operands v : Value}
      (shape : operands.toList? = some [v]) :
      Evaluates s env (.pair (.symbol "quote") operands) (.ok v) s
  | testError {s s' : Store} {env : FrameId} {operands test yes : Value} {no : Option Value}
      {e : EvalError} (shape : operands.toList? = some (test :: yes :: no.toList))
      (fails : Evaluates s env test (.error e) s') :
      Evaluates s env (.pair (.symbol "if") operands) (.error e) s'
  | thenBranch {s s₁ s' : Store} {env : FrameId} {operands test yes v : Value} {no : Option Value}
      {o : Outcome Value} (shape : operands.toList? = some (test :: yes :: no.toList))
      (tested : Evaluates s env test (.ok v) s₁) (notFalse : v ≠ .bool false)
      (branch : Evaluates s₁ env yes o s') :
      Evaluates s env (.pair (.symbol "if") operands) o s'
  | elseBranch {s s₁ s' : Store} {env : FrameId} {operands test yes no : Value} {o : Outcome Value}
      (shape : operands.toList? = some [test, yes, no])
      (tested : Evaluates s env test (.ok (.bool false)) s₁) (branch : Evaluates s₁ env no o s') :
      Evaluates s env (.pair (.symbol "if") operands) o s'
  | noBranch {s s' : Store} {env : FrameId} {operands test yes : Value}
      (shape : operands.toList? = some [test, yes])
      (tested : Evaluates s env test (.ok (.bool false)) s') :
      Evaluates s env (.pair (.symbol "if") operands) (.ok .unspecified) s'
  | abstraction {s : Store} {env : FrameId} {operands list body : Value} {bodies : List Value}
      {params : List String} (shape : operands.toList? = some (list :: body :: bodies))
      (parameters : list.toList? = some (params.map .symbol)) (distinct : params.Nodup) :
      Evaluates s env (.pair (.symbol "lambda") operands)
        (.ok (.closure params (Form.closureBody (body :: bodies)) env)) s
  | definitionError {s s' : Store} {env : FrameId} {operands expr : Value} {name : String}
      {e : EvalError} (shape : operands.toList? = some [.symbol name, expr])
      (fails : Evaluates s env expr (.error e) s') :
      Evaluates s env (.pair (.symbol "define") operands) (.error e) s'
  | definition {s s' : Store} {env : FrameId} {operands expr v : Value} {name : String}
      (shape : operands.toList? = some [.symbol name, expr])
      (value : Evaluates s env expr (.ok v) s') :
      Evaluates s env (.pair (.symbol "define") operands) (.ok .unspecified) (s'.define env name v)
  | sequence {s s' : Store} {env : FrameId} {operands : Value} {exprs : List Value}
      {o : Outcome Value} (shape : operands.toList? = some exprs)
      (inOrder : EvaluatesSequence s env exprs o s') :
      Evaluates s env (.pair (.symbol "begin") operands) o s'
  | operatorError {s s' : Store} {env : FrameId} {operator operands : Value} {e : EvalError}
      (plain : ∀ form : Form, operator ≠ .symbol form.name)
      (fails : Evaluates s env operator (.error e) s') :
      Evaluates s env (.pair operator operands) (.error e) s'
  | operandError {s s₁ s' : Store} {env : FrameId} {operator operands p : Value} {e : EvalError}
      (plain : ∀ form : Form, operator ≠ .symbol form.name)
      (procedure : Evaluates s env operator (.ok p) s₁)
      (fails : EvaluatesOperands s₁ env operands.elements (.error e) s') :
      Evaluates s env (.pair operator operands) (.error e) s'
  | application {s s₁ s₂ s' : Store} {env : FrameId} {operator operands p : Value}
      {args : List Value} {o : Outcome Value}
      (plain : ∀ form : Form, operator ≠ .symbol form.name)
      (procedure : Evaluates s env operator (.ok p) s₁)
      (arguments : EvaluatesOperands s₁ env operands.elements (.ok args) s₂)
      (applied : Applies s₂ p args o s') : Evaluates s env (.pair operator operands) o s'

inductive EvaluatesOperands :
    Store → FrameId → List Value → Outcome (List Value) → Store → Prop where
  | nil {s : Store} {env : FrameId} : EvaluatesOperands s env [] (.ok []) s
  | cons {s s₁ s' : Store} {env : FrameId} {expr v : Value} {exprs vs : List Value}
      (head : Evaluates s env expr (.ok v) s₁)
      (tail : EvaluatesOperands s₁ env exprs (.ok vs) s') :
      EvaluatesOperands s env (expr :: exprs) (.ok (v :: vs)) s'
  | headError {s s' : Store} {env : FrameId} {expr : Value} {exprs : List Value} {e : EvalError}
      (fails : Evaluates s env expr (.error e) s') :
      EvaluatesOperands s env (expr :: exprs) (.error e) s'
  | tailError {s s₁ s' : Store} {env : FrameId} {expr v : Value} {exprs : List Value}
      {e : EvalError} (head : Evaluates s env expr (.ok v) s₁)
      (fails : EvaluatesOperands s₁ env exprs (.error e) s') :
      EvaluatesOperands s env (expr :: exprs) (.error e) s'

inductive EvaluatesSequence : Store → FrameId → List Value → Outcome Value → Store → Prop where
  | nil {s : Store} {env : FrameId} : EvaluatesSequence s env [] (.ok .unspecified) s
  | last {s s' : Store} {env : FrameId} {expr : Value} {o : Outcome Value}
      (value : Evaluates s env expr o s') : EvaluatesSequence s env [expr] o s'
  | cons {s s₁ s' : Store} {env : FrameId} {expr next v : Value} {exprs : List Value}
      {o : Outcome Value} (head : Evaluates s env expr (.ok v) s₁)
      (tail : EvaluatesSequence s₁ env (next :: exprs) o s') :
      EvaluatesSequence s env (expr :: next :: exprs) o s'
  | headError {s s' : Store} {env : FrameId} {expr next : Value} {exprs : List Value}
      {e : EvalError} (fails : Evaluates s env expr (.error e) s') :
      EvaluatesSequence s env (expr :: next :: exprs) (.error e) s'

inductive Applies : Store → Value → List Value → Outcome Value → Store → Prop where
  | notAProcedure {s : Store} {p : Value} {args : List Value}
      (noPrimitive : ∀ q, p ≠ .primitive q)
      (noClosure : ∀ params body frame, p ≠ .closure params body frame) :
      Applies s p args (.error (.notAProcedure p)) s
  | primitiveArity {s : Store} {p : Primitive} {args : List Value} (count : args.length ≠ p.arity) :
      Applies s (.primitive p) args (.error (.arityMismatch p.name p.arity args.length)) s
  | primitive {s : Store} {p : Primitive} {args : List Value} (count : args.length = p.arity) :
      Applies s (.primitive p) args (p.run args) s
  | closureArity {s : Store} {params : List String} {body : Value} {frame : FrameId}
      {args : List Value} (count : args.length ≠ params.length) :
      Applies s (.closure params body frame) args
        (.error (.arityMismatch (Value.closureText params) params.length args.length)) s
  | closure {s s' : Store} {params : List String} {body : Value} {frame : FrameId}
      {args : List Value} {o : Outcome Value} (count : args.length = params.length)
      (value : Evaluates (s.allocate (.ofBindings (some frame) (params.zip args))).2 s.frames.size
        body o s') : Applies s (.closure params body frame) args o s'
end

theorem EvaluatesOperands.of_single {s s' : Store} {env : FrameId} {expr : Value} {vs : List Value}
    (run : EvaluatesOperands s env [expr] (.ok vs) s') :
    ∃ v, vs = [v] ∧ Evaluates s env expr (.ok v) s' := by
  cases run with
  | cons head tail =>
    cases tail
    exact ⟨_, rfl, head⟩

theorem EvaluatesOperands.error_of_single {s s' : Store} {env : FrameId} {expr : Value}
    {e : EvalError} (run : EvaluatesOperands s env [expr] (.error e) s') :
    Evaluates s env expr (.error e) s' := by
  cases run with
  | headError fails => exact fails
  | tailError _ fails => cases fails

theorem EvaluatesSequence.of_error {s s' : Store} {env : FrameId} {exprs : List Value}
    {e : EvalError} (run : EvaluatesOperands s env exprs.dropLast (.error e) s') :
    EvaluatesSequence s env exprs (.error e) s' := by
  induction exprs generalizing s with
  | nil => cases run
  | cons expr exprs ih =>
    cases exprs with
    | nil => cases run
    | cons next exprs =>
      cases run with
      | headError fails => exact .headError fails
      | tailError head fails => exact .cons head (ih fails)

theorem EvaluatesSequence.of_last {s s₁ s' : Store} {env : FrameId} {exprs vs : List Value}
    {last : Value} {o : Outcome Value} (first : EvaluatesOperands s env exprs.dropLast (.ok vs) s₁)
    (isLast : exprs.getLast? = some last) (value : Evaluates s₁ env last o s') :
    EvaluatesSequence s env exprs o s' := by
  induction exprs generalizing s vs with
  | nil => cases isLast
  | cons expr exprs ih =>
    cases exprs with
    | nil =>
      cases first
      cases isLast
      exact .last value
    | cons next exprs =>
      cases first with
      | cons head tail => exact .cons head (ih tail isLast)

end Schemelet
