import Schemelet.Evaluation.Basic

/-! The five special forms. Each checks the shape of its operands before it evaluates any. -/

namespace Schemelet

inductive Form where
  | quotation
  | conditional
  | abstraction
  | definition
  | sequence
  deriving DecidableEq, Repr

namespace Form

def ofName? : String → Option Form
  | "quote" => some .quotation
  | "if" => some .conditional
  | "lambda" => some .abstraction
  | "define" => some .definition
  | "begin" => some .sequence
  | _ => none

def ofOperator? : Value → Option Form
  | .symbol name => ofName? name
  | _ => none

def parameterNames : List Value → Except EvalError (List String)
  | [] => .ok []
  | .symbol name :: rest => (name :: ·) <$> parameterNames rest
  | v :: _ => .error (.malformedForm (.parameterNotSymbol v))

def parameters (list : Value) : Except EvalError (List String) := do
  let names ← parameterNames (← list.toList "parameter list")
  if names.Nodup then .ok names else .error (.malformedForm .parametersRepeated)

def closureBody : List Value → Value
  | [body] => body
  | bodies => .pair (.symbol "begin") (.ofList bodies)

def closure (env : FrameId) (operands : Value) : Except EvalError Value := do
  match ← operands.toList "lambda form" with
  | list :: body :: bodies =>
    let params ← parameters list
    .ok (.closure params (closureBody (body :: bodies)) env)
  | _ => .error (.malformedForm .lambdaCount)

def runSequence (eval : Evaluator) (env : FrameId) : List Value → EvalM Transition
  | [] => pure (.done .unspecified)
  | [last] => pure (.tail last env)
  | expr :: exprs => do
    let _ ← eval env expr
    runSequence eval env exprs

/-- One step of a form, given the full evaluation of its parts that are not in tail position. -/
def step (eval : Evaluator) (env : FrameId) (operands : Value) : Form → EvalM Transition
  | .quotation => do
    match ← EvalM.ofExcept (operands.toList "quote form") with
    | [v] => pure (.done v)
    | _ => .fail (.malformedForm .quoteCount)
  | .conditional => do
    match ← EvalM.ofExcept (operands.toList "if form") with
    | [test, yes] =>
      let v ← eval env test
      pure (if v.isFalse then .done .unspecified else .tail yes env)
    | [test, yes, no] =>
      let v ← eval env test
      pure (.tail (if v.isFalse then no else yes) env)
    | _ => .fail (.malformedForm .ifCount)
  | .abstraction => do
    let v ← EvalM.ofExcept (closure env operands)
    pure (.done v)
  | .definition => do
    match ← EvalM.ofExcept (operands.toList "define form") with
    | [.symbol name, expr] =>
      let v ← eval env expr
      EvalM.define env name v
      pure (.done .unspecified)
    | [v, _] => .fail (.invalidName v)
    | _ => .fail (.malformedForm .defineCount)
  | .sequence => do
    let exprs ← EvalM.ofExcept (operands.toList "begin form")
    runSequence eval env exprs

end Form

end Schemelet
