import Schemelet.Evaluation.Form
import Schemelet.Limit
import Schemelet.Primitive.Run

/-! Evaluation by steps. A step fully evaluates the parts of an expression that are not in tail
position, each one level down, and hands back the part in tail position, which after the call of a
closure is its body in a new frame. Evaluation repeats steps on its own level, so tail calls cost no
depth. -/

namespace Schemelet

/-- A new frame that binds parameters to arguments in order. Where one of the two is longer, the
rest of it is dropped. -/
def bindParameters (params : List String) (env : FrameId) (args : List Value) : EvalM FrameId :=
  .allocate (.ofBindings (some env) (params.zip args))

def apply (procedure : Value) (args : List Value) : EvalM Transition :=
  match procedure with
  | .closure params body env =>
    if args.length = params.length then do
      let frame ← bindParameters params env args
      pure (.tail body frame)
    else .fail (.arityMismatch (Value.closureText params) params.length args.length)
  | .primitive p => do
    let v ← EvalM.ofExcept (p.run args)
    pure (.done v)
  | v => .fail (.notAProcedure v)

def evaluateOperands (eval : Evaluator) (env : FrameId) : List Value → EvalM (List Value)
  | [] => pure []
  | expr :: exprs => do
    let v ← eval env expr
    let vs ← evaluateOperands eval env exprs
    pure (v :: vs)

def step (eval : Evaluator) (env : FrameId) : Value → EvalM Transition
  | .symbol name => do
    let v ← EvalM.lookup env name
    pure (.done v)
  | .pair operator operands =>
    match Form.ofOperator? operator with
    | some form => form.step eval env operands
    | none => do
      let procedure ← eval env operator
      let args ← evaluateOperands eval env operands.elements
      apply procedure args
  | v => pure (.done v)

/-- The evaluation of a part, one level below the given limit. -/
def oneLevelDown (limit : Limit) (eval : Limit → Evaluator) : Evaluator := fun env expr =>
  match limit.descend? with
  | some limit => eval limit env expr
  | none => throw .tooDeep

def evaluate : Nat → Limit → Evaluator
  | 0, _, _, _ => throw .outOfSteps
  | steps + 1, limit, env, expr => do
    match ← step (oneLevelDown limit (evaluate steps)) env expr with
    | .done v => pure v
    | .tail expr env => evaluate steps limit env expr

def stepOnce (limits : Limits) (env : FrameId) (expr : Value) : EvalM Transition :=
  step (oneLevelDown limits.evaluating (evaluate limits.steps)) env expr

inductive TraceStep where
  | tail (expr : Value) (depth : Nat) (frame : String)
  | value (v : Value)
  | halt (h : Halt)
  deriving DecidableEq, Repr

def trace (limits : Limits) : Nat → FrameId → Value → Store → List TraceStep × Store
  | 0, _, _, s => ([], s)
  | count + 1, env, expr, s =>
    match stepOnce limits env expr s with
    | .ok (.done v) s => ([.value v], s)
    | .ok (.tail expr env) s =>
      let entry := .tail expr (s.depth env) (s.label env)
      let (steps, s) := trace limits count env expr s
      (entry :: steps, s)
    | .error h s => ([.halt h], s)

end Schemelet
