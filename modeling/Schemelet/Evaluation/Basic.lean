import Schemelet.Evaluation.Error
import Schemelet.Store.Basic

/-! Computations over the store, and the results of single steps. -/

namespace Schemelet

/-- Why an evaluation stops without a value. The last cause arises only when the steps allowed to
a session run out. It is no error of a program, and what is said of it says nothing of one: it
stands for an evaluation that goes on for ever. -/
inductive Halt where
  | error (e : EvalError)
  | tooDeep
  | outOfSteps
  deriving DecidableEq, Repr

namespace Halt

def kind : Halt → ErrorKind
  | .error e => e.kind
  | .tooDeep | .outOfSteps => .depthExceeded

def message : Halt → String
  | .error e => e.message
  | .tooDeep => "Maximum recursion depth exceeded (non-tail recursion is too deep)"
  | .outOfSteps => "Maximum number of steps exceeded"

end Halt

/-- A computation that changes the store also when it stops without a result. -/
abbrev EvalM := EStateM Halt Store

/-- What one step leaves: a value, or an expression whose value is the answer. -/
inductive Transition where
  | done (v : Value)
  | tail (expr : Value) (env : FrameId)
  deriving DecidableEq, Repr

abbrev Evaluator := FrameId → Value → EvalM Value

namespace EvalM

def fail {α : Type} (e : EvalError) : EvalM α := throw (.error e)

def ofExcept {α : Type} : Except EvalError α → EvalM α
  | .ok a => pure a
  | .error e => fail e

def lookup (env : FrameId) (name : String) : EvalM Value := do
  match (← get).lookup? env name with
  | some v => pure v
  | none => fail (.undefinedVariable name)

def define (env : FrameId) (name : String) (v : Value) : EvalM Unit :=
  modify (·.define env name v)

def allocate (f : Frame) : EvalM FrameId := modifyGet (·.allocate f)

end EvalM

end Schemelet
