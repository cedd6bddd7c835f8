import Schemelet.Error
import Schemelet.Value.Printer

/-! Why an expression cannot be evaluated. -/

namespace Schemelet

inductive Malformed where
  | improper (what : String)
  | quoteCount
  | ifCount
  | lambdaCount
  | parameterNotSymbol (parameter : Value)
  | parametersRepeated
  | defineCount
  deriving DecidableEq, Repr

inductive EvalError where
  | undefinedVariable (name : String)
  | notAProcedure (operator : Value)
  | arityMismatch (procedure : String) (expected received : Int)
  | invalidName (v : Value)
  | malformedForm (cause : Malformed)
  | numberExpected (procedure : Primitive) (got : Value)
  | pairExpected (procedure : Primitive)
  deriving DecidableEq, Repr

def Malformed.message : Malformed → String
  | .improper what => "Expected a proper " ++ what
  | .quoteCount => "quote expects exactly 1 argument"
  | .ifCount => "if requires a condition, a then-expression and an optional else-expression"
  | .lambdaCount => "lambda requires a parameter list and a body"
  | .parameterNotSymbol p => "lambda parameter must be a symbol, got " ++ p.inspected
  | .parametersRepeated => "lambda parameters must be distinct"
  | .defineCount => "define requires exactly 2 arguments"

namespace EvalError

def kind : EvalError → ErrorKind
  | .undefinedVariable _ => .undefinedVariable
  | .notAProcedure _ => .notAProcedure
  | .arityMismatch _ _ _ => .arityMismatch
  | .invalidName _ => .invalidName
  | .malformedForm _ => .malformedForm
  | .numberExpected _ _ | .pairExpected _ => .wrongType

def message : EvalError → String
  | .undefinedVariable name => "Undefined variable: " ++ name
  | .notAProcedure operator => "Not a procedure: " ++ operator.printed
  | .arityMismatch procedure expected received =>
    procedure ++ " expects " ++ Numeral.integerText expected ++ " argument(s), got " ++
      Numeral.integerText received
  | .invalidName v => "Cannot define " ++ v.inspected ++ " as a symbol"
  | .malformedForm cause => cause.message
  | .numberExpected procedure got => procedure.name ++ " expects numbers, got " ++ got.printed
  | .pairExpected procedure => procedure.name ++ " expects a pair"

end EvalError

def Value.toList (what : String) (v : Value) : Except EvalError (List Value) :=
  match v.toList? with
  | some items => .ok items
  | none => .error (.malformedForm (.improper what))

end Schemelet
