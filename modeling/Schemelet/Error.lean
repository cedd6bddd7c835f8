import Schemelet.Value.Printer

/-! The kinds of errors that reading and evaluation report, why a source cannot be read, and the
messages of errors that are made by hand, from a kind and any number of details. Every kind belongs
to one of the two families, but for the most general one. -/

namespace Schemelet

inductive ErrorKind where
  | general
  | reading
  | unexpectedEnd
  | unmatchedParenthesis
  | unexpectedClosing
  | extraInput
  | evaluation
  | undefinedVariable
  | notAProcedure
  | arityMismatch
  | invalidName
  | malformedForm
  | wrongType
  | depthExceeded
  deriving DecidableEq, Repr

namespace ErrorKind

def isReading : ErrorKind → Bool
  | .reading | .unexpectedEnd | .unmatchedParenthesis | .unexpectedClosing | .extraInput => true
  | _ => false

def isEvaluation (k : ErrorKind) : Bool := k != .general && !k.isReading

def standardMessage : ErrorKind → String
  | .unexpectedEnd => "Unexpected end of input"
  | .unmatchedParenthesis => "Unmatched parenthesis"
  | .unexpectedClosing => "Unexpected closing parenthesis"
  | .extraInput => "Unexpected extra input"
  | _ => ""

end ErrorKind

inductive ReadError where
  | unexpectedEnd
  | unmatchedParenthesis
  | unexpectedClosing
  | extraInput
  | tooDeep
  deriving DecidableEq, Repr

namespace ReadError

def kind : ReadError → ErrorKind
  | .unexpectedEnd => .unexpectedEnd
  | .unmatchedParenthesis => .unmatchedParenthesis
  | .unexpectedClosing => .unexpectedClosing
  | .extraInput => .extraInput
  | .tooDeep => .depthExceeded

def message : ReadError → String
  | .tooDeep => "Expression is nested too deeply to read"
  | e => e.kind.standardMessage

end ReadError

inductive ErrorDetail where
  | integer (n : Int)
  | value (v : Value)
  deriving DecidableEq, Repr

namespace ErrorDetail

def plain : ErrorDetail → String
  | .integer n => Numeral.integerText n
  | .value v => v.plain

def inspected : ErrorDetail → String
  | .integer n => Numeral.integerText n
  | .value v => v.inspected

end ErrorDetail

/-- A single detail is the message; several are listed in parentheses. -/
def ErrorKind.message (kind : ErrorKind) : List ErrorDetail → String
  | [] => kind.standardMessage
  | [detail] => detail.plain
  | details => "(" ++ ", ".intercalate (details.map ErrorDetail.inspected) ++ ")"

end Schemelet
