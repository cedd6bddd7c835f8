import Schemelet.Evaluation.Error
import Schemelet.Store.Basic

/-! Definitions whose names are given as values, one at a time or as a whole table. A key of a table
is any value but a pair, and only a symbol can be defined. -/

namespace Schemelet

namespace Value

/-- Whether two values are one key of a table. A symbol and a text of the same characters are, and
so are a truth value and the number one or zero. A procedure is never the key it was before. -/
def sameKey : Value → Value → Bool
  | .symbol a, .symbol b | .symbol a, .text b | .text a, .symbol b | .text a, .text b => a == b
  | .number x, .number y => x.equal y
  | .bool a, .bool b => a == b
  | .number x, .bool b | .bool b, .number x => x.equal (.ofFloat (if b then 1 else 0))
  | .unspecified, .unspecified | .empty, .empty => true
  | _, _ => false

end Value

abbrev Table := List (Value × Value)

inductive TableError where
  | pairKey
  deriving DecidableEq, Repr

def TableError.message : TableError → String
  | .pairKey => "unhashable type: 'Pair'"

namespace Table

def add (table : Table) (key v : Value) : Except TableError Table :=
  if key.isPair then .error .pairKey
  else if table.any fun e => e.1.sameKey key then
    .ok (table.map fun e => if e.1.sameKey key then (e.1, v) else e)
  else .ok (table ++ [(key, v)])

end Table

namespace Store

def defineValue (s : Store) (id : FrameId) (name v : Value) : Except EvalError Store :=
  match name with
  | .symbol name => .ok (s.define id name v)
  | name => .error (.invalidName name)

/-- Defines the entries of a table in order, up to the first that is no symbol. What was defined
before it stays. -/
def update (s : Store) (id : FrameId) : Table → Option EvalError × Store
  | [] => (none, s)
  | (name, v) :: table =>
    match s.defineValue id name v with
    | .ok s => update s id table
    | .error e => (some e, s)

end Store

end Schemelet
