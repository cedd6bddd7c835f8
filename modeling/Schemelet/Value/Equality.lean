import Schemelet.Value.Basic

/-! Equality of values, decided over a list of pairs that are still to be compared, so that
nesting costs no depth. Which procedures are the same one is given from outside. -/

namespace Schemelet.Value

def sameAtom (same : Value → Value → Bool) : Value → Value → Bool
  | .unspecified, .unspecified => true
  | .empty, .empty => true
  | .bool a, .bool b => a == b
  | .number x, .number y => x.equal y
  | .symbol a, .symbol b => a == b
  | .text a, .text b => a == b
  | .primitive p, .primitive q => same (.primitive p) (.primitive q)
  | .closure ps a e, .closure qs b f => same (.closure ps a e) (.closure qs b f)
  | _, _ => false

def pendingNodes : List (Value × Value) → Nat
  | [] => 0
  | (v, _) :: pending => v.nodes + pendingNodes pending

/-- A chain is walked in place; only an element that is a pair itself has to wait. -/
def equalAll (same : Value → Value → Bool) : List (Value × Value) → Bool
  | [] => true
  | (.pair a d, .pair b e) :: pending =>
    if a.isPair then equalAll same ((d, e) :: (a, b) :: pending)
    else if sameAtom same a b then equalAll same ((d, e) :: pending)
    else false
  | (v, w) :: pending => if sameAtom same v w then equalAll same pending else false
termination_by pending => pendingNodes pending
decreasing_by
  · simp only [pendingNodes, nodes]
    omega
  · simp only [pendingNodes, nodes]
    omega
  · have := nodes_pos v
    simp only [pendingNodes]
    omega

def equal (same : Value → Value → Bool) (v w : Value) : Bool := equalAll same [(v, w)]

end Schemelet.Value
