import Schemelet.Number.Basic

/-! Values, which are also the expressions of the language. A list is a chain of pairs that ends in
the empty list; a chain with any other end is improper. -/

namespace Schemelet

inductive Primitive where
  | add | sub | mul | div
  | equal | less | greater | atMost | atLeast
  | not
  | cons | car | cdr
  | isNull | isPair
  deriving DecidableEq, Repr

namespace Primitive

/-- The primitives in the order in which a new global frame binds them. -/
def all : List Primitive :=
  [.add, .sub, .mul, .div, .equal, .less, .greater, .atMost, .atLeast, .not, .cons, .car, .cdr,
   .isNull, .isPair]

def name : Primitive → String
  | .add => "+"
  | .sub => "-"
  | .mul => "*"
  | .div => "/"
  | .equal => "="
  | .less => "<"
  | .greater => ">"
  | .atMost => "<="
  | .atLeast => ">="
  | .not => "not"
  | .cons => "cons"
  | .car => "car"
  | .cdr => "cdr"
  | .isNull => "null?"
  | .isPair => "pair?"

def arity : Primitive → Nat
  | .not | .car | .cdr | .isNull | .isPair => 1
  | _ => 2

end Primitive

abbrev FrameId := Nat

/-- A text is data handed in from outside: no expression reads as one, and it evaluates to
itself. A closure keeps the number of the frame it was made in. -/
inductive Value where
  | unspecified
  | empty
  | bool (b : Bool)
  | number (x : Number)
  | symbol (name : String)
  | text (content : String)
  | pair (car cdr : Value)
  | primitive (p : Primitive)
  | closure (params : List String) (body : Value) (frame : FrameId)
  deriving DecidableEq, Repr

namespace Value

def isFalse (v : Value) : Bool := v = .bool false

def isPair : Value → Bool
  | .pair _ _ => true
  | _ => false

def chain (items : List Value) (tail : Value) : Value := items.foldr .pair tail

def ofList (items : List Value) : Value := chain items .empty

def toList? : Value → Option (List Value)
  | .empty => some []
  | .pair a d => (toList? d).map (a :: ·)
  | _ => none

def elements : Value → List Value
  | .pair a d => a :: elements d
  | _ => []

def nodes : Value → Nat
  | .pair a d => nodes a + nodes d + 1
  | _ => 1

theorem nodes_pos (v : Value) : 0 < v.nodes := by
  cases v <;> simp [nodes]

theorem nodes_lt_of_mem_elements {v w : Value} (member : v ∈ w.elements) : v.nodes < w.nodes := by
  induction w with
  | pair a d _ ih =>
    have first := a.nodes_pos
    have rest := d.nodes_pos
    simp only [nodes]
    rcases List.mem_cons.mp member with rfl | later
    · omega
    · have := ih later
      omega
  | _ => cases member

end Value

end Schemelet
