import Schemelet.Evaluation.Error

/-! What the primitives compute. -/

namespace Schemelet.Primitive

def onNumbers (p : Primitive) (f : Number → Number → Value) : Value → Value → Except EvalError Value
  | .number x, .number y => .ok (f x y)
  | .number _, w => .error (.numberExpected p w)
  | v, _ => .error (.numberExpected p v)

def onPair (p : Primitive) (f : Value → Value → Value) : Value → Except EvalError Value
  | .pair a d => .ok (f a d)
  | _ => .error (.pairExpected p)

def run (p : Primitive) (args : List Value) : Except EvalError Value :=
  match p, args with
  | .add, [v, w] => onNumbers .add (fun x y => .number (x.add y)) v w
  | .sub, [v, w] => onNumbers .sub (fun x y => .number (x.sub y)) v w
  | .mul, [v, w] => onNumbers .mul (fun x y => .number (x.mul y)) v w
  | .div, [v, w] => onNumbers .div (fun x y => .number (x.div y)) v w
  | .equal, [v, w] => onNumbers .equal (fun x y => .bool (x.equal y)) v w
  | .less, [v, w] => onNumbers .less (fun x y => .bool (x.less y)) v w
  | .greater, [v, w] => onNumbers .greater (fun x y => .bool (y.less x)) v w
  | .atMost, [v, w] => onNumbers .atMost (fun x y => .bool (x.atMost y)) v w
  | .atLeast, [v, w] => onNumbers .atLeast (fun x y => .bool (y.atMost x)) v w
  | .not, [v] => .ok (.bool v.isFalse)
  | .cons, [v, w] => .ok (.pair v w)
  | .car, [v] => onPair .car (fun a _ => a) v
  | .cdr, [v] => onPair .cdr (fun _ d => d) v
  | .isNull, [v] => .ok (.bool (v = .empty))
  | .isPair, [v] => .ok (.bool v.isPair)
  | p, args => .error (.arityMismatch p.name p.arity args.length)

end Schemelet.Primitive
