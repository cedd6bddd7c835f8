/-! Binary64 numbers, held as their bits. Apart from its sign a number is its magnitude, a natural
number whose order is the order of absolute values, so comparisons are integer comparisons. -/

namespace Schemelet

structure Number where
  bits : UInt64
  deriving DecidableEq, Repr

namespace Number

def signWeight : Nat := Nat.pow 2 63

def fieldWeight : Nat := Nat.pow 2 52

/-- How many units make one: values are counted in units of the least positive number. -/
def unitsOfOne : Nat := Nat.pow 2 1074

def magnitude (x : Number) : Nat := x.bits.toNat % signWeight

def isNegative (x : Number) : Bool := signWeight ≤ x.bits.toNat

/-- The magnitude of the infinities; those above it are no numbers. -/
def infinite : Nat := 0x7FF0000000000000

def isNaN (x : Number) : Bool := infinite < x.magnitude

def isInfinite (x : Number) : Bool := x.magnitude = infinite

def isFinite (x : Number) : Bool := x.magnitude < infinite

def ofMagnitude (negative : Bool) (m : Nat) : Number :=
  ⟨UInt64.ofNat (if negative then signWeight + m else m)⟩

/-- The value of a finite magnitude is its significand, doubled as often as its scale says. -/
def scale (m : Nat) : Nat := m / fieldWeight - 1

def significand (m : Nat) : Nat := m - scale m * fieldWeight

def units (m : Nat) : Nat := significand m * Nat.pow 2 (scale m)

/-- Numbers other than NaN compare as their keys do; both zeros have the key zero. -/
def key (x : Number) : Int := if x.isNegative then -(x.magnitude : Int) else x.magnitude

def equal (x y : Number) : Bool := !x.isNaN && !y.isNaN && x.key == y.key

def less (x y : Number) : Bool := !x.isNaN && !y.isNaN && decide (x.key < y.key)

def atMost (x y : Number) : Bool := !x.isNaN && !y.isNaN && decide (x.key ≤ y.key)

def toFloat (x : Number) : Float := Float.ofBits x.bits

def ofFloat (x : Float) : Number := ⟨x.toBits⟩

def add (x y : Number) : Number := ofFloat (x.toFloat + y.toFloat)

def sub (x y : Number) : Number := ofFloat (x.toFloat - y.toFloat)

def mul (x y : Number) : Number := ofFloat (x.toFloat * y.toFloat)

def div (x y : Number) : Number := ofFloat (x.toFloat / y.toFloat)

end Number

end Schemelet
