import Schemelet.Number.Basic

/-! Exact decimals and the binary64 magnitude nearest to each. The rounding is one division of
natural numbers, ties to even. -/

namespace Schemelet

structure Decimal where
  digits : Nat
  exponent : Int
  deriving DecidableEq, Repr

def roundedQuotient (n d : Nat) : Nat :=
  let q := n / d
  let r := n % d
  if 2 * r < d ∨ (2 * r = d ∧ q % 2 = 0) then q else q + 1

/-- The magnitude nearest to `n / d`, infinite beyond the largest finite one. The significand of a
scale has at most 53 bits, and one that rounds up to 54 carries into the next scale. -/
def nearestMagnitude (n d : Nat) : Nat :=
  let units := n * Number.unitsOfOne
  let scale := (units / d).log2 - 52
  min Number.infinite
    (scale * Number.fieldWeight + roundedQuotient units (d * Nat.pow 2 scale))

namespace Decimal

def numerator (d : Decimal) : Nat := d.digits * Nat.pow 10 d.exponent.toNat

def denominator (d : Decimal) : Nat := Nat.pow 10 (-d.exponent).toNat

/-- The magnitude nearest to a decimal. Decimals that lie far outside the range of binary64 are
told by their exponent, without computing the power of ten. -/
def nearest (d : Decimal) : Nat :=
  if d.digits = 0 then 0
  else if 310 ≤ d.exponent then Number.infinite
  else if d.digits.log2 + 1 + d.exponent < -330 then 0
  else nearestMagnitude d.numerator d.denominator

def trimmed (d : Decimal) : Decimal :=
  if h : d.digits ≠ 0 ∧ d.digits % 10 = 0 then trimmed ⟨d.digits / 10, d.exponent + 1⟩ else d
termination_by d.digits

end Decimal

def Number.ofDecimal (negative : Bool) (d : Decimal) : Number :=
  Number.ofMagnitude negative d.nearest

end Schemelet
