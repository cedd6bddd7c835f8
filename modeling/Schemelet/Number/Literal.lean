import Schemelet.Number.Decimal
import Schemelet.Text.Basic

/-! Decimal literals: an optional sign, digits with at most one point among them, and an optional
power of ten. Digits are those of ASCII. -/

namespace Schemelet

structure Literal where
  negative : Bool
  whole : List Char
  fraction : List Char
  exponent : Int
  deriving DecidableEq, Repr

namespace Literal

def splitSign : List Char → Bool × List Char
  | '-' :: rest => (true, rest)
  | '+' :: rest => (false, rest)
  | cs => (false, cs)

def splitDigits (cs : List Char) : List Char × List Char :=
  (cs.takeWhile Char.isDigit, cs.dropWhile Char.isDigit)

def splitFraction : List Char → List Char × List Char
  | '.' :: rest => splitDigits rest
  | cs => ([], cs)

def exponent? : List Char → Option Int
  | [] => some 0
  | c :: rest =>
    let (negative, cs) := splitSign rest
    let (ds, extra) := splitDigits cs
    if (c = 'e' ∨ c = 'E') ∧ ds ≠ [] ∧ extra = [] then
      some (if negative then -(Numeral.value ds : Int) else Numeral.value ds)
    else none

def parse? (cs : List Char) : Option Literal :=
  let (negative, unsigned) := splitSign cs
  let (whole, rest) := splitDigits unsigned
  let (fraction, rest) := splitFraction rest
  if whole = [] ∧ fraction = [] then none
  else (exponent? rest).map fun e => ⟨negative, whole, fraction, e⟩

def decimal (l : Literal) : Decimal :=
  ⟨Numeral.value (l.whole ++ l.fraction), l.exponent - l.fraction.length⟩

def number (l : Literal) : Number := Number.ofDecimal l.negative l.decimal

end Literal

end Schemelet
