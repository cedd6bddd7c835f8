import Schemelet.Number.Decimal
import Schemelet.Text.Basic

/-! The two written forms of a number. The printed form shows whole numbers below `10 ^ 16` as
plain digits; the inspected form always tells a number from an integer. Other numbers are written
as the shortest decimal that reads back as the magnitude: of the grids with one, two, up to
seventeen digits, the first that has a point rounding to it, and on it the point nearest to the
value, the even one of two that are equally near. -/

namespace Schemelet.Number

def digitCount (n : Nat) : Nat := if n < 10 then 1 else digitCount (n / 10) + 1

def leadingPower (m : Nat) : Int := digitCount (units m * Nat.pow 10 330 / unitsOfOne) - 330

/-- The point of the grid of step `10 ^ exponent` that stands for the magnitude, if one does. -/
def gridPoint? (m : Nat) (exponent : Int) : Option Decimal :=
  let n := units m * Nat.pow 10 (-exponent).toNat
  let d := unitsOfOne * Nat.pow 10 exponent.toNat
  let q := n / d
  let below : Decimal := ⟨q, exponent⟩
  let above : Decimal := ⟨q + 1, exponent⟩
  if below.nearest = m then
    if above.nearest = m then
      if 2 * n < (2 * q + 1) * d ∨ (2 * n = (2 * q + 1) * d ∧ q % 2 = 0) then some below
      else some above
    else some below
  else if above.nearest = m then some above
  else none

/-- The value of a finite magnitude, to its last digit. -/
def exactDecimal (m : Nat) : Decimal := ⟨units m * Nat.pow 5 1074, -1074⟩

def shortest (m : Nat) : Decimal :=
  let power := leadingPower m
  let found := (List.range 17).findSome? fun (i : Nat) => gridPoint? m (power - (i + 1))
  (found.getD (exactDecimal m)).trimmed

def exponentText (e : Int) : List Char :=
  let ds := Numeral.digits e.natAbs
  'e' :: (if e < 0 then '-' else '+') :: (if ds.length < 2 then '0' :: ds else ds)

def scientific (ds : List Char) (e : Int) : List Char :=
  match ds with
  | [] => []
  | [d] => d :: exponentText e
  | d :: rest => d :: '.' :: rest ++ exponentText e

/-- All places from the first digit, of weight `10 ^ e`, to at least one behind the point. -/
def positional (ds : List Char) (e : Int) : List Char :=
  if e < 0 then '0' :: '.' :: List.replicate (-e - 1).toNat '0' ++ ds
  else
    let places := e.toNat + 1
    if ds.length ≤ places then ds ++ List.replicate (places - ds.length) '0' ++ ['.', '0']
    else ds.take places ++ '.' :: ds.drop places

/-- Positional when the first digit has a weight from `10 ^ -4` up to below `10 ^ 16`. -/
def layout (d : Decimal) : List Char :=
  let ds := Numeral.digits d.digits
  let e := d.exponent + (ds.length - 1 : Nat)
  if -4 ≤ e ∧ e < 16 then positional ds e else scientific ds e

def magnitudeText (m : Nat) : List Char :=
  if m = 0 then ['0', '.', '0'] else layout (shortest m)

def signed (negative : Bool) (cs : List Char) : String :=
  String.ofList (if negative then '-' :: cs else cs)

def integer? (m : Nat) : Option Nat :=
  if units m % unitsOfOne = 0 then some (units m / unitsOfOne) else none

def inspected (x : Number) : String :=
  if x.isNaN then "nan"
  else if x.isInfinite then signed x.isNegative ['i', 'n', 'f']
  else signed x.isNegative (magnitudeText x.magnitude)

def printed (x : Number) : String :=
  if x.isNaN then "+nan.0"
  else if x.isInfinite then (if x.isNegative then "-inf.0" else "+inf.0")
  else match integer? x.magnitude with
    | some n =>
      if n < 10000000000000000 then signed (x.isNegative && n != 0) (Numeral.digits n)
      else x.inspected
    | none => x.inspected

end Schemelet.Number
