import Mathlib.Algebra.Group.Nat.Defs
import Schemelet.Number.Printer

/-! Rounding to magnitudes. It depends on the value of a fraction only, it leaves the values of
finite magnitudes alone, and the shortest decimal of a magnitude rounds to that magnitude. -/

namespace Schemelet

theorem roundedQuotient_mul_left {k : Nat} (positive : 0 < k) (n d : Nat) :
    roundedQuotient (k * n) (k * d) = roundedQuotient n d := by
  simp only [roundedQuotient, Nat.mul_div_mul_left _ _ positive, Nat.mul_mod_mul_left,
    Nat.mul_left_comm 2 k, Nat.mul_lt_mul_left positive, Nat.mul_right_inj (Nat.ne_of_gt positive)]

theorem roundedQuotient_mul_right {d : Nat} (positive : 0 < d) (q : Nat) :
    roundedQuotient (q * d) d = q := by
  simp [roundedQuotient, Nat.mul_div_cancel _ positive, positive]

theorem roundedQuotient_of_small {n d : Nat} (small : 2 * n < d) : roundedQuotient n d = 0 := by
  have below : n < d := by omega
  simp [roundedQuotient, Nat.div_eq_of_lt below, Nat.mod_eq_of_lt below, small]

theorem nearestMagnitude_mul_left {k : Nat} (positive : 0 < k) (n d : Nat) :
    nearestMagnitude (k * n) (k * d) = nearestMagnitude n d := by
  simp only [nearestMagnitude, Nat.mul_assoc, Nat.mul_div_mul_left _ _ positive,
    roundedQuotient_mul_left positive]

theorem nearestMagnitude_congr {n d n' d' : Nat} (positive : 0 < d) (positive' : 0 < d')
    (same : n * d' = n' * d) : nearestMagnitude n d = nearestMagnitude n' d' := by
  calc nearestMagnitude n d
      = nearestMagnitude (d' * n) (d' * d) := (nearestMagnitude_mul_left positive' n d).symm
    _ = nearestMagnitude (d * n') (d * d') := by
        rw [Nat.mul_comm d' n, same, Nat.mul_comm n' d, Nat.mul_comm d' d]
    _ = nearestMagnitude n' d' := nearestMagnitude_mul_left positive n' d'

theorem log2_mul_pow {n : Nat} (nonzero : n ≠ 0) (k : Nat) : (n * 2 ^ k).log2 = n.log2 + k := by
  induction k with
  | zero => simp
  | succ k ih =>
    have product : n * 2 ^ k ≠ 0 := Nat.mul_ne_zero nonzero (Nat.ne_of_gt (Nat.two_pow_pos k))
    rw [Nat.pow_succ, ← Nat.mul_assoc, Nat.mul_comm, Nat.log2_two_mul product, ih, Nat.add_assoc]

/-- Since `2 ^ 93` is below `10 ^ 28`. -/
theorem two_pow_le_ten_pow {a b : Nat} (ratio : 28 * a ≤ 93 * b) : 2 ^ a ≤ 10 ^ b := by
  have base : 2 ^ 93 ≤ 10 ^ 28 := by decide
  have powers : (2 ^ a) ^ 28 ≤ (10 ^ b) ^ 28 :=
    calc (2 ^ a) ^ 28
        = 2 ^ (28 * a) := by rw [← Nat.pow_mul, Nat.mul_comm]
      _ ≤ 2 ^ (93 * b) := Nat.pow_le_pow_right (by decide) ratio
      _ = (2 ^ 93) ^ b := Nat.pow_mul 2 93 b
      _ ≤ (10 ^ 28) ^ b := Nat.pow_le_pow_left base b
      _ = (10 ^ b) ^ 28 := by rw [← Nat.pow_mul, ← Nat.pow_mul, Nat.mul_comm]
  exact (Nat.pow_le_pow_iff_left (by decide)).mp powers

namespace Number

theorem fieldWeight_eq : fieldWeight = 2 ^ 52 := rfl

theorem infinite_eq : infinite = 2047 * fieldWeight := rfl

theorem unitsOfOne_eq : unitsOfOne = 2 ^ 1074 := by
  unfold unitsOfOne
  -- The power is not to be computed.
  generalize 1074 = e
  exact Nat.pow_eq

theorem scale_mul_add_significand (m : Nat) : scale m * fieldWeight + significand m = m := by
  have below : scale m * fieldWeight ≤ m := by
    unfold scale
    rw [fieldWeight_eq]
    omega
  exact Nat.add_sub_of_le below

theorem significand_lt (m : Nat) : significand m < 2 ^ 53 := by
  unfold significand scale
  rw [fieldWeight_eq]
  omega

theorem le_significand {m : Nat} (scaled : scale m ≠ 0) : 2 ^ 52 ≤ significand m := by
  unfold scale at scaled
  unfold significand scale
  rw [fieldWeight_eq] at scaled ⊢
  omega

theorem significand_ne_zero {m : Nat} (nonzero : m ≠ 0) : significand m ≠ 0 := by
  unfold significand scale
  rw [fieldWeight_eq]
  omega

theorem units_eq (m : Nat) : units m = significand m * 2 ^ scale m := rfl

theorem log2_units (m : Nat) : (units m).log2 - 52 = scale m := by
  rcases Decidable.em (m = 0) with rfl | nonzero
  · rfl
  have positive := significand_ne_zero nonzero
  have above : (significand m).log2 < 53 := (Nat.log2_lt positive).mpr (significand_lt m)
  rw [units_eq, log2_mul_pow positive]
  by_cases scaled : scale m = 0
  · omega
  · have below : 52 ≤ (significand m).log2 := (Nat.le_log2 positive).mpr (le_significand scaled)
    omega

theorem nearestMagnitude_of_exact {m n d : Nat} (finite : m < infinite) (positive : 0 < d)
    (exact_value : n * unitsOfOne = units m * d) : nearestMagnitude n d = m := by
  have rounded : roundedQuotient (units m * d) (d * Nat.pow 2 (scale m)) = significand m := by
    have split : units m * d = significand m * (d * Nat.pow 2 (scale m)) := by
      rw [units, Nat.mul_assoc, Nat.mul_comm d]
    rw [split]
    exact roundedQuotient_mul_right (Nat.mul_pos positive (Nat.two_pow_pos _)) _
  simp only [nearestMagnitude, exact_value, Nat.mul_div_cancel _ positive, log2_units, rounded,
    scale_mul_add_significand]
  exact Nat.min_eq_right (Nat.le_of_lt finite)

theorem nearestMagnitude_of_large {n : Nat} (nonzero : n ≠ 0) (large : 1025 ≤ n.log2) :
    nearestMagnitude n 1 = infinite := by
  have enough : 2047 ≤ (n * unitsOfOne).log2 - 52 := by
    rw [unitsOfOne_eq, log2_mul_pow nonzero]
    omega
  simp only [nearestMagnitude, Nat.div_one]
  apply Nat.min_eq_left
  rw [infinite_eq]
  exact Nat.le_add_right_of_le (Nat.mul_le_mul_right _ enough)

theorem nearestMagnitude_of_small {n d : Nat} (small : 2 * (n * unitsOfOne) < d) :
    nearestMagnitude n d = 0 := by
  have below : n * unitsOfOne / d = 0 := by
    apply Nat.div_eq_of_lt
    generalize n * unitsOfOne = units at small
    omega
  have noScale : Nat.log2 0 - 52 = 0 := rfl
  have rounded : roundedQuotient (n * unitsOfOne) d = 0 := roundedQuotient_of_small small
  simp only [nearestMagnitude, below, noScale, Nat.pow_eq, Nat.pow_zero, Nat.mul_one, rounded,
    Nat.zero_mul, Nat.add_zero, Nat.min_zero]

end Number

namespace Decimal

theorem denominator_pos (d : Decimal) : 0 < d.denominator := Nat.pow_pos (by decide)

theorem nearestMagnitude_of_exponent {d : Decimal} (nonzero : d.digits ≠ 0)
    (large : 310 ≤ d.exponent) :
    nearestMagnitude d.numerator d.denominator = Number.infinite := by
  have noFraction : (-d.exponent).toNat = 0 := by omega
  have whole : d.denominator = 1 := by
    rw [denominator, noFraction, Nat.pow_eq, Nat.pow_zero]
  have power : 2 ^ 1025 ≤ 10 ^ d.exponent.toNat := two_pow_le_ten_pow (by omega)
  have size : 2 ^ 1025 ≤ d.numerator :=
    Nat.le_trans power (Nat.le_mul_of_pos_left _ (Nat.pos_of_ne_zero nonzero))
  have positive : d.numerator ≠ 0 :=
    Nat.mul_ne_zero nonzero (Nat.ne_of_gt (Nat.pow_pos (by decide)))
  rw [whole]
  have scaled {k : Nat} (bound : 2 ^ k ≤ d.numerator) : k ≤ d.numerator.log2 :=
    (Nat.le_log2 positive).mpr bound
  exact Number.nearestMagnitude_of_large positive (scaled size)

theorem nearestMagnitude_of_tiny {d : Decimal} (tiny : d.digits.log2 + 1 + d.exponent < -330) :
    nearestMagnitude d.numerator d.denominator = 0 := by
  have noPower : d.exponent.toNat = 0 := by omega
  have numerator : d.numerator = d.digits := by
    rw [numerator, noPower, Nat.pow_eq, Nat.pow_zero, Nat.mul_one]
  have room : 28 * (d.digits.log2 + 1 + 1074 + 1) ≤ 93 * (-d.exponent).toNat := by omega
  apply Number.nearestMagnitude_of_small
  calc 2 * (d.numerator * Number.unitsOfOne)
      = d.digits * (2 ^ 1074 * 2) := by
        rw [numerator, Number.unitsOfOne_eq, Nat.mul_comm, Nat.mul_assoc]
    _ < 2 ^ (d.digits.log2 + 1) * (2 ^ 1074 * 2) :=
        Nat.mul_lt_mul_of_pos_right Nat.lt_log2_self (Nat.mul_pos (Nat.two_pow_pos _) (by decide))
    _ = 2 ^ (d.digits.log2 + 1 + 1074 + 1) := by
        rw [Nat.pow_succ 2 (d.digits.log2 + 1 + 1074), Nat.pow_add 2 (d.digits.log2 + 1),
          Nat.mul_assoc]
    _ ≤ 10 ^ (-d.exponent).toNat := two_pow_le_ten_pow room

/-- The shortcuts for decimals far outside the range agree with the division. -/
theorem nearest_eq (d : Decimal) : d.nearest = nearestMagnitude d.numerator d.denominator := by
  unfold nearest
  split
  · rename_i zero
    have nothing : 2 * (d.numerator * Number.unitsOfOne) < d.denominator := by
      simp [numerator, zero, denominator_pos]
    exact (Number.nearestMagnitude_of_small nothing).symm
  · rename_i nonzero
    split
    · rename_i large
      exact (nearestMagnitude_of_exponent nonzero large).symm
    · split
      · rename_i tiny
        exact (nearestMagnitude_of_tiny tiny).symm
      · rfl

theorem nearest_of_exact {d : Decimal} {m : Nat} (finite : m < Number.infinite)
    (exact_value : d.numerator * Number.unitsOfOne = Number.units m * d.denominator) :
    d.nearest = m := by
  rw [nearest_eq]
  exact Number.nearestMagnitude_of_exact finite d.denominator_pos exact_value

theorem nearest_mul_ten (n : Nat) (e : Int) : nearest ⟨n * 10, e⟩ = nearest ⟨n, e + 1⟩ := by
  rw [nearest_eq, nearest_eq]
  apply nearestMagnitude_congr (denominator_pos _) (denominator_pos _)
  simp only [numerator, denominator]
  rcases Int.lt_or_le e 0 with negative | natural
  · have up : (-e).toNat = (-(e + 1)).toNat + 1 := by omega
    have none : e.toNat = 0 := by omega
    have noneNext : (e + 1).toNat = 0 := by omega
    change n * 10 * 10 ^ e.toNat * 10 ^ (-(e + 1)).toNat = n * 10 ^ (e + 1).toNat * 10 ^ (-e).toNat
    rw [up, none, noneNext, Nat.pow_succ, Nat.pow_zero, Nat.mul_one, Nat.mul_one, Nat.mul_assoc,
      Nat.mul_comm 10]
  · have up : (e + 1).toNat = e.toNat + 1 := by omega
    have none : (-e).toNat = 0 := by omega
    have noneNext : (-(e + 1)).toNat = 0 := by omega
    change n * 10 * 10 ^ e.toNat * 10 ^ (-(e + 1)).toNat = n * 10 ^ (e + 1).toNat * 10 ^ (-e).toNat
    rw [up, none, noneNext, Nat.pow_succ, Nat.mul_assoc n, Nat.mul_comm 10]

theorem nearest_mul_pow (n k : Nat) (e : Int) : nearest ⟨n * 10 ^ k, e⟩ = nearest ⟨n, e + k⟩ := by
  induction k generalizing e with
  | zero => simp
  | succ k ih =>
    rw [Nat.pow_succ, ← Nat.mul_assoc, nearest_mul_ten, ih]
    congr 2
    omega

theorem nearest_trimmed (d : Decimal) : d.trimmed.nearest = d.nearest := by
  fun_induction trimmed d with
  | case1 d more ih =>
    have whole : d.digits / 10 * 10 = d.digits := by omega
    rw [ih, ← nearest_mul_ten, whole]
  | case2 => rfl

end Decimal

namespace Number

theorem nearest_of_gridPoint {m : Nat} {e : Int} {d : Decimal} (point : gridPoint? m e = some d) :
    d.nearest = m := by
  simp only [gridPoint?] at point
  split at point
  · rename_i below
    split at point
    · rename_i above
      split at point
      · cases point
        exact below
      · cases point
        exact above
    · cases point
      exact below
  · split at point
    · rename_i above
      cases point
      exact above
    · cases point

theorem nearest_exactDecimal {m : Nat} (finite : m < infinite) : (exactDecimal m).nearest = m := by
  have exact_value (u e : Nat) : u * 5 ^ e * 2 ^ e = u * 10 ^ e := by
    rw [Nat.mul_assoc, ← Nat.mul_pow]
  have numerator : (exactDecimal m).numerator = units m * 5 ^ 1074 := by
    have noPower : (-1074 : Int).toNat = 0 := rfl
    rw [Decimal.numerator, exactDecimal, noPower]
    generalize 1074 = e
    rw [Nat.pow_eq, Nat.pow_eq, Nat.pow_zero, Nat.mul_one]
  have denominator : (exactDecimal m).denominator = 10 ^ 1074 := by
    have power : (-(-1074 : Int)).toNat = 1074 := rfl
    rw [Decimal.denominator, exactDecimal, power]
    generalize 1074 = e
    rw [Nat.pow_eq]
  apply Decimal.nearest_of_exact finite
  rw [numerator, denominator, unitsOfOne_eq]
  exact exact_value (units m) 1074

theorem nearest_shortest {m : Nat} (finite : m < infinite) : (shortest m).nearest = m := by
  unfold shortest
  rw [Decimal.nearest_trimmed]
  generalize search : ((List.range 17).findSome? fun (i : Nat) =>
    gridPoint? m (leadingPower m - (i + 1))) = found
  cases found with
  | none => exact nearest_exactDecimal finite
  | some d =>
    obtain ⟨i, _, point⟩ := List.exists_of_findSome?_eq_some search
    exact nearest_of_gridPoint point

end Number

end Schemelet
