import Schemelet.Proofs.Number.Nearest

/-! Shortest decimals. The decimals that round to one magnitude lie without gaps around its value.
So if any of so many digits rounds to it, then one of the two next to the value does on the grid of
so many digits, and the first grid that has one gives the fewest digits. Seventeen are always
enough, since neighbouring values differ by more than a step of that grid. -/

namespace Schemelet

namespace Number

theorem digitCount_pos (n : Nat) : 0 < digitCount n := by
  rw [digitCount]
  split <;> omega

theorem digitCount_le_iff {n k : Nat} (positive : 0 < k) : digitCount n ≤ k ↔ n < 10 ^ k := by
  fun_induction digitCount n generalizing k with
  | case1 n small =>
    have power : 10 ^ 1 ≤ 10 ^ k := Nat.pow_le_pow_right (by decide) positive
    omega
  | case2 n large ih =>
    obtain ⟨k, rfl⟩ := Nat.exists_eq_succ_of_ne_zero (Nat.ne_of_gt positive)
    cases k with
    | zero =>
      have least := digitCount_pos (n / 10)
      simp only [Nat.succ_eq_add_one]
      omega
    | succ k =>
      have shorter := @ih (k + 1) (Nat.succ_pos k)
      rw [Nat.succ_eq_add_one, Nat.pow_succ, ← Nat.div_lt_iff_lt_mul (by decide)]
      omega

theorem lt_pow_digitCount (n : Nat) : n < 10 ^ digitCount n :=
  (digitCount_le_iff (digitCount_pos n)).mp (Nat.le_refl _)

theorem pow_digitCount_le {n : Nat} (nonzero : n ≠ 0) : 10 ^ (digitCount n - 1) ≤ n := by
  by_cases single : digitCount n = 1
  · rw [single]
    exact Nat.pos_of_ne_zero nonzero
  · have several := digitCount_pos n
    have fewer : 0 < digitCount n - 1 := by omega
    have notFewer : ¬ digitCount n ≤ digitCount n - 1 := by omega
    rw [digitCount_le_iff fewer] at notFewer
    exact Nat.le_of_not_lt notFewer

section

variable {q : ℚ} {m m' : Nat}

theorem nearer_iff_of_lt (less : m < m') :
    |absolute m - q| ≤ |absolute m' - q| ↔ 2 * q ≤ absolute m + absolute m' := by
  have order := absolute_strictMono less
  have difference : (absolute m' - q) ^ 2 - (absolute m - q) ^ 2 =
      (absolute m' - absolute m) * (absolute m + absolute m' - 2 * q) := by ring
  rw [← sq_le_sq, ← sub_nonneg, difference, mul_nonneg_iff_of_pos_left (sub_pos.mpr order),
    sub_nonneg]

theorem nearer_iff_of_gt (greater : m' < m) :
    |absolute m - q| ≤ |absolute m' - q| ↔ absolute m + absolute m' ≤ 2 * q := by
  have order := absolute_strictMono greater
  have difference : (absolute m' - q) ^ 2 - (absolute m - q) ^ 2 =
      (absolute m - absolute m') * (2 * q - (absolute m + absolute m')) := by ring
  rw [← sq_le_sq, ← sub_nonneg, difference, mul_nonneg_iff_of_pos_left (sub_pos.mpr order),
    sub_nonneg]

theorem tied_iff (other : m' ≠ m) :
    |absolute m' - q| = |absolute m - q| ↔ 2 * q = absolute m + absolute m' := by
  have apart : absolute m' ≠ absolute m := absolute_strictMono.injective.ne other
  rw [abs_eq_abs]
  constructor
  · rintro (same | opposite)
    · exact absurd (sub_left_injective same) apart
    · linarith
  · intro middle
    exact Or.inr (by linarith)

/-- What rounds to one magnitude lies without gaps. -/
theorem IsNearest.between {lower upper : ℚ} (first : IsNearest lower m) (last : IsNearest upper m)
    (above : lower ≤ q) (below : q ≤ upper) : IsNearest q m := by
  refine ⟨first.bounded, ?_, ?_⟩
  · intro m' bounded
    rcases Nat.lt_trichotomy m m' with less | rfl | greater
    · have far := (nearer_iff_of_lt less).mp (last.nearest m' bounded)
      exact (nearer_iff_of_lt less).mpr (by linarith)
    · exact le_refl _
    · have far := (nearer_iff_of_gt greater).mp (first.nearest m' bounded)
      exact (nearer_iff_of_gt greater).mpr (by linarith)
  · intro m' bounded other tie
    rw [tied_iff other] at tie
    rcases Nat.lt_or_gt_of_ne other with greater | less
    · have far := (nearer_iff_of_gt greater).mp (first.nearest m' bounded)
      exact first.even m' bounded other ((tied_iff other).mpr (by linarith))
    · have far := (nearer_iff_of_lt less).mp (last.nearest m' bounded)
      exact last.even m' bounded other ((tied_iff other).mpr (by linarith))

theorem isNearest_absolute (bounded : m ≤ infinite) : IsNearest (absolute m) m := by
  apply IsNearest.of_others bounded
  intro m' _ other
  left
  rw [sub_self, abs_zero, abs_pos, sub_ne_zero]
  exact absolute_strictMono.injective.ne other

theorem isNearest_of_close (finite : m + 1 < infinite)
    (above : 2 * |absolute (m + 1) - q| < absolute (m + 2) - absolute (m + 1))
    (below : 2 * |absolute (m + 1) - q| < absolute (m + 1) - absolute m) :
    IsNearest q (m + 1) := by
  have low := neg_abs_le (absolute (m + 1) - q)
  have high := le_abs_self (absolute (m + 1) - q)
  apply IsNearest.of_others (Nat.le_of_lt finite)
  intro m' _ other
  left
  rcases Nat.lt_or_gt_of_ne other with less | greater
  · have order := absolute_strictMono.monotone (Nat.le_of_lt_succ less)
    have far := neg_abs_le (absolute m' - q)
    linarith
  · have order := absolute_strictMono.monotone (Nat.succ_le_of_lt greater)
    have far := le_abs_self (absolute m' - q)
    linarith

theorem absolute_succ (m : Nat) : absolute (m + 1) = absolute m + 2 ^ scale m / unitsOfOne := by
  rw [absolute_eq, absolute_eq, units_succ, Nat.cast_add, Nat.cast_pow, Nat.cast_ofNat, add_div]

theorem absolute_succ_le (m : Nat) :
    absolute (m + 1) ≤ 2 ^ 53 * (absolute (m + 1) - absolute m) := by
  have step : absolute (m + 1) - absolute m = 2 ^ scale m / unitsOfOne := by
    rw [absolute_succ, add_sub_cancel_left]
  have steps : units (m + 1) ≤ 2 ^ 53 * 2 ^ scale m := by
    rw [units_succ, units_eq, ← Nat.succ_mul]
    exact Nat.mul_le_mul_right _ (significand_lt m)
  rw [step, absolute_eq, ← mul_div_assoc]
  exact div_le_div_of_nonneg_right (by exact_mod_cast steps) (le_of_lt unitsOfOne_pos)

end

section

variable {m : Nat} {e : Int}

def gridBelow (m : Nat) (e : Int) : Nat :=
  units m * Nat.pow 10 (-e).toNat / (unitsOfOne * Nat.pow 10 e.toNat)

theorem value_le_units_iff {k u : Nat} :
    Decimal.value ⟨k, e⟩ ≤ u / unitsOfOne ↔
      k * (unitsOfOne * 10 ^ e.toNat) ≤ u * 10 ^ (-e).toNat := by
  rw [Decimal.value_eq, ← not_lt, units_lt_iff (Decimal.denominator_pos _), not_lt,
    Nat.mul_comm unitsOfOne, ← Nat.mul_assoc]
  rfl

theorem units_le_value_iff {k u : Nat} :
    u / unitsOfOne ≤ Decimal.value ⟨k, e⟩ ↔
      u * 10 ^ (-e).toNat ≤ k * (unitsOfOne * 10 ^ e.toNat) := by
  rw [Decimal.value_eq, ← not_lt, lt_units_iff (Decimal.denominator_pos _), not_lt,
    Nat.mul_comm unitsOfOne, ← Nat.mul_assoc]
  rfl

theorem value_gridBelow_le (m : Nat) (e : Int) : Decimal.value ⟨gridBelow m e, e⟩ ≤ absolute m := by
  rw [absolute_eq, value_le_units_iff]
  exact Nat.div_mul_le_self _ _

theorem lt_value_gridBelow (m : Nat) (e : Int) :
    absolute m < Decimal.value ⟨gridBelow m e + 1, e⟩ := by
  have one : 0 < unitsOfOne := by exact_mod_cast unitsOfOne_pos
  have positive : 0 < unitsOfOne * 10 ^ e.toNat := Nat.mul_pos one (Nat.pow_pos (by decide))
  rw [absolute_eq, ← not_le, value_le_units_iff, not_le, Nat.mul_comm (gridBelow m e + 1)]
  exact Nat.lt_mul_div_succ _ positive

theorem value_le_value {n k : Nat} (le : n ≤ k) (e : Int) :
    Decimal.value ⟨n, e⟩ ≤ Decimal.value ⟨k, e⟩ := by
  have power : (0 : ℚ) ≤ 10 ^ e := zpow_nonneg (by norm_num) e
  exact mul_le_mul_of_nonneg_right (by exact_mod_cast le) power

theorem value_pow_ten (k : Nat) (e : Int) : Decimal.value ⟨10 ^ k, e⟩ = 10 ^ (k + e) := by
  rw [Decimal.value, Nat.cast_pow, Nat.cast_ofNat, zpow_add₀ (by norm_num), zpow_natCast]

theorem gridBelow_neg (m k : Nat) :
    gridBelow m (-k) = units m * Nat.pow 10 k / unitsOfOne := by
  have places : (- -(k : Int)).toNat = k := by omega
  have noPower : (-(k : Int)).toNat = 0 := by omega
  have unscaled (n : Nat) : n * Nat.pow 10 0 = n := Nat.mul_one n
  rw [gridBelow, places, noPower, unscaled]

theorem leadingPower_eq (m : Nat) :
    leadingPower m = digitCount (gridBelow m (-(330 : Nat))) - 330 := by
  unfold leadingPower
  generalize 330 = places
  rw [gridBelow_neg]

/-- The least value is above `10 ^ -330`. -/
theorem gridBelow_ne_zero (nonzero : m ≠ 0) : gridBelow m (-(330 : Nat)) ≠ 0 := by
  intro none
  have least : absolute 1 ≤ absolute m :=
    absolute_strictMono.monotone (Nat.pos_of_ne_zero nonzero)
  have unit : absolute 1 = 1 / 2 ^ 1074 := by
    rw [absolute_eq, unitsOfOne_eq, Nat.cast_pow, Nat.cast_ofNat]
    rfl
  have powers : (2 : ℚ) ^ 1074 ≤ 10 ^ 330 := by
    exact_mod_cast two_pow_le_ten_pow (by decide : 28 * 1074 ≤ 93 * 330)
  have tiny : absolute m < 1 / 10 ^ 330 := by
    have below := lt_value_gridBelow m (-(330 : Nat))
    rwa [none, Decimal.value, zpow_neg, zpow_natCast, Nat.zero_add, Nat.cast_one, one_mul,
      ← one_div] at below
  have order : (1 : ℚ) / 10 ^ 330 ≤ 1 / 2 ^ 1074 := one_div_le_one_div_of_le (by positivity) powers
  rw [unit] at least
  exact absurd (lt_of_lt_of_le tiny order) (not_lt.mpr least)

theorem pow_leadingPower_le (nonzero : m ≠ 0) : 10 ^ (leadingPower m - 1) ≤ absolute m := by
  have found := gridBelow_ne_zero nonzero
  have below := value_gridBelow_le m (-(330 : Nat))
  rw [leadingPower_eq]
  generalize gridBelow m (-(330 : Nat)) = n at *
  have digits := digitCount_pos n
  have whole : (digitCount n - 330 - 1 : Int) = (digitCount n - 1 : Nat) + (-(330 : Nat)) := by
    omega
  rw [whole, ← value_pow_ten]
  exact le_trans (value_le_value (pow_digitCount_le found) _) below

theorem lt_pow_leadingPower (m : Nat) : absolute m < 10 ^ leadingPower m := by
  have above := lt_value_gridBelow m (-(330 : Nat))
  rw [leadingPower_eq]
  generalize gridBelow m (-(330 : Nat)) = n at *
  have whole : (digitCount n - 330 : Int) = digitCount n + (-(330 : Nat)) := by omega
  rw [whole, ← value_pow_ten]
  exact lt_of_lt_of_le above (value_le_value (lt_pow_digitCount n) _)

end

section

variable {m : Nat} {e : Int} {d d' p : Decimal}

theorem nearest_of_between (rounds : d.nearest = m)
    (between : d.value ≤ d'.value ∧ d'.value ≤ absolute m ∨
      absolute m ≤ d'.value ∧ d'.value ≤ d.value) : d'.nearest = m := by
  have near := d.isNearest_nearest
  rw [rounds] at near
  have own := isNearest_absolute near.bounded
  apply d'.isNearest_nearest.unique
  rcases between with ⟨above, below⟩ | ⟨above, below⟩
  · exact near.between own above below
  · exact own.between near above below

theorem value_add_value (k : Nat) :
    Decimal.value ⟨k, e⟩ + Decimal.value ⟨k + 1, e⟩ = Decimal.value ⟨2 * k + 1, e⟩ := by
  simp only [Decimal.value]
  push_cast
  ring

theorem below_nearer (half : 2 * absolute m ≤ Decimal.value ⟨2 * gridBelow m e + 1, e⟩) :
    |Decimal.value ⟨gridBelow m e, e⟩ - absolute m| ≤
      |Decimal.value ⟨gridBelow m e + 1, e⟩ - absolute m| := by
  have below := value_gridBelow_le m e
  have above := lt_value_gridBelow m e
  rw [← value_add_value] at half
  rw [abs_of_nonpos (by linarith), abs_of_nonneg (by linarith)]
  linarith

theorem above_nearer (half : Decimal.value ⟨2 * gridBelow m e + 1, e⟩ ≤ 2 * absolute m) :
    |Decimal.value ⟨gridBelow m e + 1, e⟩ - absolute m| ≤
      |Decimal.value ⟨gridBelow m e, e⟩ - absolute m| := by
  have below := value_gridBelow_le m e
  have above := lt_value_gridBelow m e
  rw [← value_add_value] at half
  rw [abs_of_nonneg (by linarith), abs_of_nonpos (by linarith)]
  linarith

theorem twice_absolute (m : Nat) : 2 * absolute m = (2 * units m : Nat) / unitsOfOne := by
  rw [absolute_eq, Nat.cast_mul, Nat.cast_ofNat, mul_div_assoc]

theorem gridPoint?_cases (m : Nat) (e : Int) :
    let below : Decimal := ⟨gridBelow m e, e⟩
    let above : Decimal := ⟨gridBelow m e + 1, e⟩
    (below.nearest = m ∧ gridPoint? m e = some below ∧
        (above.nearest = m → |below.value - absolute m| ≤ |above.value - absolute m|)) ∨
      (above.nearest = m ∧ gridPoint? m e = some above ∧
        (below.nearest = m → |above.value - absolute m| ≤ |below.value - absolute m|)) ∨
      below.nearest ≠ m ∧ above.nearest ≠ m ∧ gridPoint? m e = none := by
  intro below above
  have lower : 2 * (units m * 10 ^ (-e).toNat) ≤
      (2 * gridBelow m e + 1) * (unitsOfOne * 10 ^ e.toNat) →
      |below.value - absolute m| ≤ |above.value - absolute m| := by
    rw [← Nat.mul_assoc 2, ← units_le_value_iff, ← twice_absolute]
    exact below_nearer
  have upper : (2 * gridBelow m e + 1) * (unitsOfOne * 10 ^ e.toNat) ≤
      2 * (units m * 10 ^ (-e).toNat) →
      |above.value - absolute m| ≤ |below.value - absolute m| := by
    rw [← Nat.mul_assoc 2, ← value_le_units_iff, ← twice_absolute]
    exact above_nearer
  by_cases down : below.nearest = m
  · by_cases up : above.nearest = m
    · by_cases half : 2 * (units m * 10 ^ (-e).toNat) <
          (2 * gridBelow m e + 1) * (unitsOfOne * 10 ^ e.toNat) ∨
        (2 * (units m * 10 ^ (-e).toNat) =
          (2 * gridBelow m e + 1) * (unitsOfOne * 10 ^ e.toNat) ∧ gridBelow m e % 2 = 0)
      · have point : gridPoint? m e = some below := by
          simp only [gridPoint?]
          exact (if_pos down).trans ((if_pos up).trans (if_pos half))
        exact Or.inl ⟨down, point, fun _ => lower (by omega)⟩
      · have point : gridPoint? m e = some above := by
          simp only [gridPoint?]
          exact (if_pos down).trans ((if_pos up).trans (if_neg half))
        exact Or.inr (Or.inl ⟨up, point, fun _ => upper (by omega)⟩)
    · have point : gridPoint? m e = some below := by
        simp only [gridPoint?]
        exact (if_pos down).trans (if_neg up)
      exact Or.inl ⟨down, point, fun rounds => absurd rounds up⟩
  · by_cases up : above.nearest = m
    · have point : gridPoint? m e = some above := by
        simp only [gridPoint?]
        exact (if_neg down).trans (if_pos up)
      exact Or.inr (Or.inl ⟨up, point, fun rounds => absurd rounds down⟩)
    · have point : gridPoint? m e = none := by
        simp only [gridPoint?]
        exact (if_neg down).trans (if_neg up)
      exact Or.inr (Or.inr ⟨down, up, point⟩)

/-- If a point of the grid rounds to the magnitude, one is found, and it is no farther. -/
theorem gridPoint?_of_point {k : Nat} (rounds : Decimal.nearest ⟨k, e⟩ = m) :
    ∃ p, gridPoint? m e = some p ∧
      |p.value - absolute m| ≤ |Decimal.value ⟨k, e⟩ - absolute m| := by
  have below := value_gridBelow_le m e
  have above := lt_value_gridBelow m e
  rcases Nat.lt_or_ge (gridBelow m e) k with greater | less
  · have order := value_le_value greater e
    have up := nearest_of_between rounds (Or.inr ⟨le_of_lt above, order⟩)
    have far : |Decimal.value ⟨gridBelow m e + 1, e⟩ - absolute m| ≤
        |Decimal.value ⟨k, e⟩ - absolute m| := by
      rw [abs_of_nonneg (by linarith), abs_of_nonneg (by linarith)]
      linarith
    rcases gridPoint?_cases m e with ⟨-, point, nearer⟩ | ⟨-, point, -⟩ | ⟨-, none, -⟩
    · exact ⟨_, point, le_trans (nearer up) far⟩
    · exact ⟨_, point, far⟩
    · exact absurd up none
  · have order := value_le_value less e
    have down := nearest_of_between rounds (Or.inl ⟨order, below⟩)
    have far : |Decimal.value ⟨gridBelow m e, e⟩ - absolute m| ≤
        |Decimal.value ⟨k, e⟩ - absolute m| := by
      rw [abs_of_nonpos (by linarith), abs_of_nonpos (by linarith)]
      linarith
    rcases gridPoint?_cases m e with ⟨-, point, -⟩ | ⟨-, point, nearer⟩ | ⟨none, -, -⟩
    · exact ⟨_, point, far⟩
    · exact ⟨_, point, le_trans (nearer down) far⟩
    · exact absurd down none

theorem digits_of_gridPoint? (point : gridPoint? m e = some p) :
    p.digits ≤ gridBelow m e + 1 := by
  rcases gridPoint?_cases m e with ⟨-, found, -⟩ | ⟨-, found, -⟩ | ⟨-, -, none⟩
  · cases point.symm.trans found
    exact Nat.le_succ _
  · cases point.symm.trans found
    exact Nat.le_refl _
  · cases point.symm.trans none

theorem gridBelow_lt (m k : Nat) : gridBelow m (leadingPower m - k) < 10 ^ k := by
  rw [← Nat.not_le]
  intro many
  have order := value_le_value many (leadingPower m - k)
  have below := value_gridBelow_le m (leadingPower m - k)
  have above := lt_pow_leadingPower m
  have whole : (k : Int) + (leadingPower m - k) = leadingPower m := by omega
  rw [value_pow_ten, whole] at order
  linarith

theorem value_mul_pow (n k : Nat) (e : Int) :
    Decimal.value ⟨n * 10 ^ k, e⟩ = Decimal.value ⟨n, e + k⟩ := by
  simp only [Decimal.value]
  rw [zpow_add₀ (by norm_num), zpow_natCast, Nat.cast_mul, Nat.cast_pow, Nat.cast_ofNat]
  ring

theorem point_of_digits (nonzero : m ≠ 0) (rounds : d.nearest = m) {k : Nat}
    (count : digitCount d.digits ≤ k + 1) :
    ∃ n, Decimal.nearest ⟨n, leadingPower m - (k + 1)⟩ = m ∧
      |Decimal.value ⟨n, leadingPower m - (k + 1)⟩ - absolute m| ≤ |d.value - absolute m| := by
  by_cases coarse : leadingPower m - (k + 1) ≤ d.exponent
  · -- The decimal is a point of the grid.
    obtain ⟨t, shift⟩ := Int.le.dest coarse
    refine ⟨d.digits * 10 ^ t, ?_, ?_⟩
    · rw [Decimal.nearest_mul_pow, shift]
      exact rounds
    · rw [value_mul_pow, shift]
  · -- It is below the power of ten below the value, which is a point of the grid.
    have first : Decimal.value ⟨10 ^ k, leadingPower m - (k + 1)⟩ = 10 ^ (leadingPower m - 1) := by
      rw [value_pow_ten]
      congr 1
      omega
    have below := pow_leadingPower_le nonzero
    have small : d.value ≤ 10 ^ (leadingPower m - 1) := by
      have bound := (digitCount_le_iff (Nat.succ_pos k)).mp count
      have digits := value_le_value (Nat.le_of_lt bound) d.exponent
      rw [value_pow_ten] at digits
      refine le_trans digits (zpow_le_zpow_right₀ (by norm_num) ?_)
      omega
    refine ⟨10 ^ k, nearest_of_between rounds (Or.inl ?_), ?_⟩
    · rw [first]
      exact ⟨small, below⟩
    · rw [first, abs_of_nonpos (by linarith), abs_of_nonpos (by linarith)]
      linarith

end

/-- Seventeen places are enough: a step of that grid is shorter than the way to the next value, on
both sides. -/
theorem point_of_seventeen {m : Nat} (nonzero : m ≠ 0) (finite : m < infinite) :
    ∃ n, Decimal.nearest ⟨n, leadingPower m - 17⟩ = m := by
  obtain ⟨m, rfl⟩ := Nat.exists_eq_succ_of_ne_zero nonzero
  generalize grid : leadingPower (m + 1) - 17 = e
  have places : 10 ^ 16 * (10 : ℚ) ^ e ≤ absolute (m + 1) := by
    have below := pow_leadingPower_le nonzero
    have power : (10 : ℚ) ^ (leadingPower (m + 1) - 1) = 10 ^ 16 * 10 ^ e := by
      rw [← zpow_natCast (10 : ℚ) 16, ← zpow_add₀ (by norm_num)]
      congr 1
      omega
    rwa [power] at below
  have step : (0 : ℚ) < 10 ^ e := zpow_pos (by norm_num) e
  have lower := absolute_succ_le m
  have upper := absolute_succ_le (m + 1)
  have order := absolute_strictMono (Nat.lt_succ_self (m + 1))
  have close (q : ℚ) (near : 2 * |absolute (m + 1) - q| ≤ 10 ^ e) : IsNearest q (m + 1) := by
    apply isNearest_of_close finite
    · linarith
    · linarith
  have below := value_gridBelow_le (m + 1) e
  have above := lt_value_gridBelow (m + 1) e
  have next : Decimal.value ⟨gridBelow (m + 1) e + 1, e⟩ =
      Decimal.value ⟨gridBelow (m + 1) e, e⟩ + 10 ^ e := by
    simp only [Decimal.value, Nat.cast_add, Nat.cast_one]
    ring
  rcases le_total (2 * absolute (m + 1)) (2 * Decimal.value ⟨gridBelow (m + 1) e, e⟩ + 10 ^ e)
    with half | half
  · refine ⟨gridBelow (m + 1) e, (Decimal.isNearest_nearest _).unique (close _ ?_)⟩
    rw [abs_of_nonneg (by linarith)]
    linarith
  · refine ⟨gridBelow (m + 1) e + 1, (Decimal.isNearest_nearest _).unique (close _ ?_)⟩
    rw [abs_of_nonpos (by linarith)]
    linarith

theorem first_of_findSome? {α : Type} {f : Nat → Option α} {n : Nat} {a : α}
    (found : (List.range n).findSome? f = some a) :
    ∃ i, f i = some a ∧ ∀ j < i, f j = none := by
  induction n with
  | zero => cases found
  | succ n ih =>
    rw [List.range_succ, List.findSome?_append, Option.or_eq_some_iff] at found
    rcases found with earlier | ⟨none, last⟩
    · exact ih earlier
    · rw [List.findSome?_eq_none_iff] at none
      refine ⟨n, by simpa using last, ?_⟩
      intro j less
      exact none j (List.mem_range.mpr less)

theorem value_trimmed (d : Decimal) : d.trimmed.value = d.value := by
  fun_induction Decimal.trimmed d with
  | case1 d more ih =>
    have whole : d.digits / 10 * 10 ^ 1 = d.digits := by omega
    have same := value_mul_pow (d.digits / 10) 1 d.exponent
    rw [whole] at same
    rw [ih]
    exact same.symm
  | case2 => rfl

theorem digits_trimmed_le (d : Decimal) : d.trimmed.digits ≤ d.digits := by
  fun_induction Decimal.trimmed d with
  | case1 d more ih => exact Nat.le_trans ih (Nat.div_le_self _ _)
  | case2 => exact Nat.le_refl _

theorem digitCount_trimmed_le {d : Decimal} {k : Nat} (bound : d.digits ≤ 10 ^ (k + 1)) :
    digitCount d.trimmed.digits ≤ k + 1 := by
  rw [digitCount_le_iff (Nat.succ_pos k)]
  rcases Nat.lt_or_eq_of_le bound with less | power
  · exact Nat.lt_of_le_of_lt (digits_trimmed_le d) less
  · have positive : 0 < 10 ^ k := Nat.pow_pos (by decide)
    rw [Nat.pow_succ] at power ⊢
    have more : d.digits ≠ 0 ∧ d.digits % 10 = 0 := by omega
    rw [Decimal.trimmed, dif_pos more]
    have shorter := digits_trimmed_le ⟨d.digits / 10, d.exponent + 1⟩
    simp only at shorter
    omega

/-- A decimal that rounds to the magnitude, of the fewest digits and, of those with as few digits,
nearest to the value. -/
structure IsShortest (m : Nat) (d : Decimal) : Prop where
  rounds : d.nearest = m
  fewest : ∀ d' : Decimal, d'.nearest = m → digitCount d.digits ≤ digitCount d'.digits
  closest : ∀ d' : Decimal, d'.nearest = m → digitCount d'.digits = digitCount d.digits →
    |d.value - absolute m| ≤ |d'.value - absolute m|

theorem IsShortest.digits_ne_zero {m : Nat} {d : Decimal} (short : IsShortest m d)
    (nonzero : m ≠ 0) : d.digits ≠ 0 := by
  intro none
  have rounds := short.rounds
  rw [Decimal.nearest, if_pos none] at rounds
  exact nonzero rounds.symm

theorem shortest_search {m : Nat} (nonzero : m ≠ 0) (finite : m < infinite) :
    ∃ (i : Nat) (p : Decimal), gridPoint? m (leadingPower m - (i + 1)) = some p ∧
      shortest m = p.trimmed ∧
      ∀ j : Nat, j < i → gridPoint? m (leadingPower m - (j + 1)) = none := by
  obtain ⟨n, rounds⟩ := point_of_seventeen nonzero finite
  obtain ⟨last, point, -⟩ := gridPoint?_of_point rounds
  simp only [shortest]
  generalize search : ((List.range 17).findSome? fun (i : Nat) =>
    gridPoint? m (leadingPower m - (i + 1))) = found
  cases found with
  | none =>
    rw [List.findSome?_eq_none_iff] at search
    have missing := search 16 (by decide)
    cases point.symm.trans missing
  | some p =>
    obtain ⟨i, here, before⟩ := first_of_findSome? search
    exact ⟨i, p, here, rfl, before⟩

theorem isShortest_shortest {m : Nat} (nonzero : m ≠ 0) (finite : m < infinite) :
    IsShortest m (shortest m) := by
  obtain ⟨i, p, point, result, before⟩ := shortest_search nonzero finite
  have count : digitCount (shortest m).digits ≤ i + 1 := by
    have bound := gridBelow_lt m (i + 1)
    have digits := digits_of_gridPoint? point
    rw [result]
    apply digitCount_trimmed_le
    push_cast at bound
    omega
  refine ⟨nearest_shortest finite, ?_, ?_⟩
  · intro d rounds
    by_contra fewer
    have positive := digitCount_pos d.digits
    obtain ⟨j, digits⟩ := Nat.exists_eq_succ_of_ne_zero (Nat.ne_of_gt positive)
    obtain ⟨n, here, -⟩ := point_of_digits nonzero rounds (Nat.le_of_eq digits)
    obtain ⟨q, found, -⟩ := gridPoint?_of_point here
    have missing := before j (by omega)
    cases found.symm.trans missing
  · intro d rounds same
    obtain ⟨n, here, near⟩ := point_of_digits nonzero rounds (same ▸ count)
    obtain ⟨q, found, nearer⟩ := gridPoint?_of_point here
    cases found.symm.trans point
    rw [result, value_trimmed]
    exact le_trans nearer near

end Number

end Schemelet
