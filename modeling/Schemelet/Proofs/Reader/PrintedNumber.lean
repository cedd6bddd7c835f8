import Schemelet.Proofs.Number.Shortest
import Schemelet.Proofs.Reader.Classification
import Schemelet.Proofs.Value.Equality
import Schemelet.Proofs.Value.Readback

/-! The printed forms of finite numbers. A whole number of at most sixteen digits is printed as
these digits, and any other number as a shortest decimal, positional or with a power of ten. Both
read back as the number, so that numbers print alike exactly where they have the same value. -/

namespace Schemelet

namespace Numeral

theorem digits_eq_toDigits (n : Nat) : digits n = Nat.toDigits 10 n := by
  have single : ∀ d < 10, digit d = d.digitChar := by decide
  fun_induction digits n with
  | case1 n small => rw [Nat.toDigits_of_lt_base small, single n small]
  | case2 n large ih =>
    rw [Nat.toDigits_of_base_le (by decide) (Nat.le_of_not_lt large), ih,
      single (n % 10) (Nat.mod_lt n (by decide))]

theorem length_digits (n : Nat) : (digits n).length = Number.digitCount n := by
  fun_induction digits n with
  | case1 n small => rw [Number.digitCount, if_pos small, List.length_singleton]
  | case2 n large ih =>
    rw [Number.digitCount, if_neg large, List.length_append, ih, List.length_singleton]

end Numeral

namespace Number

variable {ds : List Char} {e : Int}

theorem mem_scientific (nonempty : ds ≠ []) : 'e' ∈ scientific ds e := by
  match ds with
  | [] => exact absurd rfl nonempty
  | [d] => simp [scientific, exponentText]
  | d :: next :: rest => simp [scientific, exponentText]

theorem not_mem_positional (digits : ∀ c ∈ ds, c.isDigit = true) : 'e' ∉ positional ds e := by
  have letter : 'e' ∉ ds := by
    intro member
    cases digits 'e' member
  unfold positional
  split
  · simp [letter]
  · dsimp only
    split
    · simp [letter]
    · simp [mt List.mem_of_mem_take letter, mt List.mem_of_mem_drop letter]

theorem weight_spec {d : Decimal} (nonzero : d.digits ≠ 0) (k : Int) :
    k ≤ d.exponent + (digitCount d.digits - 1 : Nat) ↔ 10 ^ k ≤ d.value := by
  have positive := digitCount_pos d.digits
  have lower := value_le_value (pow_digitCount_le nonzero) d.exponent
  have upper : d.value < 10 ^ (digitCount d.digits + d.exponent : Int) := by
    have power : (0 : ℚ) < 10 ^ d.exponent := zpow_pos (by norm_num) _
    rw [← value_pow_ten]
    exact mul_lt_mul_of_pos_right (by exact_mod_cast lt_pow_digitCount d.digits) power
  rw [value_pow_ten] at lower
  constructor
  · intro le
    refine le_trans (zpow_le_zpow_right₀ (by norm_num) ?_) lower
    omega
  · intro le
    have less := (zpow_lt_zpow_iff_right₀ (by norm_num : (1 : ℚ) < 10)).mp (lt_of_le_of_lt le upper)
    omega

/-- The power of ten is written for decimals below `10 ^ -4` and from `10 ^ 16` on. -/
theorem mem_layout_iff {d : Decimal} (nonzero : d.digits ≠ 0) :
    'e' ∈ layout d ↔ d.value < 10 ^ (-4 : ℤ) ∨ 10 ^ (16 : ℤ) ≤ d.value := by
  have small := weight_spec nonzero (-4)
  have large := weight_spec nonzero 16
  rw [← large, ← not_le, ← small]
  simp only [layout, Numeral.length_digits]
  split
  · rename_i middle
    have unlettered := @not_mem_positional _ (d.exponent + (digitCount d.digits - 1 : Nat))
      (@Numeral.isDigit_of_mem_digits d.digits)
    simp only [unlettered, false_iff]
    omega
  · rename_i outside
    have lettered := @mem_scientific _ (d.exponent + (digitCount d.digits - 1 : Nat))
      (Numeral.digits_ne_nil d.digits)
    simp only [lettered, true_iff]
    omega

def value (x : Number) : ℚ := if x.isNegative then -absolute x.magnitude else absolute x.magnitude

theorem absolute_zero : absolute 0 = 0 := by
  have nothing : units 0 = 0 := rfl
  rw [absolute_eq, nothing, Nat.cast_zero, zero_div]

theorem absolute_nonneg (m : Nat) : 0 ≤ absolute m := by
  rw [← absolute_zero]
  exact absolute_strictMono.monotone (Nat.zero_le m)

theorem abs_value (x : Number) : |x.value| = absolute x.magnitude := by
  unfold value
  split
  · rw [abs_neg, abs_of_nonneg (absolute_nonneg _)]
  · rw [abs_of_nonneg (absolute_nonneg _)]

theorem eq_zero_of_absolute {m : Nat} (zero : absolute m = 0) : m = 0 := by
  apply absolute_strictMono.injective
  rw [zero, absolute_zero]

theorem value_of_zero {x : Number} (zero : x.magnitude = 0) : x.value = 0 := by
  rw [← abs_eq_zero, abs_value, zero, absolute_zero]

theorem value_eq_iff {x y : Number} :
    x.value = y.value ↔ x = y ∨ (x.magnitude = 0 ∧ y.magnitude = 0) := by
  constructor
  · intro same
    have magnitudes : x.magnitude = y.magnitude := by
      apply absolute_strictMono.injective
      rw [← abs_value, ← abs_value, same]
    by_cases signs : x.isNegative = y.isNegative
    · left
      rw [← ofMagnitude_magnitude x, ← ofMagnitude_magnitude y, signs, magnitudes]
    · right
      have opposite : x.value = -y.value := by
        unfold value
        rw [magnitudes, Bool.eq_not_of_ne signs]
        cases y.isNegative <;> simp
      have zero : absolute y.magnitude = 0 := by
        rw [← abs_value, abs_eq_zero]
        linarith
      rw [magnitudes]
      exact ⟨eq_zero_of_absolute zero, eq_zero_of_absolute zero⟩
  · rintro (rfl | ⟨zero, zero'⟩)
    · rfl
    · rw [value_of_zero zero, value_of_zero zero']

theorem equal_iff_value {x y : Number} (finite : x.isFinite = true) (finite' : y.isFinite = true) :
    x.equal y = true ↔ x.value = y.value := by
  rw [equal_iff, value_eq_iff]
  simp [Equal, isNaN_of_isFinite finite, isNaN_of_isFinite finite']

theorem value_withoutZeroSign (x : Number) : x.withoutZeroSign.value = x.value := by
  unfold withoutZeroSign
  split
  · rename_i zero
    rw [value_of_zero zero]
    exact value_of_zero rfl
  · rfl

theorem withoutZeroSign_eq_iff {x y : Number} :
    x.withoutZeroSign = y.withoutZeroSign ↔ x.value = y.value := by
  constructor
  · intro same
    rw [← value_withoutZeroSign x, same, value_withoutZeroSign]
  · intro same
    rcases value_eq_iff.mp same with rfl | ⟨zero, zero'⟩
    · rfl
    · rw [withoutZeroSign, withoutZeroSign, if_pos zero, if_pos zero']

theorem isFinite_withoutZeroSign {x : Number} (finite : x.isFinite = true) :
    x.withoutZeroSign.isFinite = true := by
  unfold withoutZeroSign
  split
  · decide
  · exact finite

theorem bits_withoutZeroSign (x : Number) :
    x.withoutZeroSign.bits = if x.bits = 0x8000000000000000 then 0 else x.bits := by
  have bound := x.bits.toNat_lt
  have sign : x.bits = 0x8000000000000000 ↔ x.bits.toNat = 2 ^ 63 := UInt64.toNat_inj.symm
  have zero : x.bits = 0 ↔ x.bits.toNat = 0 := UInt64.toNat_inj.symm
  have weight : signWeight = 2 ^ 63 := rfl
  unfold withoutZeroSign magnitude
  by_cases negative : x.bits = 0x8000000000000000
  · have none : x.bits.toNat % signWeight = 0 := by
      rw [sign.mp negative, weight, Nat.mod_self]
    rw [if_pos none, if_pos negative]
    rfl
  · rw [if_neg negative]
    split
    · rename_i none
      have positive : x.bits = 0 := by
        rw [sign] at negative
        rw [weight] at none
        rw [zero]
        omega
      rw [positive]
      rfl
    · rfl

theorem integer?_eq_some_iff {m n : Nat} : integer? m = some n ↔ absolute m = n := by
  have one : 0 < unitsOfOne := by exact_mod_cast unitsOfOne_pos
  have whole : absolute m = n ↔ units m = n * unitsOfOne := by
    rw [absolute_eq, div_eq_iff unitsOfOne_pos.ne']
    exact_mod_cast Iff.rfl
  rw [whole, integer?, Option.ite_none_right_eq_some, Option.some.injEq]
  constructor
  · rintro ⟨even, rfl⟩
    exact (Nat.div_mul_cancel (Nat.dvd_of_mod_eq_zero even)).symm
  · intro product
    rw [product]
    exact ⟨Nat.mul_mod_left _ _, Nat.mul_div_cancel _ one⟩

theorem signed_digits (n : Int) :
    signed (decide (n < 0)) (Numeral.digits n.natAbs) = toString n := by
  rw [Numeral.digits_eq_toDigits]
  cases n with
  | ofNat k => rfl
  | negSucc k =>
    have negative : decide (Int.negSucc k < 0) = true := decide_eq_true (Int.negSucc_lt_zero k)
    have text : toString (Int.negSucc k) = "-" ++ String.ofList (Nat.toDigits 10 (k + 1)) := rfl
    rw [negative, text, ← String.toList_inj]
    simp [signed]

theorem printed_whole {x : Number} (finite : x.isFinite = true) {n : Int} (whole : x.value = n)
    (small : n.natAbs < 10 ^ 16) : x.printed = toString n := by
  have size : absolute x.magnitude = n.natAbs := by
    rw [← abs_value, whole, Nat.cast_natAbs, Int.cast_abs]
  have sign : (x.isNegative && n.natAbs != 0) = decide (n < 0) := by
    unfold value at whole
    rw [size] at whole
    cases negative : x.isNegative with
    | true =>
      have value : -(n.natAbs : Int) = n := by
        rw [if_pos negative] at whole
        exact_mod_cast whole
      rw [Bool.true_and, Bool.eq_iff_iff, bne_iff_ne, decide_eq_true_iff]
      omega
    | false =>
      have value : (n.natAbs : Int) = n := by
        rw [if_neg (by simp [negative]), ← Int.cast_natCast] at whole
        exact Int.cast_injective whole
      rw [Bool.false_and, eq_comm, decide_eq_false_iff_not]
      omega
  have shown : x.printed = signed (x.isNegative && n.natAbs != 0) (Numeral.digits n.natAbs) := by
    have less : n.natAbs < 10000000000000000 := small
    simp only [printed, isNaN_of_isFinite finite, isInfinite_of_isFinite finite,
      integer?_eq_some_iff.mpr size, less, Bool.false_eq_true, if_false, if_true]
  rw [shown, sign, signed_digits]

theorem exists_value_eq {x : Number} {n : Nat} (whole : absolute x.magnitude = n) :
    ∃ k : Int, x.value = k ∧ k.natAbs = n := by
  unfold value
  split
  · exact ⟨-n, by rw [whole, Int.cast_neg, Int.cast_natCast], by omega⟩
  · exact ⟨n, by rw [whole, Int.cast_natCast], by omega⟩

theorem printed_other {x : Number} (finite : x.isFinite = true)
    (other : ∀ n : Int, x.value = n → 10 ^ 16 ≤ n.natAbs) :
    x.magnitude ≠ 0 ∧ x.printed = signed x.isNegative (layout (shortest x.magnitude)) := by
  have large (n : Nat) (whole : absolute x.magnitude = n) : ¬ n < 10000000000000000 := by
    obtain ⟨k, value, rfl⟩ := exists_value_eq whole
    exact Nat.not_lt.mpr (other k value)
  have nonzero : x.magnitude ≠ 0 := by
    intro zero
    exact large 0 (by rw [zero, absolute_zero, Nat.cast_zero]) (by decide)
  have inspected : x.inspected = signed x.isNegative (layout (shortest x.magnitude)) := by
    simp [inspected, isNaN_of_isFinite finite, isInfinite_of_isFinite finite, magnitudeText,
      nonzero]
  refine ⟨nonzero, ?_⟩
  cases whole : integer? x.magnitude with
  | none =>
    rw [← inspected]
    simp [printed, isNaN_of_isFinite finite, isInfinite_of_isFinite finite, whole]
  | some n =>
    have outside := large n (integer?_eq_some_iff.mp whole)
    rw [← inspected]
    simp [printed, isNaN_of_isFinite finite, isInfinite_of_isFinite finite, whole, outside]

theorem mem_signed_iff (negative : Bool) (cs : List Char) :
    'e' ∈ (signed negative cs).toList ↔ 'e' ∈ cs := by
  cases negative <;> simp [signed]

end Number

namespace Value

theorem ofAtom_printed {x : Number} (finite : x.isFinite = true) :
    ofAtom x.printed = .number x.withoutZeroSign := by
  obtain ⟨l, parsed, same⟩ := Number.parse?_printed finite
  rw [ofAtom_of_spells (Literal.parse?_iff_spells.mp parsed), same]

theorem ofAtom_printed_other {x : Number} (other : x.isFinite = false) :
    ofAtom x.printed = .symbol x.printed := by
  rcases symbol_or_finite x with ⟨readable, -⟩ | finite
  · exact ofAtom_readable readable
  · cases other.symm.trans finite

end Value

/-- The printed form of a finite number reads back as a number of the same value, with the same bits
unless these are those of the negative zero. A whole number below `10 ^ 16` is printed as its
digits, any other number as a shortest decimal. Numbers print alike exactly where they have the same
value, and not as one that is not finite. -/
theorem number_reads_back_from_print {x : Number} (finite : x.isFinite = true) :
    (∃ y : Number, Value.ofAtom x.printed = .number y ∧ y.value = x.value ∧ x.equal y = true ∧
        y.bits = if x.bits = 0x8000000000000000 then 0 else x.bits) ∧
      (∀ n : Int, x.value = n → n.natAbs < 10 ^ 16 → x.printed = toString n) ∧
      ((∀ n : Int, x.value = n → 10 ^ 16 ≤ n.natAbs) →
        ∃ d : Decimal, Number.IsShortest x.magnitude d ∧
          x.printed = Number.signed x.isNegative (Number.layout d) ∧
          ('e' ∈ x.printed.toList ↔ d.value < 10 ^ (-4 : ℤ) ∨ 10 ^ (16 : ℤ) ≤ d.value)) ∧
      (∀ y : Number, y.isFinite = true →
        (x.printed = y.printed ↔ x.value = y.value) ∧ (x.equal y = true ↔ x.value = y.value)) ∧
      ∀ y : Number, y.isFinite = false → x.printed ≠ y.printed := by
  have back := Value.ofAtom_printed finite
  refine ⟨?_, ?_, ?_, ?_, ?_⟩
  · have value := x.value_withoutZeroSign
    have same := (Number.equal_iff_value finite (Number.isFinite_withoutZeroSign finite)).mpr
      value.symm
    exact ⟨x.withoutZeroSign, back, value, same, x.bits_withoutZeroSign⟩
  · intro n whole small
    exact Number.printed_whole finite whole small
  · intro other
    obtain ⟨nonzero, shown⟩ := Number.printed_other finite other
    have short := Number.isShortest_shortest nonzero (Number.magnitude_lt finite)
    refine ⟨Number.shortest x.magnitude, short, shown, ?_⟩
    rw [shown, Number.mem_signed_iff, Number.mem_layout_iff (short.digits_ne_zero nonzero)]
  · intro y finite'
    refine ⟨?_, Number.equal_iff_value finite finite'⟩
    rw [← Number.withoutZeroSign_eq_iff]
    constructor
    · intro alike
      have back' := Value.ofAtom_printed finite'
      rw [← alike, back] at back'
      exact Value.number.inj back'
    · intro same
      rw [← Value.printed_withoutZeroSign x, same, Value.printed_withoutZeroSign]
  · intro y other alike
    have back' := Value.ofAtom_printed_other other
    rw [← alike, back] at back'
    cases back'

theorem ten_to_sixteen_reads_back :
    let x : Number := ⟨0x4341C37937E08000⟩
    x.isFinite = true ∧ x.value = 10 ^ 16 ∧
      (∃ d : Decimal, Number.IsShortest x.magnitude d ∧
        x.printed = Number.signed x.isNegative (Number.layout d) ∧
        ('e' ∈ x.printed.toList ↔ d.value < 10 ^ (-4 : ℤ) ∨ 10 ^ (16 : ℤ) ≤ d.value)) ∧
      ∃ y : Number, Value.ofAtom x.printed = .number y ∧ y.value = x.value ∧ x.equal y = true ∧
        y.bits = if x.bits = 0x8000000000000000 then 0 else x.bits := by
  intro x
  have finite : x.isFinite = true := by decide
  have positive : x.isNegative = false := by decide
  have field : x.magnitude / Number.fieldWeight = 1076 := by decide
  have fraction : x.magnitude % Number.fieldWeight = 0x1C37937E08000 := by decide
  have value : x.value = 10 ^ 16 := by
    have weight : Number.fieldWeight = 2 ^ 52 := rfl
    rw [Number.value, positive, Number.absolute, field, fraction, weight]
    norm_num
  obtain ⟨back, -, decimal, -⟩ := number_reads_back_from_print finite
  refine ⟨finite, value, decimal ?_, back⟩
  intro n whole
  have same : n = 10 ^ 16 := by
    rw [value] at whole
    exact_mod_cast whole.symm
  rw [same]
  decide

end Schemelet
