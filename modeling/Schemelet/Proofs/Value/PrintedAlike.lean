import Schemelet.Proofs.Reader.PrintedNumber

/-! Equal values and their printed forms. Equality and printing take a value apart in different ways
and order; both come to the same atoms, and of these the printed form keeps apart no two that are
equal. Numbers other than NaN print alike exactly where they are equal. -/

namespace Schemelet

namespace Number

variable {x y : Number}

theorem printed_of_equal (equal : x.Equal y) : x.printed = y.printed := by
  obtain ⟨-, -, rfl | ⟨zero, zero'⟩⟩ := equal
  · rfl
  · have same : x.withoutZeroSign = y.withoutZeroSign := by
      rw [withoutZeroSign, withoutZeroSign, if_pos zero, if_pos zero']
    rw [← Value.printed_withoutZeroSign x, same, Value.printed_withoutZeroSign]

theorem magnitude_of_infinite (number : x.isNaN = false) (unbounded : x.isFinite = false) :
    x.magnitude = infinite := by
  simp only [isNaN, isFinite, decide_eq_false_iff_not] at number unbounded
  omega

theorem printed_infinite (large : x.magnitude = infinite) :
    x.printed = if x.isNegative then "-inf.0" else "+inf.0" := by
  simp [printed, isNaN, isInfinite, large]

theorem eq_of_printed_infinite (large : x.magnitude = infinite) (large' : y.magnitude = infinite)
    (alike : x.printed = y.printed) : x = y := by
  have signs : x.isNegative = y.isNegative := by
    rw [printed_infinite large, printed_infinite large'] at alike
    revert alike
    cases x.isNegative <;> cases y.isNegative <;> decide
  rw [← ofMagnitude_magnitude x, ← ofMagnitude_magnitude y, signs, large, large']

theorem printed_eq_iff (number : x.isNaN = false) (number' : y.isNaN = false) :
    x.printed = y.printed ↔ x.equal y = true := by
  rw [equal_iff]
  refine ⟨fun alike => ⟨number, number', ?_⟩, printed_of_equal⟩
  -- What the two forms read as decides whether the numbers are finite, and then their values.
  cases finite : x.isFinite with
  | true =>
    have back := Value.ofAtom_printed finite
    rw [alike] at back
    cases finite' : y.isFinite with
    | true =>
      rw [Value.ofAtom_printed finite'] at back
      exact value_eq_iff.mp (withoutZeroSign_eq_iff.mp (Value.number.inj back).symm)
    | false =>
      rw [Value.ofAtom_printed_other finite'] at back
      cases back
  | false =>
    have back := Value.ofAtom_printed_other finite
    rw [alike] at back
    cases finite' : y.isFinite with
    | true =>
      rw [Value.ofAtom_printed finite'] at back
      cases back
    | false =>
      exact Or.inl (eq_of_printed_infinite (magnitude_of_infinite number finite)
        (magnitude_of_infinite number' finite') alike)

end Number

namespace Value

variable {same : Value → Value → Bool}

theorem writtenTail_of_atomText {v w : Value} (atom : v.isPair = false) (atom' : w.isPair = false)
    (nonempty : v ≠ .empty) (nonempty' : w ≠ .empty) (alike : v.atomText = w.atomText) :
    v.written = w.written ∧ v.writtenTail = w.writtenTail := by
  rw [written_atom atom, written_atom atom', writtenTail_atom atom nonempty,
    writtenTail_atom atom' nonempty', alike]
  exact ⟨rfl, rfl⟩

theorem Equal.written
    (procedures : ∀ p q, p.isProcedure = true → q.isProcedure = true → same p q = true →
      p.printed = q.printed) {v w : Value} (equal : Equal same v w) :
    v.written = w.written ∧ v.writtenTail = w.writtenTail := by
  induction equal with
  | number equal =>
    exact writtenTail_of_atomText rfl rfl (by simp) (by simp) (Number.printed_of_equal equal)
  | primitive known | closure known =>
    have alike := procedures _ _ rfl rfl known
    rw [printed_atom rfl, printed_atom rfl] at alike
    exact writtenTail_of_atomText rfl rfl (by simp) (by simp) alike
  | pair _ _ cars cdrs =>
    simp only [Value.written, writtenTail, cars.1, cdrs.2, and_self]
  | _ => exact ⟨rfl, rfl⟩

/-- Values that the comparison takes for equal have the same printed form, if only the procedures do
that are taken for the same. The comparison of numbers and their printed forms tell the same
numbers apart, NaN aside. -/
theorem equal_values_print_alike
    (procedures : ∀ p q, p.isProcedure = true → q.isProcedure = true → same p q = true →
      p.printed = q.printed) :
    (∀ v w : Value, equal same v w = true → v.printed = w.printed) ∧
      ∀ x y : Number, x.isNaN = false → y.isNaN = false →
        (equal same (.number x) (.number y) = true ↔ x.printed = y.printed) := by
  constructor
  · intro v w equal
    rw [String.ext_iff, toList_printed, toList_printed]
    exact ((equal_iff.mp equal).written procedures).1
  · intro x y number number'
    rw [Number.printed_eq_iff number number', Number.equal_iff, equal_iff]
    constructor
    · intro equal
      cases equal with
      | number equal => exact equal
    · exact .number

theorem signs_of_zeros_not_printed :
    let same : Value → Value → Bool := fun p q => decide (p = q)
    let zero : Value := .number ⟨0⟩
    let negative : Value := .number ⟨0x8000000000000000⟩
    let procedure : Value := .closure ["x"] (.symbol "x") 0
    let v : Value := .pair (.pair zero .empty) (.pair procedure negative)
    let w : Value := .pair (.pair negative .empty) (.pair procedure zero)
    equal same v w = true ∧ v ≠ w ∧ v.printed = w.printed := by
  intro same zero negative procedure v w
  have procedures : ∀ p q, p.isProcedure = true → q.isProcedure = true → same p q = true →
      p.printed = q.printed := by
    intro p q _ _ known
    rw [of_decide_eq_true known]
  have zeros : Number.Equal ⟨0⟩ ⟨0x8000000000000000⟩ := by decide +kernel
  have equal : Value.equal same v w = true := by
    refine equal_iff.mpr (.pair (.pair (.number zeros) .empty) (.pair ?_ (.number zeros.symm)))
    exact .closure (decide_eq_true rfl)
  exact ⟨equal, by decide, (equal_values_print_alike procedures).1 v w equal⟩

end Value

end Schemelet
