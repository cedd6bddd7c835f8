import Schemelet.Proofs.Number.Readback
import Schemelet.Value.Equality

/-! Equality of values by their structure. The list of what is still to be compared decides it, and
it has the laws of an equality, but for NaN. -/

namespace Schemelet

namespace Number

/-- Equality of binary64 numbers: the zeros are equal, and NaN equals nothing. -/
def Equal (x y : Number) : Prop :=
  x.isNaN = false ∧ y.isNaN = false ∧ (x = y ∨ (x.magnitude = 0 ∧ y.magnitude = 0))

theorem key_eq_iff {x y : Number} :
    x.key = y.key ↔ x = y ∨ (x.magnitude = 0 ∧ y.magnitude = 0) := by
  constructor
  · intro keys
    unfold key at keys
    by_cases signs : x.isNegative = y.isNegative
    · left
      have magnitudes : x.magnitude = y.magnitude := by
        rw [signs] at keys
        split at keys <;> omega
      rw [← ofMagnitude_magnitude x, ← ofMagnitude_magnitude y, signs, magnitudes]
    · right
      split at keys <;> split at keys
      · simp_all
      · omega
      · omega
      · simp_all
  · rintro (rfl | ⟨zero, zero'⟩)
    · rfl
    · simp [key, zero, zero']

theorem equal_iff {x y : Number} : x.equal y = true ↔ x.Equal y := by
  simp only [equal, Equal, Bool.and_eq_true, Bool.not_eq_true', beq_iff_eq, key_eq_iff, and_assoc]

instance (x y : Number) : Decidable (x.Equal y) := decidable_of_iff _ equal_iff

theorem Equal.symm {x y : Number} (equal : x.Equal y) : y.Equal x := by
  obtain ⟨number, number', same | ⟨zero, zero'⟩⟩ := equal
  · exact ⟨number', number, Or.inl same.symm⟩
  · exact ⟨number', number, Or.inr ⟨zero', zero⟩⟩

theorem Equal.trans {x y z : Number} (first : x.Equal y) (second : y.Equal z) : x.Equal z := by
  obtain ⟨number, -, same⟩ := first
  obtain ⟨-, number', same'⟩ := second
  refine ⟨number, number', ?_⟩
  exact key_eq_iff.mp ((key_eq_iff.mpr same).trans (key_eq_iff.mpr same'))

theorem equal_self_iff {x : Number} : x.Equal x ↔ x.isNaN = false := by
  simp [Equal]

end Number

namespace Value

/-- Values of the same structure with the same atoms, where it is given which procedures are the
same. -/
inductive Equal (same : Value → Value → Bool) : Value → Value → Prop where
  | unspecified : Equal same .unspecified .unspecified
  | empty : Equal same .empty .empty
  | bool (b : Bool) : Equal same (.bool b) (.bool b)
  | number {x y : Number} (equal : x.Equal y) : Equal same (.number x) (.number y)
  | symbol (name : String) : Equal same (.symbol name) (.symbol name)
  | text (content : String) : Equal same (.text content) (.text content)
  | primitive {p q : Primitive} (known : same (.primitive p) (.primitive q) = true) :
      Equal same (.primitive p) (.primitive q)
  | closure {params params' : List String} {body body' : Value} {frame frame' : FrameId}
      (known : same (.closure params body frame) (.closure params' body' frame') = true) :
      Equal same (.closure params body frame) (.closure params' body' frame')
  | pair {a b d e : Value} (cars : Equal same a b) (cdrs : Equal same d e) :
      Equal same (.pair a d) (.pair b e)

def holdsNaN : Value → Bool
  | .pair a d => a.holdsNaN || d.holdsNaN
  | .number x => x.isNaN
  | _ => false

def isProcedure : Value → Bool
  | .primitive _ | .closure _ _ _ => true
  | _ => false

variable {same : Value → Value → Bool}

theorem equal_of_sameAtom {v w : Value} (known : sameAtom same v w = true) : Equal same v w := by
  unfold sameAtom at known
  split at known
  · exact .unspecified
  · exact .empty
  · rw [beq_iff_eq.mp known]
    exact .bool _
  · exact .number (Number.equal_iff.mp known)
  · rw [beq_iff_eq.mp known]
    exact .symbol _
  · rw [beq_iff_eq.mp known]
    exact .text _
  · exact .primitive known
  · exact .closure known
  · cases known

theorem sameAtom_of_equal {v w : Value} (apart : ∀ a d b e, v = .pair a d → w = .pair b e → False)
    (equal : Equal same v w) : sameAtom same v w = true := by
  cases equal with
  | number equal => exact Number.equal_iff.mpr equal
  | primitive known => exact known
  | closure known => exact known
  | pair => exact (apart _ _ _ _ rfl rfl).elim
  | _ => simp [sameAtom]

theorem equal_pair_iff {a b d e : Value} :
    Equal same (.pair a d) (.pair b e) ↔ Equal same a b ∧ Equal same d e := by
  constructor
  · intro equal
    cases equal with
    | pair cars cdrs => exact ⟨cars, cdrs⟩
  · rintro ⟨cars, cdrs⟩
    exact .pair cars cdrs

theorem equalAll_iff (pending : List (Value × Value)) :
    equalAll same pending = true ↔ ∀ entry ∈ pending, Equal same entry.1 entry.2 := by
  fun_induction equalAll same pending with
  | case1 => simp
  | case2 a d b e pending nested ih =>
    rw [ih]
    simp only [List.forall_mem_cons, equal_pair_iff]
    constructor
    · rintro ⟨cdrs, cars, rest⟩
      exact ⟨⟨cars, cdrs⟩, rest⟩
    · rintro ⟨⟨cars, cdrs⟩, rest⟩
      exact ⟨cdrs, cars, rest⟩
  | case3 a d b e pending atom known ih =>
    have cars : Equal same a b := equal_of_sameAtom known
    rw [ih]
    simp only [List.forall_mem_cons, equal_pair_iff, cars, true_and]
  | case4 a d b e pending atom differ =>
    have cars : ¬ Equal same a b := by
      intro equal
      refine differ (sameAtom_of_equal ?_ equal)
      rintro a' d' _ _ rfl _
      exact atom rfl
    simp only [List.forall_mem_cons, equal_pair_iff, cars, false_and, Bool.false_eq_true]
  | case5 v w pending apart known ih =>
    have first : Equal same v w := equal_of_sameAtom known
    rw [ih]
    simp only [List.forall_mem_cons, first, true_and]
  | case6 v w pending apart differ =>
    have first : ¬ Equal same v w := fun equal => differ (sameAtom_of_equal apart equal)
    simp only [List.forall_mem_cons, first, false_and, Bool.false_eq_true]

theorem equal_iff {v w : Value} : equal same v w = true ↔ Equal same v w := by
  rw [equal, equalAll_iff]
  exact List.forall_mem_singleton

theorem Equal.symm (symmetric : ∀ p q, same p q = true → same q p = true) {v w : Value}
    (equal : Equal same v w) : Equal same w v := by
  induction equal with
  | unspecified => exact .unspecified
  | empty => exact .empty
  | bool b => exact .bool b
  | number equal => exact .number equal.symm
  | symbol name => exact .symbol name
  | text content => exact .text content
  | primitive known => exact .primitive (symmetric _ _ known)
  | closure known => exact .closure (symmetric _ _ known)
  | pair _ _ cars cdrs => exact .pair cars cdrs

theorem Equal.trans (transitive : ∀ p q r, same p q = true → same q r = true → same p r = true)
    {u v w : Value} (first : Equal same u v) (second : Equal same v w) : Equal same u w := by
  induction first generalizing w with
  | number equal =>
    cases second with
    | number equal' => exact .number (equal.trans equal')
  | primitive known =>
    cases second with
    | primitive known' => exact .primitive (transitive _ _ _ known known')
  | closure known =>
    cases second with
    | closure known' => exact .closure (transitive _ _ _ known known')
  | pair _ _ cars cdrs =>
    cases second with
    | pair cars' cdrs' => exact .pair (cars cars') (cdrs cdrs')
  | _ => exact second

theorem equal_self_iff (reflexive : ∀ p, p.isProcedure = true → same p p = true) (v : Value) :
    Equal same v v ↔ v.holdsNaN = false := by
  induction v with
  | unspecified => exact iff_of_true .unspecified rfl
  | empty => exact iff_of_true .empty rfl
  | bool b => exact iff_of_true (.bool b) rfl
  | number x =>
    rw [holdsNaN, ← Number.equal_self_iff]
    constructor
    · intro equal
      cases equal with
      | number equal => exact equal
    · exact .number
  | symbol name => exact iff_of_true (.symbol name) rfl
  | text content => exact iff_of_true (.text content) rfl
  | pair a d cars cdrs => rw [equal_pair_iff, cars, cdrs, holdsNaN, Bool.or_eq_false_iff]
  | primitive p => exact iff_of_true (.primitive (reflexive _ rfl)) rfl
  | closure params body frame => exact iff_of_true (.closure (reflexive _ rfl)) rfl

/-- The comparison over a list of waiting pairs decides equality by structure, whichever procedures
are the same. It is as symmetric and as transitive as their sameness is, and where each of them is
the same as itself, the values that differ from themselves are those with NaN in them. -/
theorem comparison_decides_structural_equality (same : Value → Value → Bool) :
    (∀ v w, equal same v w = true ↔ Equal same v w) ∧
      ((∀ p q, same p q = true → same q p = true) →
        ∀ v w, equal same v w = true → equal same w v = true) ∧
      ((∀ p q r, same p q = true → same q r = true → same p r = true) →
        ∀ u v w, equal same u v = true → equal same v w = true → equal same u w = true) ∧
      ((∀ p, p.isProcedure = true → same p p = true) →
        ∀ v, equal same v v = true ↔ v.holdsNaN = false) := by
  refine ⟨fun _ _ => equal_iff, ?_, ?_, ?_⟩
  · intro symmetric v w equal
    exact equal_iff.mpr ((equal_iff.mp equal).symm symmetric)
  · intro transitive u v w first second
    exact equal_iff.mpr ((equal_iff.mp first).trans transitive (equal_iff.mp second))
  · intro reflexive v
    rw [equal_iff]
    exact equal_self_iff reflexive v

theorem zeros_equal_nan_unequal :
    let same : Value → Value → Bool := fun p q => decide (p = q)
    let zero : Value := .number ⟨0⟩
    let negative : Value := .number ⟨0x8000000000000000⟩
    let v : Value := .pair (.pair (.pair zero .empty) negative) (.primitive .car)
    let w : Value := .pair (.pair (.pair negative .empty) zero) (.primitive .car)
    let nan : Value := .number ⟨0x7FF8000000000000⟩
    equal same v w = true ∧ equal same w v = true ∧ equal same v v = true ∧
      ¬ equal same (.pair v nan) (.pair v nan) = true := by
  intro same zero negative v w nan
  obtain ⟨structural, symmetric, transitive, reflexive⟩ :=
    comparison_decides_structural_equality same
  have zeros : Number.Equal ⟨0⟩ ⟨0x8000000000000000⟩ := by decide +kernel
  have forth : equal same v w = true := by
    refine (structural v w).mpr (.pair (.pair (.pair (.number zeros) .empty) ?_) ?_)
    · exact .number zeros.symm
    · exact .primitive (by decide)
  have back : equal same w v = true :=
    symmetric (fun p q known => by simpa [same] using (of_decide_eq_true known).symm) v w forth
  refine ⟨forth, back, ?_, ?_⟩
  · refine transitive (fun p q r first second => ?_) v w v forth back
    simpa [same] using (of_decide_eq_true first).trans (of_decide_eq_true second)
  · intro impossible
    have held := (reflexive (fun p _ => by simp [same]) (.pair v nan)).mp impossible
    revert held
    decide +kernel

end Value

end Schemelet
