import Schemelet.Proofs.Number.Literal
import Schemelet.Proofs.Number.Rounding

/-! The printed form of a finite number is a literal of that number, but for the sign of zero. -/

namespace Schemelet

namespace Number

/-- The text is a literal of the given sign for the given decimal, or for one that rounds alike. -/
def ReadsAs (negative : Bool) (cs : List Char) (d : Decimal) : Prop :=
  ∃ l, Literal.parse? (signed negative cs).toList = some l ∧ l.negative = negative ∧
    l.decimal.nearest = d.nearest

theorem ReadsAs.number {negative : Bool} {cs : List Char} {d : Decimal}
    (reads : ReadsAs negative cs d) :
    ∃ l, Literal.parse? (signed negative cs).toList = some l ∧
      l.number = ofMagnitude negative d.nearest := by
  obtain ⟨l, parsed, rfl, near⟩ := reads
  exact ⟨l, parsed, by rw [Literal.number, ofDecimal, near]⟩

variable {ds : List Char} {e : Int}

theorem head?_exponentText {c : Char} (first : c ∈ (exponentText e).head?) : c = 'e' := by
  cases first
  rfl

theorem readsAs_scientific (negative : Bool) (nonempty : ds ≠ [])
    (digits : ∀ c ∈ ds, c.isDigit = true) :
    ReadsAs negative (scientific ds e) ⟨Numeral.value ds, e - (ds.length - 1 : Nat)⟩ := by
  have stop : ∀ c ∈ (exponentText e).head?, c = 'e' := fun _ first => head?_exponentText first
  have power := Literal.exponent?_exponentText e
  match ds with
  | [] => exact absurd rfl nonempty
  | [d] =>
    have parsed := Literal.parse?_whole negative nonempty digits stop power
    exact ⟨_, parsed, rfl, rfl⟩
  | d :: next :: rest =>
    obtain ⟨first, places⟩ := List.forall_mem_cons.mp digits
    have single : ∀ c ∈ [d], c.isDigit = true := List.forall_mem_singleton.mpr first
    have parsed := Literal.parse?_fraction negative (List.cons_ne_nil d []) single places stop power
    exact ⟨_, parsed, rfl, rfl⟩

theorem readsAs_below_one (negative : Bool) (digits : ∀ c ∈ ds, c.isDigit = true)
    (nonempty : ds ≠ []) (small : e < 0) :
    ReadsAs negative ('0' :: '.' :: List.replicate (-e - 1).toNat '0' ++ ds)
      ⟨Numeral.value ds, e - (ds.length - 1 : Nat)⟩ := by
  generalize zerosEq : List.replicate (-e - 1).toNat '0' = zeros
  have places : ∀ c ∈ zeros ++ ds, c.isDigit = true := by
    intro c member
    rcases List.mem_append.mp member with zero | later
    · rw [← zerosEq] at zero
      rw [List.eq_of_mem_replicate zero]
      rfl
    · exact digits c later
  have single : ∀ c ∈ ['0'], c.isDigit = true := List.forall_mem_singleton.mpr rfl
  have parsed := @Literal.parse?_fraction ['0'] (zeros ++ ds) [] 0 negative (List.cons_ne_nil _ _)
    single places (by simp) rfl
  rw [List.append_nil] at parsed
  refine ⟨_, parsed, rfl, ?_⟩
  have value : Numeral.value (['0'] ++ (zeros ++ ds)) = Numeral.value ds := by
    rw [← List.append_assoc, Numeral.value_append, ← zerosEq, ← List.replicate_one,
      List.replicate_append_replicate, Numeral.value_zeros, Nat.zero_mul, Nat.zero_add]
  have exponent : (0 : Int) - (zeros ++ ds).length = e - (ds.length - 1 : Nat) := by
    have := List.length_pos_iff.mpr nonempty
    rw [← zerosEq, List.length_append, List.length_replicate]
    omega
  rw [Literal.decimal, value, exponent]

theorem readsAs_whole (negative : Bool) (digits : ∀ c ∈ ds, c.isDigit = true) (nonempty : ds ≠ [])
    {k : Nat} :
    ReadsAs negative (ds ++ List.replicate k '0' ++ ['.', '0']) ⟨Numeral.value ds, k⟩ := by
  have whole : ∀ c ∈ ds ++ List.replicate k '0', c.isDigit = true := by
    intro c member
    rcases List.mem_append.mp member with earlier | zero
    · exact digits c earlier
    · rw [List.eq_of_mem_replicate zero]
      rfl
  have single : ∀ c ∈ ['0'], c.isDigit = true := List.forall_mem_singleton.mpr rfl
  have parsed := @Literal.parse?_fraction (ds ++ List.replicate k '0') ['0'] [] 0 negative
    (List.append_ne_nil_of_left_ne_nil nonempty _) whole single (by simp) rfl
  refine ⟨_, parsed, rfl, ?_⟩
  have value : Numeral.value (ds ++ List.replicate k '0' ++ ['0']) =
      Numeral.value ds * 10 ^ (k + 1) := by
    rw [List.append_assoc, ← List.replicate_succ', Numeral.value_append, Numeral.value_zeros,
      List.length_replicate, Nat.add_zero]
  rw [Literal.decimal, value, Decimal.nearest_mul_pow]
  congr 2
  simp only [List.length_cons, List.length_nil]
  omega

theorem readsAs_split (negative : Bool) (digits : ∀ c ∈ ds, c.isDigit = true) {places : Nat}
    (positive : 0 < places) (long : places < ds.length) :
    ReadsAs negative (ds.take places ++ '.' :: ds.drop places)
      ⟨Numeral.value ds, -(ds.length - places : Nat)⟩ := by
  have nonempty : ds.take places ≠ [] := by
    apply List.ne_nil_of_length_pos
    rw [List.length_take]
    omega
  have parsed := @Literal.parse?_fraction (ds.take places) (ds.drop places) [] 0 negative nonempty
    (fun c member => digits c (List.mem_of_mem_take member))
    (fun c member => digits c (List.mem_of_mem_drop member)) (by simp) rfl
  rw [List.append_nil] at parsed
  refine ⟨_, parsed, rfl, ?_⟩
  rw [Literal.decimal, List.take_append_drop, List.length_drop, Int.zero_sub]

theorem readsAs_positional (negative : Bool) (nonempty : ds ≠ [])
    (digits : ∀ c ∈ ds, c.isDigit = true) :
    ReadsAs negative (positional ds e) ⟨Numeral.value ds, e - (ds.length - 1 : Nat)⟩ := by
  have positive := List.length_pos_iff.mpr nonempty
  unfold positional
  split
  · rename_i small
    exact readsAs_below_one negative digits nonempty small
  · dsimp only
    split
    · rename_i large short
      have exponent : e - (ds.length - 1 : Nat) = (e.toNat + 1 - ds.length : Nat) := by omega
      rw [exponent]
      exact readsAs_whole negative digits nonempty
    · rename_i large short
      have exponent : e - (ds.length - 1 : Nat) = -(ds.length - (e.toNat + 1) : Nat) := by omega
      rw [exponent]
      exact readsAs_split negative digits (Nat.succ_pos _) (Nat.lt_of_not_le short)

theorem readsAs_layout (negative : Bool) (d : Decimal) : ReadsAs negative (layout d) d := by
  have nonempty := Numeral.digits_ne_nil d.digits
  have digits := @Numeral.isDigit_of_mem_digits d.digits
  generalize weight : d.exponent + ((Numeral.digits d.digits).length - 1 : Nat) = e
  have whole : e - ((Numeral.digits d.digits).length - 1 : Nat) = d.exponent := by omega
  simp only [layout, weight]
  split
  · have reads := @readsAs_positional _ e negative nonempty digits
    rwa [Numeral.value_digits, whole] at reads
  · have reads := @readsAs_scientific _ e negative nonempty digits
    rwa [Numeral.value_digits, whole] at reads

theorem readsAs_digits (negative : Bool) (n : Nat) :
    ReadsAs negative (Numeral.digits n) ⟨n, 0⟩ := by
  have parsed := @Literal.parse?_whole (Numeral.digits n) [] 0 negative (Numeral.digits_ne_nil n)
    Numeral.isDigit_of_mem_digits (by simp) rfl
  rw [List.append_nil] at parsed
  refine ⟨_, parsed, rfl, ?_⟩
  rw [Literal.decimal, List.append_nil, Numeral.value_digits]
  rfl

theorem nearest_of_integer {m n : Nat} (finite : m < infinite) (whole : integer? m = some n) :
    Decimal.nearest ⟨n, 0⟩ = m := by
  simp only [integer?, Option.ite_none_right_eq_some, Option.some.injEq] at whole
  obtain ⟨even, rfl⟩ := whole
  apply Decimal.nearest_of_exact finite
  have value : units m / unitsOfOne * unitsOfOne = units m :=
    Nat.div_mul_cancel (Nat.dvd_of_mod_eq_zero even)
  change units m / unitsOfOne * 1 * unitsOfOne = units m * 1
  rw [Nat.mul_one, Nat.mul_one, value]

theorem integer?_zero : integer? 0 = some 0 := by
  have nothing : units 0 = 0 := rfl
  rw [integer?, nothing, Nat.zero_mod, if_pos rfl, Nat.zero_div]

theorem ofMagnitude_magnitude (x : Number) : ofMagnitude x.isNegative x.magnitude = x := by
  have bound := x.bits.toNat_lt
  have whole : (if x.isNegative then signWeight + x.magnitude else x.magnitude) = x.bits.toNat := by
    have weight : signWeight = 2 ^ 63 := rfl
    simp only [isNegative, magnitude, weight, decide_eq_true_eq]
    split <;> omega
  rw [ofMagnitude, whole, UInt64.ofNat_toNat]

theorem magnitude_lt {x : Number} (finite : x.isFinite = true) : x.magnitude < infinite :=
  of_decide_eq_true finite

theorem isNaN_of_isFinite {x : Number} (finite : x.isFinite = true) : x.isNaN = false :=
  decide_eq_false (Nat.lt_asymm (magnitude_lt finite))

theorem isInfinite_of_isFinite {x : Number} (finite : x.isFinite = true) : x.isInfinite = false :=
  decide_eq_false (Nat.ne_of_lt (magnitude_lt finite))

def withoutZeroSign (x : Number) : Number := if x.magnitude = 0 then ofMagnitude false 0 else x

theorem readsAs_inspected {x : Number} (finite : x.isFinite = true) (nonzero : x.magnitude ≠ 0) :
    ∃ l, Literal.parse? x.inspected.toList = some l ∧ l.number = x := by
  have shown : x.inspected = signed x.isNegative (layout (shortest x.magnitude)) := by
    simp [inspected, isNaN_of_isFinite finite, isInfinite_of_isFinite finite, magnitudeText,
      nonzero]
  obtain ⟨l, parsed, value⟩ := (readsAs_layout x.isNegative (shortest x.magnitude)).number
  rw [nearest_shortest (magnitude_lt finite), ofMagnitude_magnitude] at value
  exact ⟨l, by rwa [shown], value⟩

theorem parse?_printed {x : Number} (finite : x.isFinite = true) :
    ∃ l, Literal.parse? x.printed.toList = some l ∧ l.number = x.withoutZeroSign := by
  have number := isNaN_of_isFinite finite
  have bounded := isInfinite_of_isFinite finite
  by_cases zero : x.magnitude = 0
  · have shown : x.printed = signed false (Numeral.digits 0) := by
      simp [printed, number, bounded, zero, integer?_zero]
    have reads := (readsAs_digits false 0).number
    rw [nearest_of_integer (by decide) integer?_zero] at reads
    rwa [shown, withoutZeroSign, if_pos zero]
  · have same : x.withoutZeroSign = x := if_neg zero
    rw [same]
    cases whole : integer? x.magnitude with
    | none =>
      have shown : x.printed = x.inspected := by simp [printed, number, bounded, whole]
      rw [shown]
      exact readsAs_inspected finite zero
    | some n =>
      have near := nearest_of_integer (magnitude_lt finite) whole
      by_cases small : n < 10000000000000000
      · have nonzero : n ≠ 0 := by
          rintro rfl
          exact zero near.symm
        have shown : x.printed = signed x.isNegative (Numeral.digits n) := by
          have kept : (n != 0) = true := bne_iff_ne.mpr nonzero
          simp [printed, number, bounded, whole, small, kept]
        have reads := (readsAs_digits x.isNegative n).number
        rw [near, ofMagnitude_magnitude] at reads
        rwa [shown]
      · have shown : x.printed = x.inspected := by simp [printed, number, bounded, whole, small]
        rw [shown]
        exact readsAs_inspected finite zero

end Number

end Schemelet
