import Mathlib.Algebra.Group.Nat.Defs
import Schemelet.Number.Literal
import Schemelet.Number.Printer

/-! Numerals and literals: digits stand for the number they were made of, a text of a sign, digits,
a point and a power of ten reads as these parts, and a literal has no other characters. -/

namespace Schemelet

namespace Numeral

theorem digit_spec : ∀ d < 10, (digit d).isDigit = true ∧ digitValue (digit d) = d := by decide

theorem foldl_digits (cs : List Char) (n : Nat) :
    cs.foldl (fun n c => 10 * n + digitValue c) n = n * 10 ^ cs.length + value cs := by
  induction cs generalizing n with
  | nil => simp [value]
  | cons c cs ih =>
    have single : value (c :: cs) = digitValue c * 10 ^ cs.length + value cs := by
      rw [value, List.foldl_cons, ih, Nat.mul_zero, Nat.zero_add]
    rw [List.foldl_cons, ih, single, List.length_cons, Nat.pow_succ, Nat.add_mul, Nat.mul_comm 10 n,
      Nat.mul_assoc, Nat.mul_comm 10, Nat.add_assoc]

theorem value_append (cs ds : List Char) :
    value (cs ++ ds) = value cs * 10 ^ ds.length + value ds := by
  rw [value, List.foldl_append]
  exact foldl_digits ds (value cs)

theorem value_zeros (k : Nat) : value (List.replicate k '0') = 0 := by
  induction k with
  | zero => rfl
  | succ k ih =>
    rw [List.replicate_succ', value_append, ih]
    rfl

theorem value_digits (n : Nat) : value (digits n) = n := by
  fun_induction digits n with
  | case1 n small =>
    have last := (digit_spec n small).2
    simp [value, last]
  | case2 n large ih =>
    have last := (digit_spec (n % 10) (Nat.mod_lt n (by decide))).2
    have single : value [digit (n % 10)] = n % 10 := by simp [value, last]
    rw [value_append, ih, single]
    simp only [List.length_cons, List.length_nil]
    omega

theorem isDigit_of_mem_digits {n : Nat} : ∀ c ∈ digits n, c.isDigit = true := by
  fun_induction digits n with
  | case1 n small => simp [(digit_spec n small).1]
  | case2 n large ih =>
    intro c member
    rcases List.mem_append.mp member with earlier | last
    · exact ih c earlier
    · rw [List.mem_singleton.mp last]
      exact (digit_spec (n % 10) (Nat.mod_lt n (by decide))).1

end Numeral

namespace Literal

theorem splitDigits_append {ds rest : List Char} (digits : ∀ c ∈ ds, c.isDigit = true)
    (stop : ∀ c ∈ rest.head?, c.isDigit = false) : splitDigits (ds ++ rest) = (ds, rest) := by
  have restTaken : rest.takeWhile Char.isDigit = [] := by
    cases rest with
    | nil => rfl
    | cons c rest => rw [List.takeWhile_cons, stop c rfl]; rfl
  have restDropped : rest.dropWhile Char.isDigit = rest := by
    cases rest with
    | nil => rfl
    | cons c rest => rw [List.dropWhile_cons, stop c rfl]; rfl
  rw [splitDigits, List.takeWhile_append_of_pos digits, List.dropWhile_append_of_pos digits,
    restTaken, restDropped, List.append_nil]

theorem ne_of_isDigit {c other : Char} (digit : c.isDigit = true)
    (noDigit : other.isDigit = false) : c ≠ other := by
  rintro rfl
  cases digit.symm.trans noDigit

theorem splitSign_digit {c : Char} (digit : c.isDigit = true) (cs : List Char) :
    splitSign (c :: cs) = (false, c :: cs) := by
  have noMinus : c ≠ '-' := ne_of_isDigit digit rfl
  have noPlus : c ≠ '+' := ne_of_isDigit digit rfl
  simp [splitSign, noMinus, noPlus]

theorem splitSign_signed (negative : Bool) {ds rest : List Char} (nonempty : ds ≠ [])
    (digits : ∀ c ∈ ds, c.isDigit = true) :
    splitSign (Number.signed negative (ds ++ rest)).toList = (negative, ds ++ rest) := by
  rw [Number.signed, String.toList_ofList]
  cases negative with
  | true => rfl
  | false =>
    cases ds with
    | nil => exact absurd rfl nonempty
    | cons c ds => exact splitSign_digit (digits c List.mem_cons_self) (ds ++ rest)

theorem exponent?_exponentText (e : Int) : exponent? (Number.exponentText e) = some e := by
  have digits : ∀ ds : List Char, (∀ c ∈ ds, c.isDigit = true) → ds ≠ [] →
      Numeral.value ds = e.natAbs →
      exponent? ('e' :: (if e < 0 then '-' else '+') :: ds) = some e := by
    intro ds all nonempty magnitude
    have split : splitDigits ds = (ds, []) := by
      have whole := @splitDigits_append ds [] all (by simp)
      rwa [List.append_nil] at whole
    by_cases negative : e < 0
    · have sign : -(e.natAbs : Int) = e := by omega
      simp only [exponent?, splitSign, if_pos negative, split, ne_eq, nonempty, not_false_eq_true,
        magnitude, sign, true_or, and_true, if_true]
    · have sign : (e.natAbs : Int) = e := by omega
      simp only [exponent?, splitSign, if_neg negative, split, ne_eq, nonempty, not_false_eq_true,
        magnitude, sign, true_or, and_true, if_true, Bool.false_eq_true, if_false]
  unfold Number.exponentText
  have all := @Numeral.isDigit_of_mem_digits e.natAbs
  by_cases short : (Numeral.digits e.natAbs).length < 2
  · simp only [short, if_true]
    apply digits
    · exact List.forall_mem_cons.mpr ⟨rfl, all⟩
    · exact List.cons_ne_nil _ _
    · have value := Numeral.value_append ['0'] (Numeral.digits e.natAbs)
      rw [Numeral.value_digits] at value
      rw [← List.singleton_append, value]
      simp [Numeral.value, Numeral.digitValue]
  · simp only [short, if_false]
    exact digits _ all (Numeral.digits_ne_nil _) (Numeral.value_digits _)

variable {whole fraction rest : List Char} {e : Int}

theorem parse?_whole (negative : Bool) (nonempty : whole ≠ [])
    (digits : ∀ c ∈ whole, c.isDigit = true) (stop : ∀ c ∈ rest.head?, c = 'e')
    (power : exponent? rest = some e) :
    parse? (Number.signed negative (whole ++ rest)).toList = some ⟨negative, whole, [], e⟩ := by
  have split : splitDigits (whole ++ rest) = (whole, rest) :=
    splitDigits_append digits fun c first => by rw [stop c first]; rfl
  have noPoint : splitFraction rest = ([], rest) := by
    cases rest with
    | nil => rfl
    | cons c rest => rw [stop c rfl]; rfl
  simp [parse?, splitSign_signed negative nonempty digits, split, noPoint, nonempty, power]

theorem parse?_fraction (negative : Bool) (nonempty : whole ≠ [])
    (digits : ∀ c ∈ whole, c.isDigit = true) (places : ∀ c ∈ fraction, c.isDigit = true)
    (stop : ∀ c ∈ rest.head?, c = 'e') (power : exponent? rest = some e) :
    parse? (Number.signed negative (whole ++ '.' :: (fraction ++ rest))).toList =
      some ⟨negative, whole, fraction, e⟩ := by
  have split :
      splitDigits (whole ++ '.' :: (fraction ++ rest)) = (whole, '.' :: (fraction ++ rest)) :=
    splitDigits_append digits fun c first => by cases first; rfl
  have splitRest : splitDigits (fraction ++ rest) = (fraction, rest) :=
    splitDigits_append places fun c first => by rw [stop c first]; rfl
  simp [parse?, splitSign_signed negative nonempty digits, split, splitFraction, splitRest,
    nonempty, power]

def isPart (c : Char) : Bool := c.isDigit || c ∈ ['+', '-', '.', 'e', 'E']

theorem isPart_of_isDigit {c : Char} (digit : c.isDigit = true) : isPart c = true := by
  simp [isPart, digit]

theorem isPart_or_mem_splitSign {cs : List Char} {c : Char} (member : c ∈ cs) :
    isPart c = true ∨ c ∈ (splitSign cs).2 := by
  unfold splitSign
  split
  · rcases List.mem_cons.mp member with rfl | later
    · exact .inl rfl
    · exact .inr later
  · rcases List.mem_cons.mp member with rfl | later
    · exact .inl rfl
    · exact .inr later
  · exact .inr member

theorem isPart_or_mem_splitDigits {cs : List Char} {c : Char} (member : c ∈ cs) :
    isPart c = true ∨ c ∈ (splitDigits cs).2 := by
  rw [← @List.takeWhile_append_dropWhile _ Char.isDigit cs] at member
  rcases List.mem_append.mp member with taken | dropped
  · have digit := List.all_eq_true.mp (@List.all_takeWhile _ Char.isDigit cs) c taken
    exact .inl (isPart_of_isDigit digit)
  · exact .inr dropped

theorem isPart_or_mem_splitFraction {cs : List Char} {c : Char} (member : c ∈ cs) :
    isPart c = true ∨ c ∈ (splitFraction cs).2 := by
  unfold splitFraction
  split
  · rcases List.mem_cons.mp member with rfl | later
    · exact .inl rfl
    · exact isPart_or_mem_splitDigits later
  · exact .inr member

theorem isPart_of_mem_exponent {cs : List Char} {e : Int} {c : Char} (power : exponent? cs = some e)
    (member : c ∈ cs) : isPart c = true := by
  cases cs with
  | nil => cases member
  | cons first cs =>
    simp only [exponent?, Option.ite_none_right_eq_some] at power
    obtain ⟨⟨mark, _, nothing⟩, _⟩ := power
    rcases List.mem_cons.mp member with rfl | later
    · rcases mark with rfl | rfl <;> rfl
    · rcases isPart_or_mem_splitSign later with part | unsigned
      · exact part
      · rcases isPart_or_mem_splitDigits unsigned with part | extra
        · exact part
        · rw [nothing] at extra
          cases extra

theorem isPart_of_mem {cs : List Char} {l : Literal} (parsed : parse? cs = some l) :
    ∀ c ∈ cs, isPart c = true := by
  intro c member
  simp only [parse?, Option.ite_none_left_eq_some, Option.map_eq_some_iff] at parsed
  obtain ⟨_, e, power, _⟩ := parsed
  rcases isPart_or_mem_splitSign member with part | unsigned
  · exact part
  rcases isPart_or_mem_splitDigits unsigned with part | behind
  · exact part
  rcases isPart_or_mem_splitFraction behind with part | tail
  · exact part
  exact isPart_of_mem_exponent power tail

end Literal

end Schemelet
