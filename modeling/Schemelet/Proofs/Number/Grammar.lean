import Schemelet.Proofs.Number.Literal

/-! The grammar of decimal literals. A text is read as a literal exactly if the grammar derives it,
and then as the one literal whose sign, digits and power of ten it spells. -/

namespace Schemelet.Literal

inductive Sign : List Char → Bool → Prop where
  | none : Sign [] false
  | plus : Sign ['+'] false
  | minus : Sign ['-'] true

structure Digits (cs : List Char) : Prop where
  nonempty : cs ≠ []
  digits : ∀ c ∈ cs, c.isDigit = true

inductive Mantissa : List Char → List Char → List Char → Prop where
  | whole {whole : List Char} (digits : Digits whole) : Mantissa whole whole []
  | point {whole fraction : List Char} (digits : Digits whole)
      (places : ∀ c ∈ fraction, c.isDigit = true) :
      Mantissa (whole ++ '.' :: fraction) whole fraction
  | fraction {fraction : List Char} (places : Digits fraction) :
      Mantissa ('.' :: fraction) [] fraction

inductive Exponent : List Char → Int → Prop where
  | none : Exponent [] 0
  | power {mark : Char} {sign ds : List Char} {negative : Bool} (marked : mark = 'e' ∨ mark = 'E')
      (signed : Sign sign negative) (digits : Digits ds) :
      Exponent (mark :: (sign ++ ds))
        (if negative then -(Numeral.value ds : Int) else Numeral.value ds)

/-- The text is a sign, a mantissa and an exponent, which are the parts of the literal. -/
inductive Spells : List Char → Literal → Prop where
  | parts {sign mantissa power whole fraction : List Char} {negative : Bool} {e : Int}
      (signed : Sign sign negative) (digits : Mantissa mantissa whole fraction)
      (exponent : Exponent power e) :
      Spells (sign ++ (mantissa ++ power)) ⟨negative, whole, fraction, e⟩

theorem parse?_eq_some_iff {cs : List Char} {l : Literal} :
    parse? cs = some l ↔ ∃ unsigned rest power, splitSign cs = (l.negative, unsigned) ∧
      splitDigits unsigned = (l.whole, rest) ∧ splitFraction rest = (l.fraction, power) ∧
      (l.whole = [] → l.fraction ≠ []) ∧ exponent? power = some l.exponent := by
  constructor
  · intro parsed
    simp only [parse?, Option.ite_none_left_eq_some, Option.map_eq_some_iff] at parsed
    obtain ⟨someDigit, e, power, rfl⟩ := parsed
    exact ⟨_, _, _, rfl, rfl, rfl, not_and.mp someDigit, power⟩
  · rintro ⟨unsigned, rest, power, sign, digits, places, someDigit, exponent⟩
    simp only [parse?, sign, digits, places, exponent, if_neg (not_and.mpr someDigit)]
    rfl

theorem sign_splitSign (cs : List Char) :
    ∃ sign, Sign sign (splitSign cs).1 ∧ cs = sign ++ (splitSign cs).2 := by
  unfold splitSign
  split
  · exact ⟨['-'], .minus, rfl⟩
  · exact ⟨['+'], .plus, rfl⟩
  · exact ⟨[], .none, rfl⟩

theorem append_splitDigits (cs : List Char) : (splitDigits cs).1 ++ (splitDigits cs).2 = cs :=
  List.takeWhile_append_dropWhile

theorem isDigit_splitDigits (cs : List Char) : ∀ c ∈ (splitDigits cs).1, c.isDigit = true :=
  List.all_eq_true.mp List.all_takeWhile

theorem splitSign_append {sign rest : List Char} {negative : Bool} (signed : Sign sign negative)
    (stop : ∀ c ∈ rest.head?, c.isDigit = true ∨ c = '.') :
    splitSign (sign ++ rest) = (negative, rest) := by
  cases signed with
  | plus => rfl
  | minus => rfl
  | none =>
    cases rest with
    | nil => rfl
    | cons c rest =>
      rcases stop c rfl with digit | rfl
      · exact splitSign_digit digit rest
      · rfl

theorem Digits.head {ds : List Char} (digits : Digits ds) (rest : List Char) :
    ∀ c ∈ (ds ++ rest).head?, c.isDigit = true := by
  obtain ⟨nonempty, all⟩ := digits
  intro c first
  cases ds with
  | nil => exact absurd rfl nonempty
  | cons d ds =>
    cases first
    exact all c List.mem_cons_self

theorem exponent?_eq_some_iff {cs : List Char} {e : Int} :
    exponent? cs = some e ↔ Exponent cs e := by
  constructor
  · intro power
    cases cs with
    | nil =>
      cases power
      exact .none
    | cons mark rest =>
      simp only [exponent?, Option.ite_none_right_eq_some, Option.some.injEq] at power
      obtain ⟨⟨marked, nonempty, nothing⟩, rfl⟩ := power
      obtain ⟨sign, signed, split⟩ := sign_splitSign rest
      have digits := isDigit_splitDigits (splitSign rest).2
      have whole := append_splitDigits (splitSign rest).2
      rw [nothing, List.append_nil] at whole
      have derived := Exponent.power marked signed ⟨nonempty, digits⟩
      rw [whole, ← split] at derived
      rw [whole]
      exact derived
  · intro derived
    cases derived with
    | none => rfl
    | @power mark sign ds negative marked signed digits =>
      have first := digits.head []
      rw [List.append_nil] at first
      have unsigned := splitSign_append signed fun c member => Or.inl (first c member)
      have all := @splitDigits_append ds [] digits.digits (by simp)
      rw [List.append_nil] at all
      simp only [exponent?, unsigned, all]
      exact if_pos ⟨marked, digits.nonempty, trivial⟩

theorem Exponent.head {cs : List Char} {e : Int} (derived : Exponent cs e) :
    ∀ c ∈ cs.head?, c = 'e' ∨ c = 'E' := by
  intro c first
  cases derived with
  | none => cases first
  | power marked signed digits =>
    cases first
    exact marked

section

variable {unsigned mantissa whole fraction rest power : List Char}

theorem mantissa_of_split (digits : splitDigits unsigned = (whole, rest))
    (places : splitFraction rest = (fraction, power)) (someDigit : whole = [] → fraction ≠ []) :
    ∃ mantissa, Mantissa mantissa whole fraction ∧ unsigned = mantissa ++ power := by
  have split := append_splitDigits unsigned
  have before := isDigit_splitDigits unsigned
  rw [digits] at split before
  subst split
  unfold splitFraction at places
  split at places
  · rename_i behind
    have splitBehind := append_splitDigits behind
    have all := isDigit_splitDigits behind
    rw [places] at splitBehind all
    subst splitBehind
    by_cases none : whole = []
    · subst none
      exact ⟨'.' :: fraction, .fraction ⟨someDigit rfl, all⟩, rfl⟩
    · refine ⟨whole ++ '.' :: fraction, .point ⟨none, before⟩ all, ?_⟩
      rw [List.append_assoc]
      rfl
  · cases places
    have nonempty : whole ≠ [] := by
      intro none
      exact someDigit none rfl
    exact ⟨whole, .whole ⟨nonempty, before⟩, rfl⟩

theorem split_of_mantissa (derived : Mantissa mantissa whole fraction)
    (stop : ∀ c ∈ power.head?, c = 'e' ∨ c = 'E') :
    (∃ rest, splitDigits (mantissa ++ power) = (whole, rest) ∧
      splitFraction rest = (fraction, power)) ∧ (whole = [] → fraction ≠ []) := by
  have noDigit : ∀ c ∈ power.head?, c.isDigit = false := by
    intro c first
    rcases stop c first with rfl | rfl <;> rfl
  have pointed (before : ∀ c ∈ whole, c.isDigit = true) (all : ∀ c ∈ fraction, c.isDigit = true) :
      ∃ rest, splitDigits (whole ++ '.' :: (fraction ++ power)) = (whole, rest) ∧
        splitFraction rest = (fraction, power) := by
    refine ⟨_, splitDigits_append before ?_, splitDigits_append all noDigit⟩
    intro c first
    cases first
    rfl
  cases derived with
  | whole digits =>
    refine ⟨⟨power, splitDigits_append digits.digits noDigit, ?_⟩, ?_⟩
    · cases power with
      | nil => rfl
      | cons c power => rcases stop c rfl with rfl | rfl <;> rfl
    · intro none
      exact absurd none digits.nonempty
  | point digits places =>
    rw [List.append_assoc]
    refine ⟨pointed digits.digits places, ?_⟩
    intro none
    exact absurd none digits.nonempty
  | fraction places =>
    refine ⟨pointed (by simp) places.digits, ?_⟩
    intro _
    exact places.nonempty

end

theorem Mantissa.head {mantissa whole fraction : List Char}
    (derived : Mantissa mantissa whole fraction) (rest : List Char) :
    ∀ c ∈ (mantissa ++ rest).head?, c.isDigit = true ∨ c = '.' := by
  intro c first
  cases derived with
  | whole digits => exact Or.inl (digits.head rest c first)
  | point digits places =>
    rw [List.append_assoc] at first
    exact Or.inl (digits.head _ c first)
  | fraction places =>
    cases first
    exact Or.inr rfl

theorem parse?_iff_spells {cs : List Char} {l : Literal} : parse? cs = some l ↔ Spells cs l := by
  rw [parse?_eq_some_iff]
  constructor
  · rintro ⟨unsigned, rest, power, sign, digits, places, someDigit, exponent⟩
    obtain ⟨signText, signed, split⟩ := sign_splitSign cs
    rw [sign] at signed split
    obtain ⟨mantissa, derived, rfl⟩ := mantissa_of_split digits places someDigit
    rw [split]
    exact .parts signed derived (exponent?_eq_some_iff.mp exponent)
  · intro spelled
    cases spelled with
    | @parts sign mantissa power whole fraction negative e signed derived exponent =>
      obtain ⟨⟨rest, digits, places⟩, someDigit⟩ := split_of_mantissa derived exponent.head
      have unsigned := splitSign_append signed (derived.head power)
      exact ⟨_, rest, power, unsigned, digits, places, someDigit,
        exponent?_eq_some_iff.mpr exponent⟩

end Schemelet.Literal
