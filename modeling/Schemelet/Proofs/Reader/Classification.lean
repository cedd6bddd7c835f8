import Schemelet.Proofs.Number.Grammar
import Schemelet.Proofs.Number.Nearest
import Schemelet.Proofs.Number.Readback
import Schemelet.Reader.Expression

/-! The values of atoms. A token is a truth value, a number or a symbol, and which of them is
decided by the two names and by the grammar of literals alone. The number is the one nearest to the
exact value of the literal. -/

namespace Schemelet

namespace Number

theorem signWeight_eq : signWeight = 2 ^ 63 := rfl

variable {m : Nat} (bounded : m ≤ infinite)

include bounded

theorem lt_signWeight : m < 2 ^ 63 :=
  Nat.lt_of_le_of_lt bounded (by decide)

theorem bits_ofMagnitude (negative : Bool) :
    (ofMagnitude negative m).bits.toNat = if negative then signWeight + m else m := by
  have small := lt_signWeight bounded
  rw [ofMagnitude, UInt64.toNat_ofNat', signWeight_eq]
  apply Nat.mod_eq_of_lt
  split <;> omega

theorem magnitude_ofMagnitude (negative : Bool) : (ofMagnitude negative m).magnitude = m := by
  have small := lt_signWeight bounded
  rw [magnitude, bits_ofMagnitude bounded, signWeight_eq]
  split <;> omega

theorem isNegative_ofMagnitude (negative : Bool) :
    (ofMagnitude negative m).isNegative = negative := by
  have small := lt_signWeight bounded
  rw [isNegative, bits_ofMagnitude bounded, signWeight_eq]
  cases negative with
  | true => exact decide_eq_true (Nat.le_add_right _ _)
  | false => exact decide_eq_false (Nat.not_le_of_lt small)

end Number

namespace Literal

def absolute (l : Literal) : ℚ :=
  (Numeral.value l.whole + Numeral.value l.fraction / 10 ^ l.fraction.length) * 10 ^ l.exponent

theorem value_decimal (l : Literal) : l.decimal.value = l.absolute := by
  have places : (10 : ℚ) ^ l.fraction.length ≠ 0 := by positivity
  rw [decimal, Decimal.value, Numeral.value_append, absolute, zpow_sub₀ (by norm_num), zpow_natCast,
    Nat.cast_add, Nat.cast_mul, Nat.cast_pow, Nat.cast_ofNat]
  field_simp

theorem number_eq_iff {l : Literal} {x : Number} :
    l.number = x ↔ x.isNegative = l.negative ∧ Number.IsNearest l.absolute x.magnitude := by
  have nearest := l.decimal.isNearest_nearest
  rw [value_decimal] at nearest
  constructor
  · rintro rfl
    rw [number, Number.ofDecimal, Number.magnitude_ofMagnitude nearest.bounded,
      Number.isNegative_ofMagnitude nearest.bounded]
    exact ⟨rfl, nearest⟩
  · rintro ⟨sign, near⟩
    rw [number, Number.ofDecimal, nearest.unique near, ← sign, Number.ofMagnitude_magnitude]

end Literal

namespace Value

variable {token : String}

theorem ofAtom_true : ofAtom "#t" = .bool true := rfl

theorem ofAtom_false : ofAtom "#f" = .bool false := rfl

theorem ofAtom_of_spells {l : Literal} (spelled : l.Spells token.toList) :
    ofAtom token = .number l.number := by
  have parsed := Literal.parse?_iff_spells.mpr spelled
  have unmarked : '#' ∉ token.toList := by
    intro marked
    cases Literal.isPart_of_mem parsed '#' marked
  have notTrue : token ≠ "#t" := by
    rintro rfl
    exact unmarked (by decide)
  have notFalse : token ≠ "#f" := by
    rintro rfl
    exact unmarked (by decide)
  rw [ofAtom, if_neg notTrue, if_neg notFalse, parsed]

theorem ofAtom_of_not_spells (notTrue : token ≠ "#t") (notFalse : token ≠ "#f")
    (unspelled : ¬ ∃ l : Literal, l.Spells token.toList) : ofAtom token = .symbol token := by
  rw [ofAtom, if_neg notTrue, if_neg notFalse]
  cases parsed : Literal.parse? token.toList with
  | none => rfl
  | some l => exact absurd ⟨l, Literal.parse?_iff_spells.mp parsed⟩ unspelled

theorem ofAtom_cases (token : String) :
    (∃ b, token = (if b then "#t" else "#f") ∧ ofAtom token = .bool b) ∨
      (∃ l : Literal, l.Spells token.toList ∧ ofAtom token = .number l.number) ∨
      (token ≠ "#t" ∧ token ≠ "#f" ∧ (¬ ∃ l : Literal, l.Spells token.toList) ∧
        ofAtom token = .symbol token) := by
  by_cases isTrue : token = "#t"
  · subst isTrue
    exact Or.inl ⟨true, rfl, ofAtom_true⟩
  by_cases isFalse : token = "#f"
  · subst isFalse
    exact Or.inl ⟨false, rfl, ofAtom_false⟩
  by_cases spelled : ∃ l : Literal, l.Spells token.toList
  · obtain ⟨l, spelled⟩ := spelled
    exact Or.inr (Or.inl ⟨l, spelled, ofAtom_of_spells spelled⟩)
  · have symbol := ofAtom_of_not_spells isTrue isFalse spelled
    exact Or.inr (Or.inr ⟨isTrue, isFalse, spelled, symbol⟩)

theorem ofAtom_eq_bool_iff {b : Bool} :
    ofAtom token = .bool b ↔ token = if b then "#t" else "#f" := by
  constructor
  · intro known
    rcases ofAtom_cases token with ⟨b', name, value⟩ | ⟨l, -, value⟩ | ⟨-, -, -, value⟩
    · cases value.symm.trans known
      exact name
    · cases value.symm.trans known
    · cases value.symm.trans known
  · rintro rfl
    cases b with
    | true => exact ofAtom_true
    | false => exact ofAtom_false

theorem ofAtom_eq_number_iff {x : Number} :
    ofAtom token = .number x ↔ ∃ l : Literal, l.Spells token.toList ∧ l.number = x := by
  constructor
  · intro known
    rcases ofAtom_cases token with ⟨b, -, value⟩ | ⟨l, spelled, value⟩ | ⟨-, -, -, value⟩
    · cases value.symm.trans known
    · cases value.symm.trans known
      exact ⟨l, spelled, rfl⟩
    · cases value.symm.trans known
  · rintro ⟨l, spelled, rfl⟩
    exact ofAtom_of_spells spelled

theorem ofAtom_eq_symbol_iff {name : String} :
    ofAtom token = .symbol name ↔ name = token ∧ token ≠ "#t" ∧ token ≠ "#f" ∧
      ¬ ∃ l : Literal, l.Spells token.toList := by
  constructor
  · intro known
    rcases ofAtom_cases token with ⟨b, -, value⟩ | ⟨l, -, value⟩ | ⟨noTrue, noFalse, none, value⟩
    · cases value.symm.trans known
    · cases value.symm.trans known
    · cases value.symm.trans known
      exact ⟨rfl, noTrue, noFalse, none⟩
  · rintro ⟨rfl, notTrue, notFalse, unspelled⟩
    exact ofAtom_of_not_spells notTrue notFalse unspelled

/-- Every token, whatever its characters, is a truth value exactly if it is one of the two names. It
is a number exactly if the grammar of literals derives it; the number then has the sign of the
literal and the magnitude nearest to its exact value. Otherwise it is the symbol of just these
characters. -/
theorem atoms_classified_by_name_and_grammar (token : String) :
    (∀ b, ofAtom token = .bool b ↔ token = if b then "#t" else "#f") ∧
      ((∃ x, ofAtom token = .number x) ↔ ∃ l : Literal, l.Spells token.toList) ∧
      (∀ x, ofAtom token = .number x ↔ ∃ l : Literal, l.Spells token.toList ∧
        x.isNegative = l.negative ∧ Number.IsNearest l.absolute x.magnitude) ∧
      ∀ name, ofAtom token = .symbol name ↔ name = token ∧ token ≠ "#t" ∧ token ≠ "#f" ∧
        ¬ ∃ l : Literal, l.Spells token.toList := by
  refine ⟨fun _ => ofAtom_eq_bool_iff, ?_, ?_, fun _ => ofAtom_eq_symbol_iff⟩
  · constructor
    · rintro ⟨x, known⟩
      obtain ⟨l, spelled, -⟩ := ofAtom_eq_number_iff.mp known
      exact ⟨l, spelled⟩
    · rintro ⟨l, spelled⟩
      exact ⟨l.number, ofAtom_of_spells spelled⟩
  · intro x
    simp only [ofAtom_eq_number_iff, Literal.number_eq_iff]

example : ofAtom ".e5" = .symbol ".e5" := by decide +kernel

example : ofAtom "-1.e400" = .number (.ofMagnitude true Number.infinite) := by decide +kernel

end Value

end Schemelet
