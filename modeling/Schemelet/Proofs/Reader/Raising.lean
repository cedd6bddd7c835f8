import Schemelet.Reader.Expression

/-! Reading under a higher limit. It ends as under the lower one, unless the lower limit was
exceeded, and then what was read before is still read. -/

namespace Schemelet.Reader

variable {limit higher : Limit}

theorem readFrom_raised (le : limit.Le higher) (levels : List Level) (tokens : List Token) :
    (readFrom limit levels tokens).1 = .error .tooDeep ∨
      readFrom higher levels tokens = readFrom limit levels tokens := by
  induction tokens generalizing levels with
  | nil => exact Or.inr rfl
  | cons token tokens ih =>
    have nested (level : Level) :
        (if limit.allows (levels.length + 1) then readFrom limit (level :: levels) tokens
          else (.error .tooDeep, tokens)).1 = .error .tooDeep ∨
          (if higher.allows (levels.length + 1) then readFrom higher (level :: levels) tokens
            else (.error .tooDeep, tokens)) =
            (if limit.allows (levels.length + 1) then readFrom limit (level :: levels) tokens
              else (.error .tooDeep, tokens)) := by
      by_cases allowed : limit.allows (levels.length + 1) = true
      · rw [if_pos allowed, if_pos (le.allows allowed)]
        exact ih (level :: levels)
      · rw [if_neg allowed]
        exact Or.inl rfl
    simp only [readFrom]
    cases token.kind with
    | atom =>
      cases deliver (.ofAtom token.text) levels with
      | done v => exact Or.inr rfl
      | more levels => exact ih levels
    | quote => exact nested .quote
    | opening => exact nested (.list [])
    | other name => exact nested (.list [])
    | closing =>
      cases levels with
      | nil => exact Or.inr rfl
      | cons level levels =>
        cases level with
        | quote => exact Or.inr rfl
        | list items =>
          dsimp only
          cases deliver (.ofList items.reverse) levels with
          | done v => exact Or.inr rfl
          | more levels => exact ih levels

theorem readNext_raised (le : limit.Le higher) (tokens : List Token) :
    (readNext limit tokens).1 = .error .tooDeep ∨
      readNext higher tokens = readNext limit tokens :=
  readFrom_raised le [] tokens

theorem readSingle_raised (le : limit.Le higher) (tokens : List Token) :
    readSingle limit tokens = .error .tooDeep ∨
      readSingle higher tokens = readSingle limit tokens := by
  rcases readNext_raised le tokens with deep | same
  · left
    rcases read : readNext limit tokens with ⟨result, rest⟩
    rw [read] at deep
    cases deep
    rw [readSingle, read]
  · right
    rw [readSingle, readSingle, same]

theorem readAll_nil (limit : Limit) : readAll limit [] = ⟨[], none, []⟩ := by
  rw [readAll]
  simp

theorem readAll_of_error {tokens rest : List Token} {e : ReadError} (nonempty : tokens ≠ [])
    (read : readNext limit tokens = (.error e, rest)) :
    readAll limit tokens = ⟨[], some e, rest⟩ := by
  rw [readAll, dif_neg nonempty]
  split
  · rename_i other
    rw [read] at other
    cases other
    rfl
  · rename_i other
    rw [read] at other
    cases other

theorem readAll_of_ok {tokens rest : List Token} {v : Value} (nonempty : tokens ≠ [])
    (read : readNext limit tokens = (.ok v, rest)) :
    readAll limit tokens =
      { readAll limit rest with values := v :: (readAll limit rest).values } := by
  rw [readAll, dif_neg nonempty]
  split
  · rename_i other
    rw [read] at other
    cases other
  · rename_i other
    rw [read] at other
    cases other
    rfl

theorem readAll_raised (le : limit.Le higher) (tokens : List Token) :
    ((readAll limit tokens).fault = some .tooDeep ∧
      (readAll limit tokens).values <+: (readAll higher tokens).values) ∨
      readAll higher tokens = readAll limit tokens := by
  induction size : tokens.length using Nat.strongRecOn generalizing tokens with
  | ind n ih =>
    by_cases nonempty : tokens = []
    · right
      rw [nonempty, readAll_nil, readAll_nil]
    · rcases read : readNext limit tokens with ⟨result, rest⟩
      rcases readNext_raised le tokens with deep | same
      · left
        rw [read] at deep
        cases deep
        rw [readAll_of_error nonempty read]
        exact ⟨rfl, List.nil_prefix⟩
      · rw [read] at same
        cases result with
        | error e =>
          right
          rw [readAll_of_error nonempty read, readAll_of_error nonempty same]
        | ok v =>
          have shorter := readNext_rest_shorter nonempty read
          rw [readAll_of_ok nonempty read, readAll_of_ok nonempty same]
          rcases ih rest.length (by omega) rest rfl with ⟨deep, earlier⟩ | equal
          · left
            exact ⟨deep, List.cons_prefix_cons.mpr ⟨rfl, earlier⟩⟩
          · right
            rw [equal]

end Schemelet.Reader
