import Schemelet.Proofs.Reader.Advance
import Schemelet.Proofs.Reader.Counting
import Schemelet.Proofs.Reader.Recursion

/-! Where reading ends. The cursor stands where the counter stops: behind the token that completes
an expression, behind a parenthesis that closes nothing, or at the end of the tokens. -/

namespace Schemelet

namespace Reader

def Cursor.kinds (c : Cursor) : List TokenKind := c.rest.map (·.kind)

theorem Cursor.eq_of_kinds {c c' : Cursor} (tokens : c.tokens = c'.tokens)
    (same : c.kinds = c'.kinds) : c = c' := by
  obtain ⟨tokens, p, start⟩ := c
  obtain ⟨tokens', q, stop⟩ := c'
  cases tokens
  have lengths := congrArg List.length same
  simp only [Cursor.kinds, Cursor.rest, List.length_map, List.length_drop] at lengths
  rw [Cursor.mk.injEq]
  exact ⟨rfl, by omega⟩

theorem Cursor.rest_moveTo {c : Cursor} {rest : List Token} (left : rest <:+ c.rest) :
    (c.moveTo rest).rest = rest := by
  have whole : rest <:+ c.tokens := left.trans (List.drop_suffix _ _)
  exact (List.suffix_iff_eq_drop.mp whole).symm

def Cursor.toEnd (c : Cursor) : Cursor := ⟨c.tokens, c.tokens.length, Nat.le_refl _⟩

inductive EndsTogether (c : Cursor) : Except ReadError Value × Cursor → Count → Prop where
  | complete (v : Value) {c' : Cursor} (tokens : c'.tokens = c.tokens) :
      EndsTogether c (.ok v, c') (.complete c'.kinds)
  | unopened {c' : Cursor} (tokens : c'.tokens = c.tokens) :
      EndsTogether c (.error .unexpectedClosing, c') (.unopened c'.kinds)
  | pending (depth : Nat) (quoted : Bool) :
      EndsTogether c (.error (Count.pendingFault depth quoted), c.toEnd) (.pending depth quoted)

theorem readNext_endsTogether (c : Cursor) :
    EndsTogether c (c.readNext .unlimited) (count 0 false c.kinds) := by
  have described := count_describes [] c.rest
  have suffix := readFrom_suffix .unlimited [] c.rest
  change (count 0 false c.kinds).Describes (Reader.readNext .unlimited c.rest) at described
  change (Reader.readNext .unlimited c.rest).2 <:+ c.rest at suffix
  rw [Cursor.readNext]
  rcases read : Reader.readNext .unlimited c.rest with ⟨result, rest⟩
  rw [read] at described suffix
  have left : rest.map (·.kind) = (c.moveTo rest).kinds := by
    rw [Cursor.kinds, Cursor.rest_moveTo suffix]
  cases counted : count 0 false c.kinds with
  | complete kinds =>
    rw [counted] at described
    obtain ⟨⟨v, rfl⟩, rfl⟩ := described
    rw [left]
    exact .complete v rfl
  | unopened kinds =>
    rw [counted] at described
    obtain ⟨rfl, rfl⟩ := described
    rw [left]
    exact .unopened rfl
  | pending depth quoted =>
    rw [counted] at described
    cases described
    exact .pending depth quoted

namespace EndsTogether

variable {c : Cursor} {read : Except ReadError Value × Cursor} {counted : Count}

theorem complete_iff (ends : EndsTogether c read counted) (c' : Cursor) :
    (∃ v, read = (.ok v, c')) ↔ c'.tokens = c.tokens ∧ counted = .complete c'.kinds := by
  cases ends with
  | complete v tokens =>
    constructor
    · rintro ⟨w, same⟩
      cases same
      exact ⟨tokens, rfl⟩
    · rintro ⟨tokens', same⟩
      rw [Cursor.eq_of_kinds (tokens.trans tokens'.symm) (Count.complete.inj same)]
      exact ⟨v, rfl⟩
  | unopened => simp
  | pending => simp

theorem unopened_iff (ends : EndsTogether c read counted) (c' : Cursor) :
    read = (.error .unexpectedClosing, c') ↔
      c'.tokens = c.tokens ∧ counted = .unopened c'.kinds := by
  cases ends with
  | complete => simp
  | unopened tokens =>
    constructor
    · intro same
      cases same
      exact ⟨tokens, rfl⟩
    · rintro ⟨tokens', same⟩
      rw [Cursor.eq_of_kinds (tokens.trans tokens'.symm) (Count.unopened.inj same)]
  | pending depth quoted =>
    rcases Count.pendingFault_cases depth quoted with due | unmatched
    · simp [due]
    · simp [unmatched]

theorem pending_iff (ends : EndsTogether c read counted) {e : ReadError}
    (opened : e ≠ .unexpectedClosing) :
    read = (.error e, c.toEnd) ↔
      ∃ depth quoted, counted = .pending depth quoted ∧ Count.pendingFault depth quoted = e := by
  cases ends with
  | complete => simp
  | unopened => simp [opened.symm]
  | pending depth quoted =>
    constructor
    · intro same
      exact ⟨depth, quoted, rfl, by simpa using same⟩
    · rintro ⟨depth', quoted', same, fault⟩
      cases same
      rw [fault]

theorem ended_iff (ends : EndsTogether c read counted) :
    read = (.error .unexpectedEnd, c.toEnd) ↔
      ∃ depth quoted, counted = .pending depth quoted ∧ (quoted = true ∨ depth = 0) := by
  rw [ends.pending_iff (by simp)]
  simp [Count.pendingFault]

theorem unmatched_iff (ends : EndsTogether c read counted) :
    read = (.error .unmatchedParenthesis, c.toEnd) ↔
      ∃ depth quoted, counted = .pending depth quoted ∧ ¬ (quoted = true ∨ depth = 0) := by
  rw [ends.pending_iff (by simp)]
  simp [Count.pendingFault]

end EndsTogether

/-- What is made of the first expression and of the cursor behind it when there must be no more. -/
def single : Except ReadError Value × Cursor → Except ReadError Value
  | (.ok v, c) => if c.atEnd then .ok v else .error .extraInput
  | (.error e, _) => .error e

theorem Cursor.atEnd_iff (c : Cursor) : c.atEnd = true ↔ c.rest = [] := by
  rw [Cursor.atEnd, decide_eq_true_eq, Cursor.rest, List.drop_eq_nil_iff]

theorem readSingle_eq (limit : Limit) (tokens : List Token) :
    readSingle limit tokens = single ((Cursor.ofTokens tokens).readNext limit) := by
  have suffix := readFrom_suffix limit [] tokens
  change (readNext limit tokens).2 <:+ tokens at suffix
  have start : (Cursor.ofTokens tokens).rest = tokens := rfl
  rw [readSingle, Cursor.readNext, start]
  rcases read : readNext limit tokens with ⟨result, rest⟩
  rw [read] at suffix
  have ends := ((Cursor.ofTokens tokens).moveTo rest).atEnd_iff
  rw [Cursor.rest_moveTo suffix] at ends
  cases result with
  | error e => rfl
  | ok v => cases rest <;> simp [single, ends]

theorem EndsTogether.extraInput_iff {c : Cursor} {read : Except ReadError Value × Cursor}
    {counted : Count} (ends : EndsTogether c read counted) :
    single read = .error .extraInput ↔
      ∃ c' : Cursor, c'.tokens = c.tokens ∧ c'.atEnd = false ∧ counted = .complete c'.kinds := by
  cases ends with
  | @complete v stop tokens =>
    constructor
    · intro more
      refine ⟨stop, tokens, ?_, rfl⟩
      cases atEnd : stop.atEnd with
      | false => rfl
      | true => simp [single, atEnd] at more
    · rintro ⟨c', tokens', before, same⟩
      rw [Cursor.eq_of_kinds (tokens.trans tokens'.symm) (Count.complete.inj same)]
      simp [single, before]
  | unopened => simp [single]
  | pending depth quoted =>
    rcases Count.pendingFault_cases depth quoted with due | unmatched
    · simp [single, due]
    · simp [single, unmatched]

/-- Reading from a cursor ends as counting does from there, with a value, with one of the faults or
at the end, and leaves the cursor where counting stops. A whole source has one more fault, if the
counter stops before its last token. Under every limit reading does what the recursion does. -/
theorem reading_ends_where_counting_does :
    (∀ c : Cursor,
      let read := c.readNext .unlimited
      let counted := count 0 false c.kinds
      (∀ c', (∃ v, read = (.ok v, c')) ↔
        c'.tokens = c.tokens ∧ counted = .complete c'.kinds) ∧
      (∀ c', read = (.error .unexpectedClosing, c') ↔
        c'.tokens = c.tokens ∧ counted = .unopened c'.kinds) ∧
      (read = (.error .unexpectedEnd, c.toEnd) ↔
        ∃ depth quoted, counted = .pending depth quoted ∧ (quoted = true ∨ depth = 0)) ∧
      (read = (.error .unmatchedParenthesis, c.toEnd) ↔
        ∃ depth quoted, counted = .pending depth quoted ∧ ¬ (quoted = true ∨ depth = 0))) ∧
    (∀ source : String,
      let start := Cursor.ofTokens (Token.ofSource source)
      readOne .unlimited source = single (start.readNext .unlimited) ∧
        (readOne .unlimited source = .error .extraInput ↔
          ∃ c' : Cursor, c'.tokens = start.tokens ∧ c'.atEnd = false ∧
            count 0 false start.kinds = .complete c'.kinds)) ∧
    ∀ (limit : Limit) (c : Cursor), c.readNext limit = c.parseNext limit := by
  refine ⟨?_, ?_, ?_⟩
  · intro c read counted
    have ends := readNext_endsTogether c
    exact ⟨ends.complete_iff, ends.unopened_iff, ends.ended_iff, ends.unmatched_iff⟩
  · intro source start
    have whole : readOne .unlimited source = single (start.readNext .unlimited) :=
      readSingle_eq .unlimited (Token.ofSource source)
    refine ⟨whole, ?_⟩
    rw [whole]
    exact (readNext_endsTogether start).extraInput_iff
  · intro limit c
    exact (c.parseNext_eq limit).symm

end Reader

end Schemelet
