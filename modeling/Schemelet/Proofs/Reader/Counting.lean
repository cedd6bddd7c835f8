import Schemelet.Proofs.Reader.Grammar

/-! The reader against a counter. How reading ends, and where, depends on the kinds of the tokens
only: it is enough to count the open lists and to know whether the last token is a quote. -/

namespace Schemelet.Reader

/-- How counting ends: behind the token that completes an expression, behind a closing parenthesis
that closes nothing, or at the end with so many lists open. -/
inductive Count where
  | complete (rest : List TokenKind)
  | unopened (rest : List TokenKind)
  | pending (depth : Nat) (quoted : Bool)

def count : Nat → Bool → List TokenKind → Count
  | depth, quoted, [] => .pending depth quoted
  | depth, quoted, kind :: rest =>
    match kind with
    | .atom => if depth = 0 then .complete rest else count depth false rest
    | .quote => count depth true rest
    | .closing =>
      if quoted = true ∨ depth = 0 then .unopened rest
      else if depth = 1 then .complete rest
      else count (depth - 1) false rest
    | _ => count (depth + 1) false rest

namespace Count

def pendingFault (depth : Nat) (quoted : Bool) : ReadError :=
  if quoted = true ∨ depth = 0 then .unexpectedEnd else .unmatchedParenthesis

def continued (more : List TokenKind) : Count → Count
  | .complete rest => .complete (rest ++ more)
  | .unopened rest => .unopened (rest ++ more)
  | .pending depth quoted => count depth quoted more

def fault? : Count → Option ReadError
  | .complete [] => none
  | .complete (_ :: _) => some .extraInput
  | .unopened _ => some .unexpectedClosing
  | .pending depth quoted => some (pendingFault depth quoted)

def Describes (result : Except ReadError Value × List Token) : Count → Prop
  | .complete rest => (∃ v, result.1 = .ok v) ∧ result.2.map (·.kind) = rest
  | .unopened rest => result.1 = .error .unexpectedClosing ∧ result.2.map (·.kind) = rest
  | .pending depth quoted => result = (.error (pendingFault depth quoted), [])

end Count

theorem count_append (depth : Nat) (quoted : Bool) (kinds more : List TokenKind) :
    count depth quoted (kinds ++ more) = (count depth quoted kinds).continued more := by
  induction kinds generalizing depth quoted with
  | nil => rfl
  | cons kind kinds ih =>
    rw [List.cons_append]
    cases kind with
    | atom =>
      simp only [count]
      split
      · rfl
      · exact ih depth false
    | quote => exact ih depth true
    | closing =>
      simp only [count]
      split
      · rfl
      · split
        · rfl
        · exact ih (depth - 1) false
    | opening => exact ih (depth + 1) false
    | other name => exact ih (depth + 1) false

namespace Count

theorem pendingFault_cases (depth : Nat) (quoted : Bool) :
    pendingFault depth quoted = .unexpectedEnd ∨
      pendingFault depth quoted = .unmatchedParenthesis := by
  unfold pendingFault
  split
  · exact Or.inl rfl
  · exact Or.inr rfl

theorem pending_iff {counted : Count} {e : ReadError} (fault : counted.fault? = some e) :
    (∃ depth quoted, counted = .pending depth quoted) ↔
      e = .unexpectedEnd ∨ e = .unmatchedParenthesis := by
  cases counted with
  | complete rest =>
    cases rest <;> cases fault
    simp
  | unopened rest =>
    cases fault
    simp
  | pending depth quoted =>
    cases fault
    exact iff_of_true ⟨depth, quoted, rfl⟩ (pendingFault_cases depth quoted)

theorem fault?_continued {counted : Count} {e : ReadError} (fault : counted.fault? = some e)
    (shown : ¬ ∃ depth quoted, counted = .pending depth quoted) (more : List TokenKind) :
    (counted.continued more).fault? = some e := by
  cases counted with
  | complete rest =>
    cases rest with
    | nil => cases fault
    | cons kind rest => exact fault
  | unopened rest => exact fault
  | pending depth quoted => exact absurd ⟨depth, quoted, rfl⟩ shown

end Count

/-- An expression and a closing parenthesis for each open list complete whatever is pending. -/
theorem count_closings (depth : Nat) (quoted : Bool) :
    count depth quoted (.atom :: List.replicate depth .closing) = .complete [] := by
  have closings (depth : Nat) :
      count (depth + 1) false (List.replicate (depth + 1) .closing) = .complete [] := by
    induction depth with
    | zero => rfl
    | succ depth ih =>
      rw [List.replicate_succ, count]
      simpa using ih
  cases depth with
  | zero => rfl
  | succ depth =>
    rw [count]
    simpa using closings depth

def openLists : List Level → Nat
  | [] => 0
  | .quote :: levels => openLists levels
  | .list _ :: levels => openLists levels + 1

def endsQuoted : List Level → Bool
  | .quote :: _ => true
  | _ => false

theorem endError_eq (levels : List Level) :
    endError levels = Count.pendingFault (openLists levels) (endsQuoted levels) := by
  cases levels with
  | nil => rfl
  | cons level levels =>
    cases level with
    | quote => rfl
    | list items => simp [endError, Count.pendingFault, openLists, endsQuoted]

theorem deliver_cases (v : Value) (levels : List Level) :
    (openLists levels = 0 ∧ ∃ w, deliver v levels = .done w) ∨
      (openLists levels ≠ 0 ∧ ∃ levels', deliver v levels = .more levels' ∧
        openLists levels' = openLists levels ∧ endsQuoted levels' = false) := by
  fun_induction deliver v levels with
  | case1 v => exact Or.inl ⟨rfl, v, rfl⟩
  | case2 v levels ih => exact ih
  | case3 v items levels =>
    refine Or.inr ⟨?_, .list (v :: items) :: levels, rfl, rfl, rfl⟩
    simp [openLists]

-- The assumption is the induction hypothesis of the theorem below, for the tokens that are left.
theorem describes_resume {tokens : List Token}
    (sub : ∀ levels, (count (openLists levels) (endsQuoted levels)
      (tokens.map (·.kind))).Describes (readFrom .unlimited levels tokens))
    (v : Value) (levels : List Level) :
    (if openLists levels = 0 then .complete (tokens.map (·.kind))
      else count (openLists levels) false (tokens.map (·.kind)) : Count).Describes
      (resume tokens (deliver v levels)) := by
  rcases deliver_cases v levels with ⟨none, w, done⟩ | ⟨some, levels', more, same, unquoted⟩
  · rw [if_pos none, done]
    exact ⟨⟨w, rfl⟩, rfl⟩
  · rw [if_neg some, more, ← same, ← unquoted]
    exact sub levels'

theorem readFrom_other {token : Token} {name : String} (kind : token.kind = .other name)
    (levels : List Level) (tokens : List Token) :
    readFrom .unlimited levels (token :: tokens) =
      readFrom .unlimited (.list [] :: levels) tokens := by
  simp [readFrom, kind, Limit.allows]

theorem count_describes (levels : List Level) (tokens : List Token) :
    (count (openLists levels) (endsQuoted levels) (tokens.map (·.kind))).Describes
      (readFrom .unlimited levels tokens) := by
  induction tokens generalizing levels with
  | nil =>
    simp only [List.map_nil, count, Count.Describes, readFrom, endError_eq]
  | cons token tokens ih =>
    rw [List.map_cons]
    cases kind : token.kind with
    | atom =>
      rw [readFrom_atom kind]
      exact describes_resume ih _ levels
    | quote =>
      rw [readFrom_quote kind]
      exact ih (.quote :: levels)
    | opening =>
      rw [readFrom_opening kind]
      exact ih (.list [] :: levels)
    | other name =>
      rw [readFrom_other kind]
      exact ih (.list [] :: levels)
    | closing =>
      cases levels with
      | nil => simp [count, openLists, readFrom, kind, Count.Describes]
      | cons level levels =>
        cases level with
        | quote => simp [count, endsQuoted, readFrom, kind, Count.Describes]
        | list items =>
          rw [readFrom_closing kind]
          have rest := describes_resume ih (.ofList items.reverse) levels
          simpa [count, openLists, endsQuoted] using rest

def faultOf : Except ReadError Value → Option ReadError
  | .ok _ => none
  | .error e => some e

theorem faultOf_eq_none_iff {result : Except ReadError Value} :
    faultOf result = none ↔ ∃ v, result = .ok v := by
  cases result <;> simp [faultOf]

theorem faultOf_eq_some_iff {result : Except ReadError Value} {e : ReadError} :
    faultOf result = some e ↔ result = .error e := by
  cases result <;> simp [faultOf]

theorem faultOf_readSingle (tokens : List Token) :
    faultOf (readSingle .unlimited tokens) = (count 0 false (tokens.map (·.kind))).fault? := by
  have described := count_describes [] tokens
  change (count 0 false _).Describes (readNext .unlimited tokens) at described
  rcases read : readNext .unlimited tokens with ⟨result, rest⟩
  rw [read] at described
  cases counted : count 0 false (tokens.map (·.kind)) with
  | complete kinds =>
    rw [counted] at described
    obtain ⟨⟨v, rfl⟩, rfl⟩ := described
    cases rest <;> simp [readSingle, read, faultOf, Count.fault?]
  | unopened kinds =>
    rw [counted] at described
    obtain ⟨rfl, -⟩ := described
    simp [readSingle, read, faultOf, Count.fault?]
  | pending depth quoted =>
    rw [counted] at described
    cases described
    simp [readSingle, read, faultOf, Count.fault?]

end Schemelet.Reader
