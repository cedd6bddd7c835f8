import Schemelet.Proofs.Reader.Advance
import Schemelet.Reader.Cursor

/-! Reading by recursion. An expression is read by a call that calls itself for what is quoted and,
in a loop, for each element of a list. Reading in one pass does the same: its levels are the calls
that wait for a value. -/

namespace Schemelet.Reader

/-- What a call returns, with the tokens that are left of those behind its first one. -/
structure Parsed (α : Type) (behind : Nat) where
  result : Except ReadError α
  rest : List Token
  fewer : rest.length ≤ behind

namespace Parsed

variable {α β : Type} {behind : Nat}

def map (f : α → β) (parsed : Parsed α behind) : Parsed β behind :=
  ⟨parsed.result.map f, parsed.rest, parsed.fewer⟩

def widen {more : Nat} (parsed : Parsed α behind) (le : behind ≤ more) : Parsed α more :=
  ⟨parsed.result, parsed.rest, Nat.le_trans parsed.fewer le⟩

end Parsed

mutual
def parseExpression (limit : Limit) (depth : Nat) :
    (tokens : List Token) → Parsed Value (tokens.length - 1)
  | [] => ⟨.error .unexpectedEnd, [], Nat.le_refl _⟩
  | token :: tokens =>
    match token.kind with
    | .atom => ⟨.ok (.ofAtom token.text), tokens, Nat.le_refl _⟩
    | .quote =>
      if limit.allows (depth + 1) then
        ((parseExpression limit (depth + 1) tokens).map quotation).widen (Nat.sub_le _ _)
      else ⟨.error .tooDeep, tokens, Nat.le_refl _⟩
    | .closing => ⟨.error .unexpectedClosing, tokens, Nat.le_refl _⟩
    | _ =>
      if limit.allows (depth + 1) then
        ((parseElements limit (depth + 1) [] tokens).map .ofList).widen (Nat.sub_le _ _)
      else ⟨.error .tooDeep, tokens, Nat.le_refl _⟩
termination_by tokens => (tokens.length, 0)

def parseElements (limit : Limit) (depth : Nat) (items : List Value) :
    (tokens : List Token) → Parsed (List Value) (tokens.length - 1)
  | [] => ⟨.error .unmatchedParenthesis, [], Nat.le_refl _⟩
  | token :: tokens =>
    if token.kind = .closing then ⟨.ok items, tokens, Nat.le_refl _⟩
    else match parseExpression limit depth (token :: tokens) with
      | ⟨.ok v, rest, fewer⟩ =>
        have : rest.length < tokens.length + 1 := Nat.lt_succ_of_le fewer
        (parseElements limit depth (items ++ [v]) rest).widen
          (Nat.le_trans (Nat.sub_le _ _) fewer)
      | ⟨.error e, rest, fewer⟩ => ⟨.error e, rest, fewer⟩
termination_by tokens => (tokens.length, 1)
end

def Parsed.deliver {behind : Nat} (parsed : Parsed Value behind) (limit : Limit)
    (levels : List Level) : Except ReadError Value × List Token :=
  proceed limit parsed.rest (parsed.result.map (Reader.deliver · levels))

theorem Parsed.deliver_quote {behind : Nat} (parsed : Parsed Value behind) (limit : Limit)
    (levels : List Level) :
    parsed.deliver limit (.quote :: levels) = (parsed.map quotation).deliver limit levels := by
  obtain ⟨result, rest, fewer⟩ := parsed
  cases result <;> rfl

/-- Where the innermost level is a list, its next element begins. -/
def ElementBegins (tokens : List Token) : List Level → Prop
  | .list _ :: _ => ∃ token rest, tokens = token :: rest ∧ token.kind ≠ .closing
  | _ => True

structure Agrees (limit : Limit) (tokens : List Token) : Prop where
  expression : ∀ levels, ElementBegins tokens levels → readFrom limit levels tokens =
    (parseExpression limit levels.length tokens).deliver limit levels
  elements : ∀ items levels, readFrom limit (.list items :: levels) tokens =
    ((parseElements limit (levels.length + 1) items.reverse tokens).map .ofList).deliver limit
      levels

namespace Agrees

variable {limit : Limit} {tokens : List Token}

theorem nil (limit : Limit) : Agrees limit [] := by
  constructor
  · intro levels begins
    rw [parseExpression]
    cases levels with
    | nil => rfl
    | cons level levels =>
      cases level with
      | quote => rfl
      | list items =>
        obtain ⟨token, rest, same, -⟩ := begins
        cases same
  · intro items levels
    rw [parseElements]
    rfl

theorem expression_cons (behind : Agrees limit tokens) (token : Token) (levels : List Level)
    (begins : ElementBegins (token :: tokens) levels) :
    readFrom limit levels (token :: tokens) =
      (parseExpression limit levels.length (token :: tokens)).deliver limit levels := by
  rw [parseExpression]
  cases kind : token.kind with
  | atom =>
    simp only [readFrom_cons, advance, kind]
    rfl
  | quote =>
    simp only [readFrom, kind]
    split
    · rw [behind.expression (.quote :: levels) trivial, Parsed.deliver_quote]
      rfl
    · rfl
  | closing =>
    simp only [readFrom, kind]
    cases levels with
    | nil => rfl
    | cons level levels =>
      cases level with
      | quote => rfl
      | list items =>
        obtain ⟨first, rest, same, opens⟩ := begins
        cases same
        exact absurd kind opens
  | opening =>
    simp only [readFrom, kind]
    split
    · exact behind.elements [] levels
    · rfl
  | other name =>
    simp only [readFrom, kind]
    split
    · exact behind.elements [] levels
    · rfl

theorem cons (shorter : ∀ rest, rest.length ≤ tokens.length → Agrees limit rest) (token : Token) :
    Agrees limit (token :: tokens) := by
  have behind := shorter tokens (Nat.le_refl _)
  refine ⟨behind.expression_cons token, ?_⟩
  intro items levels
  rw [parseElements]
  by_cases closes : token.kind = .closing
  · rw [if_pos closes]
    simp only [readFrom_cons, advance, closes]
    rfl
  · -- The element is read by a call for the same tokens; the loop goes on with fewer.
    rw [if_neg closes,
      behind.expression_cons token (.list items :: levels) ⟨token, tokens, rfl, closes⟩]
    change (parseExpression limit (levels.length + 1) (token :: tokens)).deliver limit
      (.list items :: levels) = _
    obtain ⟨result, rest, fewer⟩ := parseExpression limit (levels.length + 1) (token :: tokens)
    cases result with
    | error e => rfl
    | ok v =>
      have later := (shorter rest fewer).elements (v :: items) levels
      rw [List.reverse_cons] at later
      exact later

end Agrees

theorem agrees (limit : Limit) (tokens : List Token) : Agrees limit tokens := by
  induction size : tokens.length using Nat.strongRecOn generalizing tokens with
  | ind n ih =>
    cases tokens with
    | nil => exact .nil limit
    | cons token tokens =>
      rw [List.length_cons] at size
      exact .cons (fun rest fewer => ih rest.length (by omega) rest rfl) token

def Cursor.parseNext (limit : Limit) (c : Cursor) : Except ReadError Value × Cursor :=
  let parsed := parseExpression limit 0 c.rest
  (parsed.result, c.moveTo parsed.rest)

theorem Cursor.parseNext_eq (limit : Limit) (c : Cursor) :
    c.parseNext limit = c.readNext limit := by
  have read := (agrees limit c.rest).expression [] trivial
  rw [Cursor.readNext, Reader.readNext, read, Cursor.parseNext, List.length_nil]
  obtain ⟨result, rest, fewer⟩ := parseExpression limit 0 c.rest
  cases result <;> rfl

end Schemelet.Reader
