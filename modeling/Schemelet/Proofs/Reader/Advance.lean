import Schemelet.Reader.Expression

/-! Reading token by token: what a token does to the levels that are open, apart from how reading
goes on behind it. -/

namespace Schemelet.Reader

def advance (limit : Limit) (levels : List Level) (token : Token) : Except ReadError Progress :=
  match token.kind with
  | .atom => .ok (deliver (.ofAtom token.text) levels)
  | .quote =>
    if limit.allows (levels.length + 1) then .ok (.more (.quote :: levels)) else .error .tooDeep
  | .closing =>
    match levels with
    | .list items :: levels => .ok (deliver (.ofList items.reverse) levels)
    | _ => .error .unexpectedClosing
  | _ =>
    if limit.allows (levels.length + 1) then .ok (.more (.list [] :: levels)) else .error .tooDeep

def proceed (limit : Limit) (tokens : List Token) :
    Except ReadError Progress → Except ReadError Value × List Token
  | .error e => (.error e, tokens)
  | .ok (.done v) => (.ok v, tokens)
  | .ok (.more levels) => readFrom limit levels tokens

theorem readFrom_cons (limit : Limit) (levels : List Level) (token : Token) (tokens : List Token) :
    readFrom limit levels (token :: tokens) =
      proceed limit tokens (advance limit levels token) := by
  have opened (level : Level) :
      (if limit.allows (levels.length + 1) then readFrom limit (level :: levels) tokens
        else (.error .tooDeep, tokens)) =
        proceed limit tokens (if limit.allows (levels.length + 1) then .ok (.more (level :: levels))
          else .error .tooDeep) := by
    split <;> rfl
  simp only [readFrom, advance]
  cases token.kind with
  | atom => cases deliver (.ofAtom token.text) levels <;> rfl
  | quote => exact opened .quote
  | opening => exact opened (.list [])
  | other name => exact opened (.list [])
  | closing =>
    cases levels with
    | nil => rfl
    | cons level levels =>
      cases level with
      | quote => rfl
      | list items =>
        dsimp only
        cases deliver (.ofList items.reverse) levels <;> rfl

theorem readFrom_suffix (limit : Limit) (levels : List Level) (tokens : List Token) :
    (readFrom limit levels tokens).2 <:+ tokens := by
  induction tokens generalizing levels with
  | nil => exact List.suffix_rfl
  | cons token tokens ih =>
    have behind : tokens <:+ token :: tokens := List.suffix_cons token tokens
    rw [readFrom_cons]
    cases advance limit levels token with
    | error e => exact behind
    | ok progress =>
      cases progress with
      | done v => exact behind
      | more levels' => exact (ih levels').trans behind

end Schemelet.Reader
