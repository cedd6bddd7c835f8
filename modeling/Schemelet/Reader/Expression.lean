import Schemelet.Error
import Schemelet.Limit
import Schemelet.Number.Literal
import Schemelet.Token
import Schemelet.Value.Basic

/-! Reading expressions from tokens in one pass over a stack of what is still open. -/

namespace Schemelet

def Value.ofAtom (token : String) : Value :=
  if token = "#t" then .bool true
  else if token = "#f" then .bool false
  else match Literal.parse? token.toList with
    | some literal => .number literal.number
    | none => .symbol token

namespace Reader

/-- A quote that waits for its expression, or a list with the elements read so far, last first. -/
inductive Level where
  | quote
  | list (items : List Value)
  deriving DecidableEq, Repr

inductive Progress where
  | done (v : Value)
  | more (levels : List Level)

def quotation (v : Value) : Value := .ofList [.symbol "quote", v]

def deliver (v : Value) : List Level → Progress
  | [] => .done v
  | .quote :: levels => deliver (quotation v) levels
  | .list items :: levels => .more (.list (v :: items) :: levels)

/-- The fault when the tokens end: inside a list it is unmatched, elsewhere an expression is due. -/
def endError : List Level → ReadError
  | .list _ :: _ => .unmatchedParenthesis
  | _ => .unexpectedEnd

/-- Reads on until the outermost expression is complete. The tokens that were not looked at are
returned with the expression or the fault. -/
def readFrom (limit : Limit) : List Level → List Token → Except ReadError Value × List Token
  | levels, [] => (.error (endError levels), [])
  | levels, token :: tokens =>
    match token.kind with
    | .atom =>
      match deliver (.ofAtom token.text) levels with
      | .done v => (.ok v, tokens)
      | .more levels => readFrom limit levels tokens
    | .quote =>
      if limit.allows (levels.length + 1) then readFrom limit (.quote :: levels) tokens
      else (.error .tooDeep, tokens)
    | .closing =>
      match levels with
      | .list items :: levels =>
        match deliver (.ofList items.reverse) levels with
        | .done v => (.ok v, tokens)
        | .more levels => readFrom limit levels tokens
      | _ => (.error .unexpectedClosing, tokens)
    | _ =>
      if limit.allows (levels.length + 1) then readFrom limit (.list [] :: levels) tokens
      else (.error .tooDeep, tokens)

def readNext (limit : Limit) (tokens : List Token) : Except ReadError Value × List Token :=
  readFrom limit [] tokens

theorem readFrom_rest_length (limit : Limit) (levels : List Level) (tokens : List Token) :
    (readFrom limit levels tokens).2.length ≤ tokens.length - 1 := by
  induction tokens generalizing levels with
  | nil => simp [readFrom]
  | cons token tokens ih =>
    have tail (levels : List Level) : (readFrom limit levels tokens).2.length ≤ tokens.length := by
      have := ih levels
      omega
    simp only [readFrom, List.length_cons, Nat.add_one_sub_one]
    split
    · split
      · simp
      · exact tail _
    · split
      · exact tail _
      · simp
    · split
      · split
        · simp
        · exact tail _
      · simp
    · split
      · exact tail _
      · simp

theorem readNext_rest_shorter {limit : Limit} {tokens rest : List Token}
    {result : Except ReadError Value} (nonempty : tokens ≠ [])
    (read : readNext limit tokens = (result, rest)) : rest.length < tokens.length := by
  have bound := readFrom_rest_length limit [] tokens
  have := List.length_pos_iff.mpr nonempty
  rw [readNext] at read
  rw [read] at bound
  simp only at bound
  omega

structure Reading where
  values : List Value
  fault : Option ReadError
  rest : List Token
  deriving DecidableEq, Repr

def readAll (limit : Limit) (tokens : List Token) : Reading :=
  if isEmpty : tokens = [] then ⟨[], none, []⟩
  else match read : readNext limit tokens with
    | (.error e, rest) => ⟨[], some e, rest⟩
    | (.ok v, rest) =>
      have := readNext_rest_shorter isEmpty read
      let reading := readAll limit rest
      { reading with values := v :: reading.values }
termination_by tokens.length

def readSingle (limit : Limit) (tokens : List Token) : Except ReadError Value :=
  match readNext limit tokens with
  | (.ok v, []) => .ok v
  | (.ok _, _ :: _) => .error .extraInput
  | (.error e, _) => .error e

end Reader

def readOne (limit : Limit) (source : String) : Except ReadError Value :=
  Reader.readSingle limit (Token.ofSource source)

def readAll (limit : Limit) (source : String) : Reader.Reading :=
  Reader.readAll limit (Token.ofSource source)

end Schemelet
