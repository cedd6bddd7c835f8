import Schemelet.Reader.Expression

/-! A cursor over a sequence of tokens, which reading moves forward. It never stands past their
end. -/

namespace Schemelet.Reader

structure Cursor where
  tokens : List Token
  position : Nat
  inRange : position ≤ tokens.length
  deriving DecidableEq, Repr

namespace Cursor

def ofTokens (tokens : List Token) : Cursor := ⟨tokens, 0, Nat.zero_le _⟩

def rest (c : Cursor) : List Token := c.tokens.drop c.position

def atEnd (c : Cursor) : Bool := c.tokens.length ≤ c.position

def peek? (c : Cursor) : Option Token := c.tokens[c.position]?

def advance (c : Cursor) : Cursor :=
  if before : c.position < c.tokens.length then ⟨c.tokens, c.position + 1, before⟩ else c

def moveTo (c : Cursor) (rest : List Token) : Cursor :=
  ⟨c.tokens, c.tokens.length - rest.length, Nat.sub_le _ _⟩

/-- Reads the next expression. After a fault the cursor stands behind the token that showed it. -/
def readNext (limit : Limit) (c : Cursor) : Except ReadError Value × Cursor :=
  let (result, rest) := Reader.readNext limit c.rest
  (result, c.moveTo rest)

def readRest (limit : Limit) (c : Cursor) : Reading × Cursor :=
  let reading := Reader.readAll limit c.rest
  (reading, c.moveTo reading.rest)

end Cursor

end Schemelet.Reader
