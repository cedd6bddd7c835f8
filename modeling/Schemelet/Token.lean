import Schemelet.Text.Basic

/-! Tokens, and the cutting of a source into them. Parentheses stand for themselves, a quote is one
only where a token can start, and everything else up to a blank or a parenthesis is an atom. -/

namespace Schemelet

/-- Tokens made elsewhere may have a kind of their own; the reader takes these for an opening
parenthesis. -/
inductive TokenKind where
  | opening
  | closing
  | quote
  | atom
  | other (name : String)
  deriving DecidableEq, Repr

structure Token where
  kind : TokenKind
  text : String
  deriving DecidableEq, Repr

namespace Token

def endAtom (pending : List Char) (tokens : List Token) : List Token :=
  if pending.isEmpty then tokens else ⟨.atom, String.ofList pending.reverse⟩ :: tokens

/-- The tokens of a source, given the characters of the atom that it may go on with. -/
def scan (pending : List Char) : List Char → List Token
  | [] => endAtom pending []
  | c :: cs =>
    if Text.isBlank c then endAtom pending (scan [] cs)
    else if c = '(' then endAtom pending (⟨.opening, "("⟩ :: scan [] cs)
    else if c = ')' then endAtom pending (⟨.closing, ")"⟩ :: scan [] cs)
    else if c = '\x27' ∧ pending = [] then ⟨.quote, "\x27"⟩ :: scan [] cs
    else scan (c :: pending) cs

def ofSource (source : String) : List Token := scan [] source.toList

end Token

end Schemelet
