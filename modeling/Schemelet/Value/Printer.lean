import Schemelet.Number.Printer
import Schemelet.Text.Quoted
import Schemelet.Value.Basic

/-! The written forms of values. Printing works off a list of pieces, so that nesting costs no
depth. The inspected form differs from the printed one on atoms only, whose kind it shows. -/

namespace Schemelet.Value

def closureText (params : List String) : String := "#<lambda (" ++ " ".intercalate params ++ ")>"

def atomText : Value → String
  | .unspecified => "#<unspecified>"
  | .empty => "()"
  | .bool true => "#t"
  | .bool false => "#f"
  | .number x => x.printed
  | .symbol name => name
  | .text content => content
  | .pair _ _ => ""
  | .primitive p => "#<primitive " ++ p.name ++ ">"
  | .closure params _ _ => closureText params

inductive Piece where
  | text (s : String)
  | value (v : Value)

def Piece.weight : Piece → Nat
  | .text _ => 1
  | .value v => 4 * v.nodes

def weights : List Piece → Nat
  | [] => 0
  | piece :: pieces => piece.weight + weights pieces

def piecesBehind : Value → List Piece
  | .pair a d => .text " " :: .value a :: piecesBehind d
  | .empty => [.text ")"]
  | v => [.text " . ", .value v, .text ")"]

theorem weights_append (pieces more : List Piece) :
    weights (pieces ++ more) = weights pieces + weights more := by
  induction pieces with
  | nil => simp [weights]
  | cons piece pieces ih =>
    simp only [List.cons_append, weights, ih]
    omega

theorem weights_piecesBehind (v : Value) : weights (piecesBehind v) ≤ 4 * v.nodes + 2 := by
  induction v with
  | pair a d _ ih =>
    simp only [piecesBehind, weights, Piece.weight, nodes]
    omega
  | _ => simp [piecesBehind, weights, Piece.weight, nodes]

/-- Appends the printed pieces to what was printed before. A chain is replaced by its pieces, and
elements that are chains wait among them. -/
def printAll : List Piece → String → String
  | [], out => out
  | .text s :: pieces, out => printAll pieces (out ++ s)
  | .value (.pair a d) :: pieces, out =>
    printAll (.text "(" :: .value a :: (piecesBehind d ++ pieces)) out
  | .value v :: pieces, out => printAll pieces (out ++ atomText v)
termination_by pieces => weights pieces
decreasing_by
  · simp [weights, Piece.weight]
  · have behind := weights_piecesBehind d
    simp only [weights, weights_append, Piece.weight, nodes]
    omega
  · have := nodes_pos v
    simp only [weights, Piece.weight]
    omega

def printed (v : Value) : String := printAll [.value v] ""

def inspected : Value → String
  | .unspecified => "None"
  | .bool true => "True"
  | .bool false => "False"
  | .number x => x.inspected
  | .symbol name => "Symbol(" ++ Text.quoted name ++ ")"
  | .text content => Text.quoted content
  | v => v.printed

/-- The form in which a value stands in a message: inspected, but for names and texts, which stand
bare. -/
def plain : Value → String
  | .symbol name => name
  | .text content => content
  | v => v.inspected

end Schemelet.Value
