import Schemelet.Value.Printer

/-! The printed form of a value, told by recursion on the value instead of by a list of pieces. The
list keeps elements waiting in the middle of a chain; what it stands for at any moment is what the
recursion still has to print. -/

namespace Schemelet.Value

mutual
def written : Value → List Char
  | .pair a d => '(' :: (written a ++ writtenTail d)
  | v => v.atomText.toList

def writtenTail : Value → List Char
  | .pair a d => ' ' :: (written a ++ writtenTail d)
  | .empty => [')']
  | v => ' ' :: '.' :: ' ' :: (v.atomText.toList ++ [')'])
end

theorem written_atom {v : Value} (atom : v.isPair = false) : v.written = v.atomText.toList := by
  cases v with
  | pair => cases atom
  | _ => rfl

theorem writtenTail_atom {v : Value} (atom : v.isPair = false) (nonempty : v ≠ .empty) :
    v.writtenTail = ' ' :: '.' :: ' ' :: (v.atomText.toList ++ [')']) := by
  cases v with
  | pair => cases atom
  | empty => exact absurd rfl nonempty
  | _ => rfl

def Piece.written : Piece → List Char
  | .text s => s.toList
  | .value v => v.written

theorem isPair_eq_false {v : Value} (atom : ∀ a d, v = .pair a d → False) : v.isPair = false := by
  cases v with
  | pair a d => exact (atom a d rfl).elim
  | _ => rfl

theorem written_piecesBehind (v : Value) :
    (piecesBehind v).flatMap Piece.written = v.writtenTail := by
  induction v with
  | pair a d _ ih => simp [piecesBehind, Piece.written, writtenTail, ih]
  | _ => simp [piecesBehind, Piece.written, writtenTail, written]

/-- At any moment the pieces left stand for what is still to be printed. -/
theorem toList_printAll (pieces : List Piece) (out : String) :
    (printAll pieces out).toList = out.toList ++ pieces.flatMap Piece.written := by
  fun_induction printAll pieces out with
  | case1 out => simp
  | case2 s pieces out ih => simp [ih, Piece.written]
  | case3 a d pieces out ih => simp [ih, Piece.written, written, written_piecesBehind]
  | case4 v pieces out atom ih => simp [ih, Piece.written, written_atom (isPair_eq_false atom)]

theorem toList_printed (v : Value) : v.printed.toList = v.written := by
  rw [printed, toList_printAll]
  simp [Piece.written]

def ending : Value → Value
  | .pair _ d => d.ending
  | v => v

theorem isPair_ending (v : Value) : v.ending.isPair = false := by
  induction v with
  | pair a d _ ih => exact ih
  | _ => rfl

theorem chain_elements (v : Value) : chain v.elements v.ending = v := by
  induction v with
  | pair a d _ ih =>
    change pair a (chain d.elements d.ending) = pair a d
    rw [ih]
  | _ => rfl

/-- The rules of the printed form: atoms by their text, and chains by their elements, a space
between any two of them, with the ending of an improper one behind a point. -/
structure PrintingRules (text : Value → String) : Prop where
  atom : ∀ v : Value, v.isPair = false → text v = v.atomText
  list : ∀ (item : Value) (items : List Value), text (ofList (item :: items)) =
    "(" ++ " ".intercalate ((item :: items).map text) ++ ")"
  improper : ∀ (item : Value) (items : List Value) (tail : Value), tail.isPair = false →
    tail ≠ .empty → text (chain (item :: items) tail) =
      "(" ++ " ".intercalate ((item :: items).map text) ++ " . " ++ text tail ++ ")"

theorem printed_atom {v : Value} (atom : v.isPair = false) : v.printed = v.atomText := by
  rw [String.ext_iff, toList_printed, written_atom atom]

theorem writtenTail_chain (items : List Value) (tail : Value) :
    (chain items tail).writtenTail =
      items.flatMap (fun item => ' ' :: item.written) ++ tail.writtenTail := by
  induction items with
  | nil => rfl
  | cons item items ih =>
    change ' ' :: (item.written ++ (chain items tail).writtenTail) = _
    rw [ih]
    simp

theorem toList_intercalate_printed (item : Value) (items : List Value) :
    (" ".intercalate ((item :: items).map printed)).toList =
      item.written ++ items.flatMap fun item => ' ' :: item.written := by
  induction items generalizing item with
  | nil => simp [toList_printed]
  | cons next items ih =>
    have rest := ih next
    rw [List.map_cons] at rest ⊢
    rw [List.map_cons, String.intercalate_cons_cons, String.toList_append, String.toList_append,
      rest, toList_printed]
    simp

theorem toList_printed_chain (item : Value) (items : List Value) (tail : Value) :
    (chain (item :: items) tail).printed.toList =
      '(' :: (" ".intercalate ((item :: items).map printed)).toList ++ tail.writtenTail := by
  rw [toList_printed, toList_intercalate_printed]
  change '(' :: (item.written ++ (chain items tail).writtenTail) = _
  rw [writtenTail_chain]
  simp

theorem printingRules_printed : PrintingRules printed := by
  constructor
  · intro v atom
    exact printed_atom atom
  · intro item items
    rw [String.ext_iff, ofList, toList_printed_chain]
    simp [writtenTail]
  · intro item items tail atom nonempty
    rw [String.ext_iff, toList_printed_chain, writtenTail_atom atom nonempty, printed_atom atom]
    simp

/-- The rules leave no choice, since they tell a value by parts with fewer nodes. -/
theorem PrintingRules.unique {text other : Value → String} (rules : PrintingRules text)
    (same : PrintingRules other) (v : Value) : text v = other v := by
  induction size : v.nodes using Nat.strongRecOn generalizing v with
  | ind n ih =>
    cases parts : v.elements with
    | nil =>
      have atom : v.isPair = false := by
        cases v with
        | pair a d => cases parts
        | _ => rfl
      rw [rules.atom v atom, same.atom v atom]
    | cons item items =>
      have inner : (item :: items).map text = (item :: items).map other := by
        apply List.map_congr_left
        intro part member
        rw [← parts] at member
        have smaller := nodes_lt_of_mem_elements member
        exact ih part.nodes (by omega) part rfl
      have atom := isPair_ending v
      rw [← chain_elements v, parts]
      by_cases empty : v.ending = .empty
      · have proper (tail : Value) (ends : tail = .empty) :
            chain (item :: items) tail = ofList (item :: items) := by
          rw [ends]
          rfl
        rw [proper _ empty, rules.list, same.list, inner]
      · rw [rules.improper item items _ atom empty, same.improper item items _ atom empty, inner,
          rules.atom _ atom, same.atom _ atom]

def Piece.printed : Piece → String
  | .text s => s
  | .value v => v.printed

/-- The printer works by a list of texts and values. At every moment it has still to print these in
order, and so it prints a value as the rules of the printed form say, which determine it. -/
theorem work_list_prints_recursive_form :
    (∀ text : Value → String, PrintingRules text ↔ text = printed) ∧
      ∀ (pieces : List Piece) (out : String),
        printAll pieces out = out ++ String.join (pieces.map Piece.printed) := by
  constructor
  · intro text
    constructor
    · intro rules
      funext v
      exact rules.unique printingRules_printed v
    · rintro rfl
      exact printingRules_printed
  · intro pieces out
    have texts : Piece.written = fun piece => piece.printed.toList := by
      funext piece
      cases piece with
      | text s => rfl
      | value v => exact (toList_printed v).symm
    rw [String.ext_iff, toList_printAll, String.toList_append, String.toList_join, List.flatMap_map,
      texts]

end Schemelet.Value
