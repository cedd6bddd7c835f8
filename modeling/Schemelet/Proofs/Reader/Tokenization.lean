import Mathlib.Data.List.Chain
import Schemelet.Proofs.Reader.Lexing

/-! Texts laid out as tokens with blanks between them. Cutting a source into tokens gives the tokens
of its layouts, all of which have the same ones, since in a layout an atom goes on as far as it can.
The cutting is also the loop that matches one token at a time. -/

namespace Schemelet.Token

inductive WellFormed : Token → Prop where
  | opening : WellFormed ⟨.opening, "("⟩
  | closing : WellFormed ⟨.closing, ")"⟩
  | quote : WellFormed ⟨.quote, "\x27"⟩
  | atom {text : String} (isAtom : IsAtom text.toList) : WellFormed ⟨.atom, text⟩

def IsParenthesis (token : Token) : Prop := token.kind = .opening ∨ token.kind = .closing

structure Piece where
  token : Token
  gap : List Char
  wellFormed : token.WellFormed
  blank : ∀ c ∈ gap, Text.isBlank c = true

/-- An atom with nothing behind it is followed by a parenthesis. -/
def Piece.Precedes (p q : Piece) : Prop :=
  p.token.kind = .atom → p.gap = [] → q.token.IsParenthesis

/-- The blanks at the start, and then the tokens. -/
structure Layout where
  indent : List Char
  pieces : List Piece
  blank : ∀ c ∈ indent, Text.isBlank c = true
  maximal : pieces.IsChain Piece.Precedes

namespace Layout

def body (pieces : List Piece) : List Char :=
  pieces.flatMap fun p => p.token.text.toList ++ p.gap

def text (layout : Layout) : List Char := layout.indent ++ body layout.pieces

def tokens (layout : Layout) : List Token := layout.pieces.map (·.token)

theorem body_cons (p : Piece) (pieces : List Piece) :
    body (p :: pieces) = p.token.text.toList ++ (p.gap ++ body pieces) := by
  rw [body, List.flatMap_cons, List.append_assoc]
  rfl

end Layout

theorem not_blank_of_not_delimiter {c : Char} (inside : isDelimiter c = false) :
    Text.isBlank c = false := by
  simp only [isDelimiter, Bool.or_eq_false_iff] at inside
  exact inside.1.1

theorem boundary_cons (c : Char) (cs : List Char) : Boundary (c :: cs) ↔ isDelimiter c = true := by
  simp [Boundary]

theorem boundary_of_blank {c : Char} (blank : Text.isBlank c = true) (cs : List Char) :
    Boundary (c :: cs) := by
  rw [boundary_cons, isDelimiter, blank]
  rfl

namespace WellFormed

variable {token : Token}

theorem visible (formed : token.WellFormed) : ∀ c ∈ token.text.toList, Text.isBlank c = false := by
  cases formed with
  | opening => exact List.forall_mem_singleton.mpr (by decide)
  | closing => exact List.forall_mem_singleton.mpr (by decide)
  | quote => exact List.forall_mem_singleton.mpr (by decide)
  | atom isAtom =>
    intro c member
    exact not_blank_of_not_delimiter (isAtom.2.1 c member)

theorem ne_nil (formed : token.WellFormed) : token.text.toList ≠ [] := by
  cases formed with
  | opening => decide
  | closing => decide
  | quote => decide
  | atom isAtom => exact isAtom.1

/-- A token ends the atom before it only if it is a parenthesis. -/
theorem boundary_iff (formed : token.WellFormed) (rest : List Char) :
    Boundary (token.text.toList ++ rest) ↔ token.IsParenthesis := by
  cases formed with
  | opening => exact iff_of_true ((boundary_cons '(' rest).mpr (by decide)) (Or.inl rfl)
  | closing => exact iff_of_true ((boundary_cons ')' rest).mpr (by decide)) (Or.inr rfl)
  | quote =>
    refine iff_of_false ?_ (by simp [IsParenthesis])
    intro ends
    have delimiter := (boundary_cons '\x27' rest).mp ends
    revert delimiter
    decide
  | @atom text isAtom =>
    refine iff_of_false ?_ (by simp [IsParenthesis])
    obtain ⟨nonempty, free, -⟩ := isAtom
    obtain ⟨c, cs, split⟩ := List.exists_cons_of_ne_nil nonempty
    intro ends
    rw [split, List.cons_append, boundary_cons] at ends
    have inside := free c (by rw [split]; exact List.mem_cons_self)
    rw [inside] at ends
    contradiction

theorem scan (formed : token.WellFormed) {rest : List Char}
    (ends : token.kind = .atom → Boundary rest) :
    scan [] (token.text.toList ++ rest) = token :: scan [] rest := by
  cases formed with
  | opening => exact scan_opening rest
  | closing => exact scan_closing rest
  | quote =>
    have visible : Text.isBlank '\x27' = false := by decide
    change Token.scan [] ('\x27' :: rest) = _
    simp [Token.scan, visible]
  | atom isAtom =>
    have lexed := isAtom.lexes rest (ends rfl)
    simpa using lexed

end WellFormed

theorem scan_blanks {blanks : List Char} (blank : ∀ c ∈ blanks, Text.isBlank c = true)
    (rest : List Char) : scan [] (blanks ++ rest) = scan [] rest := by
  induction blanks with
  | nil => rfl
  | cons c cs ih =>
    rw [List.cons_append, scan_blank (blank c List.mem_cons_self)]
    apply ih
    intro d member
    exact blank d (List.mem_cons_of_mem c member)

namespace Layout

theorem boundary_of_maximal {p : Piece} {pieces : List Piece}
    (maximal : (p :: pieces).IsChain Piece.Precedes) (atom : p.token.kind = .atom) :
    Boundary (p.gap ++ body pieces) := by
  cases gap : p.gap with
  | cons c cs =>
    apply boundary_of_blank
    apply p.blank
    rw [gap]
    exact List.mem_cons_self
  | nil =>
    cases pieces with
    | nil => simp [body, Boundary]
    | cons q pieces =>
      have parenthesis := (List.isChain_cons_cons.mp maximal).1 atom gap
      rw [List.nil_append, body_cons]
      exact (q.wellFormed.boundary_iff _).mpr parenthesis

theorem scan_body {pieces : List Piece} (maximal : pieces.IsChain Piece.Precedes) :
    scan [] (body pieces) = pieces.map (·.token) := by
  induction pieces with
  | nil => rfl
  | cons p pieces ih =>
    rw [body_cons, p.wellFormed.scan (boundary_of_maximal maximal), scan_blanks p.blank]
    exact congrArg (p.token :: ·) (ih maximal.tail)

theorem scan_text (layout : Layout) : scan [] layout.text = layout.tokens := by
  rw [text, scan_blanks layout.blank]
  exact scan_body layout.maximal

theorem filter_body (pieces : List Piece) :
    (body pieces).filter (fun c => !Text.isBlank c) =
      pieces.flatMap (fun p => p.token.text.toList) := by
  rw [body, List.filter_flatMap]
  congr 1
  funext p
  rw [List.filter_append, List.filter_eq_self.mpr, List.filter_eq_nil_iff.mpr, List.append_nil]
  · intro c member
    simp [p.blank c member]
  · intro c member
    simp [p.wellFormed.visible c member]

end Layout

/-- One match: blanks are passed over, and then the first token that the text begins with is taken.
Without a token there are only blanks. -/
def next? (cs : List Char) : Option (Token × List Char) :=
  match Text.trimStart cs with
  | [] => none
  | '(' :: rest => some (⟨.opening, "("⟩, rest)
  | ')' :: rest => some (⟨.closing, ")"⟩, rest)
  | '\x27' :: rest => some (⟨.quote, "\x27"⟩, rest)
  | cs => some (⟨.atom, String.ofList (cs.takeWhile fun c => !isDelimiter c)⟩,
      cs.dropWhile fun c => !isDelimiter c)

theorem trimStart_split (cs : List Char) :
    ∃ blanks, cs = blanks ++ Text.trimStart cs ∧ ∀ c ∈ blanks, Text.isBlank c = true := by
  refine ⟨cs.takeWhile Text.isBlank, List.takeWhile_append_dropWhile.symm, ?_⟩
  exact List.all_eq_true.mp List.all_takeWhile

theorem not_blank_of_trimStart {c : Char} {cs rest : List Char}
    (first : Text.trimStart cs = c :: rest) : Text.isBlank c = false := by
  have stops := List.head?_dropWhile_not Text.isBlank cs
  rw [Text.trimStart] at first
  rw [first] at stops
  simpa using stops

theorem free_takeWhile (cs : List Char) :
    ∀ c ∈ cs.takeWhile (fun d => !isDelimiter d), isDelimiter c = false := by
  intro c member
  have free := List.all_eq_true.mp (List.all_takeWhile (p := fun d => !isDelimiter d)) c member
  simpa using free

theorem boundary_dropWhile (cs : List Char) : Boundary (cs.dropWhile fun d => !isDelimiter d) := by
  intro c first
  have stops := List.head?_dropWhile_not (fun d => !isDelimiter d) cs
  rw [Option.mem_def.mp first] at stops
  simpa using stops

theorem isAtom_takeWhile {c : Char} (cs : List Char) (inside : isDelimiter c = false)
    (unquoted : c ≠ '\x27') : IsAtom ((c :: cs).takeWhile fun d => !isDelimiter d) := by
  refine ⟨?_, free_takeWhile (c :: cs), ?_⟩
  · simp [inside]
  · simp [inside, unquoted]

theorem blank_of_next?_eq_none {cs : List Char} (absent : next? cs = none) :
    ∀ c ∈ cs, Text.isBlank c = true := by
  obtain ⟨blanks, split, blank⟩ := trimStart_split cs
  unfold next? at absent
  split at absent
  · rename_i only
    rw [only, List.append_nil] at split
    rwa [split]
  all_goals contradiction

theorem next?_eq_some {cs rest : List Char} {token : Token}
    (found : next? cs = some (token, rest)) :
    ∃ blanks, cs = blanks ++ (token.text.toList ++ rest) ∧
      (∀ c ∈ blanks, Text.isBlank c = true) ∧ token.WellFormed ∧
        (token.kind = .atom → Boundary rest) := by
  obtain ⟨blanks, split, blank⟩ := trimStart_split cs
  refine ⟨blanks, ?_⟩
  unfold next? at found
  split at found
  · contradiction
  · rename_i first
    cases found
    rw [first] at split
    exact ⟨split, blank, .opening, by simp⟩
  · rename_i first
    cases found
    rw [first] at split
    exact ⟨split, blank, .closing, by simp⟩
  · rename_i first
    cases found
    rw [first] at split
    exact ⟨split, blank, .quote, by simp⟩
  · -- What is left are the characters that no other alternative takes.
    rename_i nonempty noOpening noClosing noQuote
    cases found
    obtain ⟨c, inner, first⟩ := List.exists_cons_of_ne_nil nonempty
    rw [first] at split noOpening noClosing noQuote ⊢
    have inside : isDelimiter c = false := by
      rw [isDelimiter, not_blank_of_trimStart first]
      simp only [Bool.false_or, Bool.or_eq_false_iff, decide_eq_false_iff_not]
      constructor
      · rintro rfl
        exact noOpening inner rfl
      · rintro rfl
        exact noClosing inner rfl
    have unquoted : c ≠ '\x27' := by
      rintro rfl
      exact noQuote inner rfl
    have isAtom := isAtom_takeWhile inner inside unquoted
    refine ⟨?_, blank, .atom (by rwa [String.toList_ofList]), fun _ => boundary_dropWhile _⟩
    rw [String.toList_ofList, List.takeWhile_append_dropWhile]
    exact split

theorem next?_shorter {cs rest : List Char} {token : Token}
    (found : next? cs = some (token, rest)) : rest.length < cs.length := by
  obtain ⟨blanks, split, -, formed, -⟩ := next?_eq_some found
  have nonempty := List.length_pos_iff.mpr formed.ne_nil
  have total := congrArg List.length split
  simp only [List.length_append] at total
  omega

def munch (cs : List Char) : List Token :=
  match found : next? cs with
  | none => []
  | some (token, rest) =>
    have := next?_shorter found
    token :: munch rest
termination_by cs.length

theorem munch_of_none {cs : List Char} (found : next? cs = none) : munch cs = [] := by
  rw [munch]
  split
  · rfl
  · rename_i other
    rw [found] at other
    contradiction

theorem munch_of_some {cs rest : List Char} {token : Token}
    (found : next? cs = some (token, rest)) : munch cs = token :: munch rest := by
  rw [munch]
  split
  · rename_i other
    rw [found] at other
    contradiction
  · rename_i other
    rw [found] at other
    cases other
    rfl

namespace Layout

def cons (indent : List Char) (token : Token) (layout : Layout)
    (blank : ∀ c ∈ indent, Text.isBlank c = true) (formed : token.WellFormed)
    (ends : token.kind = .atom → Boundary layout.text) : Layout where
  indent := indent
  pieces := ⟨token, layout.indent, formed, layout.blank⟩ :: layout.pieces
  blank := blank
  maximal := by
    cases pieces : layout.pieces with
    | nil => exact .singleton _
    | cons q rest =>
      refine List.isChain_cons_cons.mpr ⟨?_, pieces ▸ layout.maximal⟩
      intro atom gap
      have boundary := ends atom
      rw [text, show layout.indent = [] from gap, List.nil_append, pieces, body_cons] at boundary
      exact (q.wellFormed.boundary_iff _).mp boundary

theorem exists_of_munch (cs : List Char) :
    ∃ layout : Layout, layout.text = cs ∧ layout.tokens = munch cs := by
  induction size : cs.length using Nat.strongRecOn generalizing cs with
  | ind n ih =>
    cases found : next? cs with
    | none =>
      refine ⟨⟨cs, [], blank_of_next?_eq_none found, .nil⟩, ?_, ?_⟩
      · simp [text, body]
      · rw [munch_of_none found]
        rfl
    | some first =>
      obtain ⟨token, rest⟩ := first
      have shorter := next?_shorter found
      obtain ⟨blanks, split, blank, formed, ends⟩ := next?_eq_some found
      obtain ⟨layout, whole, same⟩ := ih rest.length (by omega) rest rfl
      -- The blanks that the rest begins with become those behind the token.
      refine ⟨cons blanks token layout blank formed (by rwa [whole]), ?_, ?_⟩
      · rw [text, cons, body_cons]
        rw [text] at whole
        rw [whole, split]
      · rw [munch_of_some found, ← same]
        rfl

end Layout

theorem munch_eq_scan (cs : List Char) : munch cs = scan [] cs := by
  obtain ⟨layout, whole, same⟩ := Layout.exists_of_munch cs
  rw [← same, ← whole, layout.scan_text]

/-- A source has the tokens of its layouts and no others. No character but blanks is lost, and the
loop of single matches ends with the same tokens. -/
theorem tokens_are_maximal_munch (source : String) :
    (∀ tokens : List Token, ofSource source = tokens ↔
      ∃ layout : Layout, layout.text = source.toList ∧ layout.tokens = tokens) ∧
      (ofSource source).flatMap (fun token => token.text.toList) =
        source.toList.filter (fun c => !Text.isBlank c) ∧
      munch source.toList = ofSource source := by
  obtain ⟨layout, whole, same⟩ := Layout.exists_of_munch source.toList
  rw [munch_eq_scan] at same
  refine ⟨?_, ?_, munch_eq_scan source.toList⟩
  · intro tokens
    constructor
    · rintro rfl
      exact ⟨layout, whole, same⟩
    · rintro ⟨other, wholeOther, rfl⟩
      rw [ofSource, ← wholeOther]
      exact other.scan_text
  · rw [ofSource, ← same, ← whole, Layout.text, List.filter_append, Layout.filter_body,
      List.filter_eq_nil_iff.mpr, List.nil_append, Layout.tokens, List.flatMap_map]
    intro c member
    simp [layout.blank c member]

/-- A quote is a token of its own only where one can start. -/
example : ofSource "a\x27b (\x27c)" =
    [⟨.atom, "a\x27b"⟩, ⟨.opening, "("⟩, ⟨.quote, "\x27"⟩, ⟨.atom, "c"⟩, ⟨.closing, ")"⟩] := by
  decide

end Schemelet.Token
