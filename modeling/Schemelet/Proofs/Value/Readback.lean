import Schemelet.Proofs.Number.Readback
import Schemelet.Proofs.Reader.Acceptance
import Schemelet.Proofs.Reader.Lexing
import Schemelet.Proofs.Value.Printer

/-! Reading a printed value. What cannot be written as such comes back as symbols: numbers that are
not finite, the unspecified value, and the tail of an improper chain, which comes back as two
further elements. Everything else comes back as itself, but for the sign of zero. -/

namespace Schemelet

namespace Literal

theorem not_blank_of_isDigit {c : Char} (digit : c.isDigit = true) : Text.isBlank c = false := by
  simp only [Char.isDigit, Bool.and_eq_true, decide_eq_true_eq, ge_iff_le, UInt32.le_iff_toNat_le]
    at digit
  have low : 48 ≤ c.toNat := digit.1
  have high : c.toNat ≤ 57 := digit.2
  simp [Text.isBlank, Text.blanks, Text.Ranges.contains]
  omega

theorem not_delimiter_of_isPart {c : Char} (part : isPart c = true) :
    Token.isDelimiter c = false ∧ c ≠ '\x27' := by
  simp only [isPart, Bool.or_eq_true, decide_eq_true_eq, List.mem_cons, List.not_mem_nil,
    or_false] at part
  rcases part with digit | rfl | rfl | rfl | rfl | rfl
  · have notOpening : c ≠ '(' := ne_of_isDigit digit rfl
    have notClosing : c ≠ ')' := ne_of_isDigit digit rfl
    refine ⟨?_, ne_of_isDigit digit rfl⟩
    simp [Token.isDelimiter, not_blank_of_isDigit digit, notOpening, notClosing]
  all_goals exact ⟨by decide, by decide⟩

theorem isAtom_of_parse {cs : List Char} {l : Literal} (parsed : parse? cs = some l) :
    Token.IsAtom cs := by
  have parts := isPart_of_mem parsed
  refine ⟨?_, fun c member => (not_delimiter_of_isPart (parts c member)).1, ?_⟩
  · rintro rfl
    cases parsed
  · intro quoted
    exact (not_delimiter_of_isPart (parts _ (List.mem_of_mem_head? quoted))).2 rfl

end Literal

namespace Value

theorem ofAtom_literal {cs : List Char} {l : Literal} (parsed : Literal.parse? cs = some l) :
    ofAtom (String.ofList cs) = .number l.number := by
  have notTruth {truth : String} (noLiteral : Literal.parse? truth.toList = none) :
      String.ofList cs ≠ truth := by
    rintro rfl
    rw [String.toList_ofList, parsed] at noLiteral
    cases noLiteral
  have notTrue : String.ofList cs ≠ "#t" := notTruth rfl
  have notFalse : String.ofList cs ≠ "#f" := notTruth rfl
  simp [ofAtom, notTrue, notFalse, parsed]

def Readable (name : String) : Prop :=
  Token.IsAtom name.toList ∧ name ≠ "#t" ∧ name ≠ "#f" ∧ Literal.parse? name.toList = none

instance (name : String) : Decidable (Readable name) :=
  inferInstanceAs (Decidable
    (Token.IsAtom name.toList ∧ name ≠ "#t" ∧ name ≠ "#f" ∧ Literal.parse? name.toList = none))

theorem ofAtom_readable {name : String} (readable : Readable name) :
    ofAtom name = .symbol name := by
  obtain ⟨_, notTrue, notFalse, notLiteral⟩ := readable
  simp [ofAtom, notTrue, notFalse, notLiteral]

/-- Values of the kinds that have a printed form to be read: all but texts and procedures, with
readable symbols. -/
def Printable : Value → Prop
  | .symbol name => Readable name
  | .pair a d => a.Printable ∧ d.Printable
  | .text _ | .primitive _ | .closure _ _ _ => False
  | _ => True

/-- Values made of proper lists, finite numbers, truth values and readable symbols only. -/
def Plain : Value → Prop
  | .empty | .bool _ => True
  | .number x => x.isFinite = true
  | .symbol name => Readable name
  | .pair a d => a.Plain ∧ d.Plain ∧ d.toList?.isSome = true
  | _ => False

def readbackAtom : Value → Value
  | .unspecified => .symbol "#<unspecified>"
  | .number x =>
    if x.isNaN then .symbol "+nan.0"
    else if x.isInfinite then .symbol (if x.isNegative then "-inf.0" else "+inf.0")
    else .number x.withoutZeroSign
  | v => v

mutual
def readback : Value → Value
  | .pair a d => .ofList (a.readback :: d.readbackTail)
  | v => v.readbackAtom

def readbackTail : Value → List Value
  | .pair a d => a.readback :: d.readbackTail
  | .empty => []
  | v => [.symbol ".", v.readbackAtom]
end

def withoutZeroSigns : Value → Value
  | .number x => .number x.withoutZeroSign
  | .pair a d => .pair a.withoutZeroSigns d.withoutZeroSigns
  | v => v

end Value

namespace Reader

open Token (Lexes Boundary scan)

def Writes (cs : List Char) (v : Value) : Prop := ∃ tokens, Derives tokens v ∧ Lexes cs tokens

def WritesTail (cs : List Char) (vs : List Value) : Prop :=
  ∃ tokens, DerivesAll tokens vs ∧
    ∀ rest, scan [] (cs ++ rest) = tokens ++ ⟨.closing, ")"⟩ :: scan [] rest

theorem writes_atom {cs : List Char} (atom : Token.IsAtom cs) :
    Writes cs (.ofAtom (String.ofList cs)) :=
  ⟨_, .atom rfl, atom.lexes⟩

theorem writes_literal {cs : List Char} {l : Literal} (parsed : Literal.parse? cs = some l) :
    Writes cs (.number l.number) := by
  have written := writes_atom (Literal.isAtom_of_parse parsed)
  rwa [Value.ofAtom_literal parsed] at written

theorem writes_symbol {name : String} (readable : Value.Readable name) :
    Writes name.toList (.symbol name) := by
  have written := writes_atom readable.1
  rwa [String.ofList_toList, Value.ofAtom_readable readable] at written

theorem writes_empty : Writes ['(', ')'] .empty := by
  refine ⟨[⟨.opening, "("⟩, ⟨.closing, ")"⟩], .list rfl .nil rfl, ?_⟩
  intro rest _
  exact (Token.scan_opening _).trans (congrArg _ (Token.scan_closing rest))

theorem writes_list {head tail : List Char} {v : Value} {vs : List Value} (first : Writes head v)
    (others : WritesTail tail vs) (boundary : ∀ rest, Boundary (tail ++ rest)) :
    Writes ('(' :: (head ++ tail)) (.ofList (v :: vs)) := by
  obtain ⟨tokens, derived, lexes⟩ := first
  obtain ⟨more, derivedAll, lexesTail⟩ := others
  refine ⟨⟨.opening, "("⟩ :: ((tokens ++ more) ++ [⟨.closing, ")"⟩]),
    .list rfl (.cons derived derivedAll) rfl, ?_⟩
  intro rest _
  rw [List.cons_append, Token.scan_opening, List.append_assoc, lexes _ (boundary rest), lexesTail]
  simp

theorem writesTail_cons {head tail : List Char} {v : Value} {vs : List Value}
    (first : Writes head v) (others : WritesTail tail vs)
    (boundary : ∀ rest, Boundary (tail ++ rest)) : WritesTail (' ' :: (head ++ tail)) (v :: vs) := by
  obtain ⟨tokens, derived, lexes⟩ := first
  obtain ⟨more, derivedAll, lexesTail⟩ := others
  refine ⟨tokens ++ more, .cons derived derivedAll, ?_⟩
  intro rest
  rw [List.cons_append, Token.scan_blank (by decide), List.append_assoc, lexes _ (boundary rest),
    lexesTail, List.append_assoc]

theorem writesTail_nil : WritesTail [')'] [] :=
  ⟨[], .nil, fun rest => Token.scan_closing rest⟩

theorem boundary_blank (rest : List Char) : Boundary (' ' :: rest) := by
  intro c first
  cases first
  decide

theorem boundary_closing (rest : List Char) : Boundary (')' :: rest) := by
  intro c first
  cases first
  decide

theorem writesTail_improper {cs : List Char} {v : Value} (written : Writes cs v) :
    WritesTail (' ' :: '.' :: ' ' :: (cs ++ [')'])) [.symbol ".", v] := by
  have point : Writes ['.'] (.symbol ".") := writes_symbol (by decide)
  have last : WritesTail (' ' :: (cs ++ [')'])) [v] :=
    writesTail_cons written writesTail_nil fun rest => boundary_closing rest
  exact writesTail_cons point last fun rest => boundary_blank _

theorem readOne_of_writes {source : String} {v : Value} (written : Writes source.toList v) :
    readOne .unlimited source = .ok v := by
  obtain ⟨tokens, derived, lexes⟩ := written
  have nothing : Boundary [] := by
    intro c first
    cases first
  have tokens_eq := lexes [] nothing
  rw [List.append_nil, show scan [] [] = [] from rfl, List.append_nil] at tokens_eq
  rw [readOne_eq_ok_iff, Token.ofSource, tokens_eq]
  exact derived

end Reader

namespace Value

theorem readbackAtom_of_finite {x : Number} (finite : x.isFinite = true) :
    readbackAtom (.number x) = .number x.withoutZeroSign := by
  simp [readbackAtom, Number.isNaN_of_isFinite finite, Number.isInfinite_of_isFinite finite]

/-- A number that is not finite comes back as the symbol of its printed form. -/
theorem symbol_or_finite (x : Number) :
    (Readable x.printed ∧ readbackAtom (.number x) = .symbol x.printed) ∨ x.isFinite = true := by
  by_cases nan : x.isNaN = true
  · have shown : x.printed = "+nan.0" := by simp [Number.printed, nan]
    have back : readbackAtom (.number x) = .symbol "+nan.0" := by simp [readbackAtom, nan]
    rw [shown, back]
    exact .inl ⟨by decide, rfl⟩
  by_cases infinite : x.isInfinite = true
  · have shown : x.printed = if x.isNegative then "-inf.0" else "+inf.0" := by
      simp [Number.printed, nan, infinite]
    have back :
        readbackAtom (.number x) = .symbol (if x.isNegative then "-inf.0" else "+inf.0") := by
      simp [readbackAtom, nan, infinite]
    rw [shown, back]
    cases x.isNegative with
    | true => exact .inl ⟨by decide, rfl⟩
    | false => exact .inl ⟨by decide, rfl⟩
  · simp only [Number.isNaN, Number.isInfinite, Number.isFinite, decide_eq_true_eq] at *
    omega

theorem writes_number (x : Number) :
    Reader.Writes x.printed.toList (readbackAtom (.number x)) := by
  rcases symbol_or_finite x with ⟨readable, back⟩ | finite
  · rw [back]
    exact Reader.writes_symbol readable
  · obtain ⟨l, parsed, value⟩ := Number.parse?_printed finite
    rw [readbackAtom_of_finite finite, ← value]
    exact Reader.writes_literal parsed

theorem writes_atomText {v : Value} (printable : v.Printable) (atom : v.isPair = false) :
    Reader.Writes v.atomText.toList v.readbackAtom := by
  cases v with
  | unspecified => exact Reader.writes_symbol (by decide)
  | empty => exact Reader.writes_empty
  | bool b =>
    cases b with
    | true => exact Reader.writes_atom (by decide)
    | false => exact Reader.writes_atom (by decide)
  | number x => exact writes_number x
  | symbol name => exact Reader.writes_symbol printable
  | pair => cases atom
  | text | primitive | closure => exact printable.elim

theorem readbackTail_atom {v : Value} (atom : v.isPair = false) (nonempty : v ≠ .empty) :
    v.readbackTail = [.symbol ".", v.readbackAtom] := by
  cases v with
  | pair => cases atom
  | empty => exact absurd rfl nonempty
  | _ => rfl

theorem boundary_writtenTail (v : Value) (rest : List Char) :
    Token.Boundary (v.writtenTail ++ rest) := by
  cases v with
  | empty => exact Reader.boundary_closing _
  | _ => exact Reader.boundary_blank _

theorem writesTail_of_atom {v : Value} (printable : v.Printable) (atom : v.isPair = false) :
    Reader.WritesTail v.writtenTail v.readbackTail := by
  by_cases nothing : v = .empty
  · rw [nothing]
    exact Reader.writesTail_nil
  · rw [writtenTail_atom atom nothing, readbackTail_atom atom nothing]
    exact Reader.writesTail_improper (writes_atomText printable atom)

theorem writes_written (v : Value) (printable : v.Printable) :
    Reader.Writes v.written v.readback ∧ Reader.WritesTail v.writtenTail v.readbackTail := by
  induction v with
  | pair a d first rest =>
    have head := (first printable.1).1
    have tail := (rest printable.2).2
    exact ⟨Reader.writes_list head tail (boundary_writtenTail d),
      Reader.writesTail_cons head tail (boundary_writtenTail d)⟩
  | _ => exact ⟨writes_atomText printable rfl, writesTail_of_atom printable rfl⟩

theorem printed_withoutZeroSign (x : Number) : x.withoutZeroSign.printed = x.printed := by
  unfold Number.withoutZeroSign
  split
  · rename_i zero
    have shown (y : Number) (zero : y.magnitude = 0) : y.printed = Number.signed false ['0'] := by
      have finite : y.isFinite = true := by
        rw [Number.isFinite, zero]
        decide
      simp [Number.printed, Number.isNaN_of_isFinite finite, Number.isInfinite_of_isFinite finite,
        zero, Number.integer?_zero, Numeral.digits, Numeral.digit]
    rw [shown x zero, shown _ (by decide)]
  · rfl

theorem atomText_readbackAtom {v : Value} (atom : v.isPair = false) :
    v.readbackAtom.atomText = v.atomText ∧ v.readbackAtom.isPair = false := by
  cases v with
  | pair => cases atom
  | number x =>
    rcases symbol_or_finite x with ⟨_, back⟩ | finite
    · rw [back]
      exact ⟨rfl, rfl⟩
    · rw [readbackAtom_of_finite finite]
      exact ⟨printed_withoutZeroSign x, rfl⟩
  | _ => exact ⟨rfl, rfl⟩

theorem written_readbackAtom {v : Value} (atom : v.isPair = false) :
    v.readbackAtom.written = v.atomText.toList := by
  obtain ⟨same, single⟩ := atomText_readbackAtom atom
  rw [written_atom single, same]

theorem writtenTail_readback_of_atom {v : Value} (atom : v.isPair = false) :
    (ofList v.readbackTail).writtenTail = v.writtenTail := by
  by_cases nothing : v = .empty
  · rw [nothing]
    rfl
  · rw [writtenTail_atom atom nothing, readbackTail_atom atom nothing, ← written_readbackAtom atom]
    rfl

theorem written_readback (v : Value) :
    v.readback.written = v.written ∧ (ofList v.readbackTail).writtenTail = v.writtenTail := by
  induction v with
  | pair a d first rest =>
    have head := first.1
    have tail := rest.2
    constructor
    · change '(' :: (a.readback.written ++ (ofList d.readbackTail).writtenTail) = _
      rw [head, tail]
      rfl
    · change ' ' :: (a.readback.written ++ (ofList d.readbackTail).writtenTail) = _
      rw [head, tail]
      rfl
  | _ => exact ⟨written_readbackAtom rfl, writtenTail_readback_of_atom rfl⟩

theorem Plain.printable {v : Value} (plain : v.Plain) : v.Printable := by
  induction v with
  | pair a d first rest => exact ⟨first plain.1, rest plain.2.1⟩
  | symbol name => exact plain
  | text | primitive | closure => exact plain.elim
  | _ => trivial

theorem readback_of_plain (v : Value) (plain : v.Plain) :
    v.readback = v.withoutZeroSigns ∧
      (v.toList?.isSome = true → ofList v.readbackTail = v.withoutZeroSigns) := by
  induction v with
  | pair a d first rest =>
    obtain ⟨plainHead, plainTail, proper⟩ := plain
    have head := (first plainHead).1
    have tail := (rest plainTail).2 proper
    have whole :
        ofList (a.readback :: d.readbackTail) = .pair a.withoutZeroSigns d.withoutZeroSigns := by
      change Value.pair a.readback (ofList d.readbackTail) = _
      rw [head, tail]
    exact ⟨whole, fun _ => whole⟩
  | empty => exact ⟨rfl, fun _ => rfl⟩
  | bool b => exact ⟨rfl, fun proper => by cases proper⟩
  | number x => exact ⟨readbackAtom_of_finite plain, fun proper => by cases proper⟩
  | symbol name => exact ⟨rfl, fun proper => by cases proper⟩
  | unspecified | text | primitive | closure => exact plain.elim

/-- A printed value reads as its readback, which is printed like the value; a plain value reads as
itself up to the signs of its zeros. -/
theorem printed_value_reads_back (v : Value) :
    (v.Printable → readOne .unlimited v.printed = .ok v.readback) ∧
      v.readback.printed = v.printed ∧
      (v.Plain → readOne .unlimited v.printed = .ok v.withoutZeroSigns) := by
  have read (printable : v.Printable) : readOne .unlimited v.printed = .ok v.readback := by
    apply Reader.readOne_of_writes
    rw [toList_printed]
    exact (writes_written v printable).1
  refine ⟨read, ?_, ?_⟩
  · rw [String.ext_iff, toList_printed, toList_printed]
    exact (written_readback v).1
  · intro plain
    rw [read plain.printable, (readback_of_plain v plain).1]

theorem improper_chain_reads_back :
    let v : Value := .chain
      [.symbol "a\x27b", .number ⟨0x8000000000000000⟩, .ofList [.unspecified, .bool false]]
      (.number ⟨0x7FF8000000000000⟩)
    v.Printable ∧ readOne .unlimited v.printed = .ok (.ofList
      [.symbol "a\x27b", .number ⟨0⟩, .ofList [.symbol "#<unspecified>", .bool false], .symbol ".",
        .symbol "+nan.0"]) := by
  have readable : Readable "a\x27b" := by decide
  have printable : (Value.chain
      [.symbol "a\x27b", .number ⟨0x8000000000000000⟩, .ofList [.unspecified, .bool false]]
      (.number ⟨0x7FF8000000000000⟩)).Printable :=
    ⟨readable, trivial, ⟨trivial, trivial, trivial⟩, trivial⟩
  exact ⟨printable, (printed_value_reads_back _).1 printable⟩

end Value

end Schemelet
