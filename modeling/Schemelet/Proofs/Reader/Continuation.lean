import Schemelet.Proofs.Reader.Counting
import Schemelet.Proofs.Reader.Tokenization

/-! Sources that can be read after more text. Text at the end may lengthen the last atom and add
tokens, but the kinds of the tokens before it stay. So a fault stays for ever once a token shows it,
and where only the end of the source shows it, an atom and enough closing parentheses mend it. -/

namespace Schemelet

namespace Token

def Foreshadows (tokens more : List Token) : Prop :=
  tokens.map (·.kind) <+: more.map (·.kind)

theorem Foreshadows.cons {tokens more : List Token} (later : Foreshadows tokens more)
    (token : Token) : Foreshadows (token :: tokens) (token :: more) :=
  List.cons_prefix_cons.mpr ⟨rfl, later⟩

theorem Foreshadows.endAtom {tokens more : List Token} (later : Foreshadows tokens more)
    (pending : List Char) : Foreshadows (endAtom pending tokens) (endAtom pending more) := by
  unfold Token.endAtom
  split
  · exact later
  · exact later.cons _

theorem endAtom_append (pending : List Char) (tokens more : List Token) :
    endAtom pending (tokens ++ more) = endAtom pending tokens ++ more := by
  unfold endAtom
  split <;> rfl

/-- An atom that has begun is the next token, however the text goes on. -/
theorem foreshadows_of_pending (pending cs : List Char) :
    Foreshadows (endAtom pending []) (scan pending cs) := by
  by_cases begun : pending = []
  · subst begun
    exact List.nil_prefix
  · have whole : cs.takeWhile (fun d => !isDelimiter d) ++ cs.dropWhile (fun d => !isDelimiter d) =
        cs := List.takeWhile_append_dropWhile
    rw [← whole, scan_append begun (free_takeWhile cs), scan_boundary _ (boundary_dropWhile cs)]
    simp [Foreshadows, endAtom, begun]

theorem foreshadows_append (pending cs more : List Char) :
    Foreshadows (scan pending cs) (scan pending (cs ++ more)) := by
  fun_induction scan pending cs with
  | case1 pending => exact foreshadows_of_pending pending more
  | case2 pending c cs blank ih =>
    rw [List.cons_append, scan, if_pos blank]
    exact ih.endAtom pending
  | case3 pending cs visible ih =>
    rw [List.cons_append, scan, if_neg visible, if_pos rfl]
    exact (ih.cons _).endAtom pending
  | case4 pending cs visible noOpening ih =>
    rw [List.cons_append, scan, if_neg visible, if_neg noOpening, if_pos rfl]
    exact (ih.cons _).endAtom pending
  | case5 pending c cs visible noOpening noClosing quote ih =>
    rw [List.cons_append, scan, if_neg visible, if_neg noOpening, if_neg noClosing, if_pos quote]
    exact ih.cons _
  | case6 pending c cs visible noOpening noClosing noQuote ih =>
    rw [List.cons_append, scan, if_neg visible, if_neg noOpening, if_neg noClosing, if_neg noQuote]
    exact ih

theorem scan_append_blank {c : Char} (blank : Text.isBlank c = true) (pending cs more : List Char) :
    scan pending (cs ++ c :: more) = scan pending cs ++ scan [] more := by
  fun_induction scan pending cs with
  | case1 pending =>
    rw [List.nil_append, scan, if_pos blank, ← endAtom_append, List.nil_append]
  | case2 pending d cs between ih =>
    rw [List.cons_append, scan, if_pos between, ih, endAtom_append]
  | case3 pending cs visible ih =>
    rw [List.cons_append, scan, if_neg visible, if_pos rfl, ih, ← endAtom_append, List.cons_append]
  | case4 pending cs visible noOpening ih =>
    rw [List.cons_append, scan, if_neg visible, if_neg noOpening, if_pos rfl, ih, ← endAtom_append,
      List.cons_append]
  | case5 pending d cs visible noOpening noClosing quote ih =>
    rw [List.cons_append, scan, if_neg visible, if_neg noOpening, if_neg noClosing, if_pos quote,
      ih, List.cons_append]
  | case6 pending d cs visible noOpening noClosing noQuote ih =>
    rw [List.cons_append, scan, if_neg visible, if_neg noOpening, if_neg noClosing, if_neg noQuote,
      ih]

theorem scan_closings (n : Nat) :
    scan [] (List.replicate n ')') = List.replicate n ⟨.closing, ")"⟩ := by
  induction n with
  | zero => rfl
  | succ n ih => rw [List.replicate_succ, List.replicate_succ, scan_closing, ih]

end Token

def completion (depth : Nat) : String := String.ofList (' ' :: 'x' :: List.replicate depth ')')

theorem kinds_completion (source : String) (depth : Nat) :
    (Token.ofSource (source ++ completion depth)).map (·.kind) =
      (Token.ofSource source).map (·.kind) ++ .atom :: List.replicate depth .closing := by
  have boundary : Token.Boundary (List.replicate depth ')') := by
    intro c first
    have member := List.mem_of_mem_head? first
    rw [List.eq_of_mem_replicate member]
    decide
  have atom : Token.IsAtom ['x'] := by decide
  have lexed := atom.lexes _ boundary
  rw [Token.ofSource, String.toList_append, completion, String.toList_ofList,
    Token.scan_append_blank (by decide), List.map_append]
  congr 1
  rw [List.singleton_append] at lexed
  rw [lexed, Token.scan_closings]
  simp

def Reader.countSource (source : String) : Reader.Count :=
  Reader.count 0 false ((Token.ofSource source).map (·.kind))

open Reader

theorem faultOf_readOne (source : String) :
    faultOf (readOne .unlimited source) = (countSource source).fault? :=
  faultOf_readSingle (Token.ofSource source)

theorem fault?_countSource {source : String} {e : ReadError}
    (fails : readOne .unlimited source = .error e) : (countSource source).fault? = some e := by
  rw [← faultOf_readOne, faultOf_eq_some_iff]
  exact fails

theorem countSource_append (source more : String) :
    ∃ kinds, countSource (source ++ more) = (countSource source).continued kinds := by
  obtain ⟨kinds, split⟩ := Token.foreshadows_append [] source.toList more.toList
  refine ⟨kinds, ?_⟩
  rw [countSource, Token.ofSource, String.toList_append, ← split, count_append]
  rfl

theorem readOne_append_of_shown {source : String} {e : ReadError}
    (fails : readOne .unlimited source = .error e)
    (shown : ¬ ∃ depth quoted, countSource source = .pending depth quoted) (more : String) :
    readOne .unlimited (source ++ more) = .error e := by
  obtain ⟨kinds, later⟩ := countSource_append source more
  rw [← faultOf_eq_some_iff, faultOf_readOne, later]
  exact Count.fault?_continued (fault?_countSource fails) shown kinds

theorem readOne_completion {source : String} {depth : Nat} {quoted : Bool}
    (pending : countSource source = .pending depth quoted) :
    ∃ v, readOne .unlimited (source ++ completion depth) = .ok v := by
  rw [countSource] at pending
  rw [← faultOf_eq_none_iff, faultOf_readOne, countSource, kinds_completion, count_append, pending,
    Count.continued, count_closings]
  rfl

/-- A source that cannot be read is incomplete, and then some text completes it, or it is wrong, and
then every continuation has the same fault. -/
theorem incomplete_iff_continuable {source : String} {e : ReadError}
    (fails : readOne .unlimited source = .error e) :
    ((e = .unexpectedEnd ∨ e = .unmatchedParenthesis) ↔
      ∃ more v, readOne .unlimited (source ++ more) = .ok v) ∧
      ((e = .unexpectedClosing ∨ e = .extraInput) →
        ∀ more, readOne .unlimited (source ++ more) = .error e) := by
  have incomplete := Count.pending_iff (fault?_countSource fails)
  rw [← incomplete]
  constructor
  · constructor
    · rintro ⟨depth, quoted, pending⟩
      exact ⟨completion depth, readOne_completion pending⟩
    · rintro ⟨more, v, read⟩
      apply Classical.byContradiction
      intro shown
      rw [readOne_append_of_shown fails shown more] at read
      contradiction
  · intro wrong more
    apply readOne_append_of_shown fails
    rw [incomplete]
    rcases wrong with rfl | rfl <;> simp

theorem quote_in_list_continuable :
    readOne .unlimited "(a \x27" = .error .unexpectedEnd ∧
      (∃ more v, readOne .unlimited ("(a \x27" ++ more) = .ok v) ∧
      readOne .unlimited "(a))" = .error .extraInput ∧
      ∀ more, readOne .unlimited ("(a))" ++ more) = .error .extraInput :=
  ⟨by decide, (incomplete_iff_continuable (by decide)).1.mp (.inl rfl), by decide,
    (incomplete_iff_continuable (by decide)).2 (.inr rfl)⟩

end Schemelet
