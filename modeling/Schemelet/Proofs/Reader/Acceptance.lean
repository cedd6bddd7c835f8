import Schemelet.Proofs.Reader.Grammar
import Schemelet.Proofs.Reader.Recursion

/-! The cursor and whole sources against the grammar. A cursor that reads a value, in one pass or by
recursion, moves past exactly the tokens that derive it, and a source reads as a value exactly if
all its tokens derive it. -/

namespace Schemelet

namespace Token

theorem known_of_mem_endAtom {pending : List Char} {tokens : List Token}
    (known : ∀ token ∈ tokens, token.kind.Known) :
    ∀ token ∈ endAtom pending tokens, token.kind.Known := by
  intro token member
  unfold endAtom at member
  split at member
  · exact known token member
  · rcases List.mem_cons.mp member with rfl | member
    · trivial
    · exact known token member

theorem known_of_mem_scan {pending cs : List Char} :
    ∀ token ∈ scan pending cs, token.kind.Known := by
  have cons {kind : TokenKind} {text : String} {tokens : List Token} (first : kind.Known)
      (known : ∀ token ∈ tokens, token.kind.Known) :
      ∀ token ∈ (⟨kind, text⟩ : Token) :: tokens, token.kind.Known :=
    List.forall_mem_cons.mpr ⟨first, known⟩
  fun_induction scan pending cs with
  | case1 => exact known_of_mem_endAtom (List.forall_mem_nil _)
  | case2 _ _ _ _ ih => exact known_of_mem_endAtom ih
  | case3 _ _ _ ih => exact known_of_mem_endAtom (cons trivial ih)
  | case4 _ _ _ _ ih => exact known_of_mem_endAtom (cons trivial ih)
  | case5 _ _ _ _ _ _ _ ih => exact cons trivial ih
  | case6 _ _ _ _ _ _ _ ih => exact ih

end Token

namespace Reader

theorem Derives.ne_nil {tokens : List Token} {v : Value} (derived : Derives tokens v) :
    tokens ≠ [] := by
  cases derived <;> exact List.cons_ne_nil _ _

theorem extract_append_drop (tokens : List Token) (p q : Nat) :
    tokens.extract p q ++ (tokens.drop p).drop (q - p) = tokens.drop p :=
  List.take_append_drop (q - p) (tokens.drop p)

theorem lt_of_derives_extract {tokens : List Token} {p q : Nat} {v : Value}
    (derived : Derives (tokens.extract p q) v) : p < q := by
  apply Classical.byContradiction
  intro notBefore
  apply derived.ne_nil
  rw [List.extract_eq_take_drop, Nat.sub_eq_zero_of_le (Nat.le_of_not_lt notBefore), List.take_zero]

theorem Cursor.readNext_eq_ok_iff {c c' : Cursor} {v : Value}
    (known : ∀ token ∈ c.tokens, token.kind.Known) :
    c.readNext .unlimited = (.ok v, c') ↔
      c'.tokens = c.tokens ∧ Derives (c.tokens.extract c.position c'.position) v := by
  obtain ⟨tokens, p, start⟩ := c
  obtain ⟨tokens', q, stop⟩ := c'
  have knownRest : ∀ token ∈ tokens.drop p, token.kind.Known :=
    fun token member => known token (List.mem_of_mem_drop member)
  constructor
  · intro read
    rcases complete : Reader.readNext .unlimited (tokens.drop p) with ⟨result, rest⟩
    simp only [Cursor.readNext, Cursor.rest, complete, Cursor.moveTo, Prod.mk.injEq,
      Cursor.mk.injEq] at read
    obtain ⟨rfl, rfl, rfl⟩ := read
    obtain ⟨inside, split, derived⟩ := (Reader.readNext_eq_ok_iff knownRest).mp complete
    have size : tokens.length - p = inside.length + rest.length := by
      rw [← List.length_drop, split, List.length_append]
    have whole : tokens.extract p (tokens.length - rest.length) = inside := by
      rw [List.extract_eq_take_drop, split]
      exact List.take_left' (by omega)
    refine ⟨rfl, ?_⟩
    rw [whole]
    exact derived
  · rintro ⟨rfl, derived⟩
    have before := lt_of_derives_extract derived
    have read := readNext_of_derives derived ((tokens'.drop p).drop (q - p))
    rw [extract_append_drop] at read
    simp only [Cursor.readNext, Cursor.rest, read, Cursor.moveTo, Prod.mk.injEq, Cursor.mk.injEq,
      true_and, List.length_drop]
    change q ≤ tokens'.length at stop
    dsimp only at before
    omega

theorem end_unique {tokens : List Token} {p q q' : Nat} {v v' : Value}
    (inRange : q ≤ tokens.length) (inRange' : q' ≤ tokens.length)
    (first : Derives (tokens.extract p q) v) (second : Derives (tokens.extract p q') v') :
    q = q' := by
  have same := (extract_append_drop tokens p q).trans (extract_append_drop tokens p q').symm
  have rests := congrArg List.length (first.unique second same).2
  simp only [List.length_drop] at rests
  have before := lt_of_derives_extract first
  have before' := lt_of_derives_extract second
  omega

end Reader

theorem readOne_eq_ok_iff {source : String} {v : Value} :
    readOne .unlimited source = .ok v ↔ Reader.Derives (Token.ofSource source) v :=
  Reader.readSingle_eq_ok_iff Token.known_of_mem_scan

namespace Reader

/-- The reader accepts exactly the grammar: the value and the position it ends at are those of the
one slice from where it starts that derives a value, and a source is read as a whole. Under every
limit it does what the recursion does. -/
theorem reader_accepts_grammar {tokens : List Token}
    (known : ∀ token ∈ tokens, token.kind.Known) :
    (∀ (c c' : Cursor) (v : Value), c.tokens = tokens →
      (c.readNext .unlimited = (.ok v, c') ↔
        c'.tokens = tokens ∧ Derives (tokens.extract c.position c'.position) v)) ∧
      (∀ v v' : Value, Derives tokens v → Derives tokens v' → v = v') ∧
      (∀ (p q q' : Nat) (v v' : Value), q ≤ tokens.length → q' ≤ tokens.length →
        Derives (tokens.extract p q) v → Derives (tokens.extract p q') v' → q = q') ∧
      (∀ (source : String) (v : Value),
        readOne .unlimited source = .ok v ↔ Derives (Token.ofSource source) v) ∧
      ∀ (limit : Limit) (c : Cursor), c.readNext limit = c.parseNext limit := by
  refine ⟨?_, ?_, ?_, ?_, ?_⟩
  · rintro c c' v rfl
    exact Cursor.readNext_eq_ok_iff known
  · intro v v' first second
    have same : tokens ++ [] = tokens ++ [] := rfl
    exact (first.unique second same).1
  · intro p q q' v v' inRange inRange' first second
    exact end_unique inRange inRange' first second
  · intro source v
    exact readOne_eq_ok_iff
  · intro limit c
    exact (c.parseNext_eq limit).symm

theorem quotation_in_list_derived :
    let tokens : List Token :=
      [⟨.quote, "\x27"⟩, ⟨.opening, "("⟩, ⟨.quote, "\x27"⟩, ⟨.opening, "("⟩, ⟨.closing, ")"⟩,
        ⟨.atom, "#t"⟩, ⟨.closing, ")"⟩, ⟨.atom, "x"⟩]
    (∀ token ∈ tokens, token.kind.Known) ∧
      Derives (tokens.extract 1 7) (.ofList [quotation .empty, .bool true]) := by
  intro tokens
  have known : ∀ token ∈ tokens, token.kind.Known := by decide
  have read : (Cursor.mk tokens 1 (by decide)).readNext .unlimited =
      (.ok (.ofList [quotation .empty, .bool true]), ⟨tokens, 7, by decide⟩) := rfl
  exact ⟨known, (((reader_accepts_grammar known).1 _ _ _ rfl).mp read).2⟩

end Reader

end Schemelet
