import Schemelet.Reader.Cursor

/-! The grammar of expressions over tokens, and the reader against it: reading from a position ends
with a value at another position exactly if the tokens between the two derive that value. -/

namespace Schemelet

def TokenKind.Known : TokenKind → Prop
  | .other _ => False
  | _ => True

instance : DecidablePred TokenKind.Known
  | .other _ => .isFalse id
  | .opening | .closing | .quote | .atom => .isTrue trivial

namespace Reader

mutual
/-- The tokens of an expression. -/
inductive Derives : List Token → Value → Prop where
  | atom {token : Token} (kind : token.kind = .atom) : Derives [token] (.ofAtom token.text)
  | quote {token : Token} {tokens : List Token} {v : Value} (kind : token.kind = .quote)
      (quoted : Derives tokens v) : Derives (token :: tokens) (quotation v)
  | list {first last : Token} {tokens : List Token} {vs : List Value}
      (opens : first.kind = .opening) (elements : DerivesAll tokens vs)
      (closes : last.kind = .closing) : Derives (first :: (tokens ++ [last])) (.ofList vs)

inductive DerivesAll : List Token → List Value → Prop where
  | nil : DerivesAll [] []
  | cons {tokens rest : List Token} {v : Value} {vs : List Value} (head : Derives tokens v)
      (tail : DerivesAll rest vs) : DerivesAll (tokens ++ rest) (v :: vs)
end

def resume (tokens : List Token) : Progress → Except ReadError Value × List Token
  | .done v => (.ok v, tokens)
  | .more levels => readFrom .unlimited levels tokens

theorem readFrom_atom {token : Token} (kind : token.kind = .atom) (levels : List Level)
    (tokens : List Token) :
    readFrom .unlimited levels (token :: tokens) =
      resume tokens (deliver (.ofAtom token.text) levels) := by
  simp only [readFrom, kind]
  cases deliver (.ofAtom token.text) levels <;> rfl

theorem readFrom_quote {token : Token} (kind : token.kind = .quote) (levels : List Level)
    (tokens : List Token) :
    readFrom .unlimited levels (token :: tokens) =
      readFrom .unlimited (.quote :: levels) tokens := by
  simp [readFrom, kind, Limit.allows]

theorem readFrom_opening {token : Token} (kind : token.kind = .opening) (levels : List Level)
    (tokens : List Token) :
    readFrom .unlimited levels (token :: tokens) =
      readFrom .unlimited (.list [] :: levels) tokens := by
  simp [readFrom, kind, Limit.allows]

theorem readFrom_closing {token : Token} (kind : token.kind = .closing) (items : List Value)
    (levels : List Level) (tokens : List Token) :
    readFrom .unlimited (.list items :: levels) (token :: tokens) =
      resume tokens (deliver (.ofList items.reverse) levels) := by
  simp only [readFrom, kind]
  cases deliver (.ofList items.reverse) levels <;> rfl

mutual
theorem readFrom_of_derives {tokens : List Token} {v : Value} :
    Derives tokens v → ∀ (levels : List Level) (more : List Token),
      readFrom .unlimited levels (tokens ++ more) = resume more (deliver v levels)
  | .atom kind, levels, more => readFrom_atom kind levels more
  | .quote kind quoted, levels, more => by
    have inner := readFrom_of_derives quoted (.quote :: levels) more
    exact (readFrom_quote kind levels _).trans inner
  | @Derives.list first last tokens vs opens elements closes, levels, more => by
    have inner := readFrom_of_derivesAll elements [] levels (last :: more)
    calc readFrom .unlimited levels (first :: (tokens ++ [last]) ++ more)
        = readFrom .unlimited (.list [] :: levels) (tokens ++ last :: more) := by
          rw [List.cons_append, List.append_assoc]
          exact readFrom_opening opens levels _
      _ = readFrom .unlimited (.list (vs.reverse ++ []) :: levels) (last :: more) := inner
      _ = resume more (deliver (.ofList vs) levels) := by
          rw [readFrom_closing closes, List.append_nil, List.reverse_reverse]

theorem readFrom_of_derivesAll {tokens : List Token} {vs : List Value} :
    DerivesAll tokens vs → ∀ (items : List Value) (levels : List Level) (more : List Token),
      readFrom .unlimited (.list items :: levels) (tokens ++ more) =
        readFrom .unlimited (.list (vs.reverse ++ items) :: levels) more
  | .nil, _, _, _ => rfl
  | @DerivesAll.cons tokens rest v vs head tail, items, levels, more => by
    have first := readFrom_of_derives head (.list items :: levels) (rest ++ more)
    have next := readFrom_of_derivesAll tail (v :: items) levels more
    rw [List.append_assoc, first, List.reverse_cons, List.append_assoc]
    exact next
end

/-- The tokens that the open levels still need, once they have been handed a value, to complete as
another one. -/
def Delivered : Value → List Level → List Token → Value → Prop
  | w, [], tokens, v => tokens = [] ∧ w = v
  | w, .quote :: levels, tokens, v => Delivered (quotation w) levels tokens v
  | w, .list items :: levels, tokens, v =>
    ∃ (inside rest : List Token) (last : Token) (vs : List Value),
      tokens = inside ++ last :: rest ∧ last.kind = .closing ∧ DerivesAll inside vs ∧
        Delivered (.ofList ((w :: items).reverse ++ vs)) levels rest v

def Completes : List Level → List Token → Value → Prop
  | .list items :: levels, tokens, v =>
    ∃ (inside rest : List Token) (last : Token) (vs : List Value),
      tokens = inside ++ last :: rest ∧ last.kind = .closing ∧ DerivesAll inside vs ∧
        Delivered (.ofList (items.reverse ++ vs)) levels rest v
  | levels, tokens, v =>
    ∃ (inside rest : List Token) (w : Value),
      tokens = inside ++ rest ∧ Derives inside w ∧ Delivered w levels rest v

theorem Delivered.completes {w v : Value} {levels : List Level} {inside rest : List Token}
    (derived : Derives inside w) (delivered : Delivered w levels rest v) :
    Completes levels (inside ++ rest) v := by
  match levels with
  | [] => exact ⟨inside, rest, w, rfl, derived, delivered⟩
  | .quote :: levels => exact ⟨inside, rest, w, rfl, derived, delivered⟩
  | .list items :: levels =>
    obtain ⟨more, rest, last, vs, rfl, closes, elements, outer⟩ := delivered
    refine ⟨inside ++ more, rest, last, w :: vs, ?_, closes, .cons derived elements, ?_⟩
    · exact (List.append_assoc _ _ _).symm
    · simpa using outer

theorem Completes.quote {token : Token} (kind : token.kind = .quote) {levels : List Level}
    {tokens : List Token} {v : Value} (completes : Completes (.quote :: levels) tokens v) :
    Completes levels (token :: tokens) v := by
  obtain ⟨inside, rest, w, rfl, derived, delivered⟩ := completes
  exact Delivered.completes (.quote kind derived) delivered

theorem Completes.opening {token : Token} (kind : token.kind = .opening) {levels : List Level}
    {tokens : List Token} {v : Value} (completes : Completes (.list [] :: levels) tokens v) :
    Completes levels (token :: tokens) v := by
  obtain ⟨inside, rest, last, vs, rfl, closes, elements, delivered⟩ := completes
  have derived : Derives (token :: (inside ++ [last])) (.ofList vs) := .list kind elements closes
  have whole := Delivered.completes derived delivered
  simpa using whole

theorem Completes.closing {token : Token} (kind : token.kind = .closing) {items : List Value}
    {levels : List Level} {tokens : List Token} {v : Value}
    (delivered : Delivered (.ofList items.reverse) levels tokens v) :
    Completes (.list items :: levels) (token :: tokens) v := by
  refine ⟨[], tokens, token, [], rfl, kind, .nil, ?_⟩
  rwa [List.append_nil]

theorem delivered_of_done {w v : Value} {levels : List Level} (done : deliver w levels = .done v) :
    Delivered w levels [] v := by
  fun_induction deliver w levels with
  | case1 w =>
    cases done
    exact ⟨rfl, rfl⟩
  | case2 w levels ih => exact ih done
  | case3 => cases done

theorem delivered_of_more {w v : Value} {levels levels' : List Level} {tokens : List Token}
    (more : deliver w levels = .more levels') (completes : Completes levels' tokens v) :
    Delivered w levels tokens v := by
  fun_induction deliver w levels with
  | case1 => cases more
  | case2 w levels ih => exact ih more
  | case3 w items levels =>
    cases more
    exact completes

-- The assumption is the induction hypothesis of the theorem below, for the tokens that are left.
theorem delivered_of_resume {w v : Value} {levels : List Level} {tokens rest : List Token}
    (sound : ∀ levels', readFrom .unlimited levels' tokens = (.ok v, rest) →
      ∃ inside, tokens = inside ++ rest ∧ Completes levels' inside v)
    (read : resume tokens (deliver w levels) = (.ok v, rest)) :
    ∃ inside, tokens = inside ++ rest ∧ Delivered w levels inside v := by
  cases progress : deliver w levels with
  | done u =>
    rw [progress] at read
    cases read
    exact ⟨[], rfl, delivered_of_done progress⟩
  | more levels' =>
    rw [progress] at read
    obtain ⟨inside, split, completes⟩ := sound levels' read
    exact ⟨inside, split, delivered_of_more progress completes⟩

theorem completes_of_readFrom {tokens rest : List Token} {v : Value} {levels : List Level}
    (known : ∀ token ∈ tokens, token.kind.Known)
    (read : readFrom .unlimited levels tokens = (.ok v, rest)) :
    ∃ inside, tokens = inside ++ rest ∧ Completes levels inside v := by
  induction tokens generalizing levels with
  | nil => cases read
  | cons token tokens ih =>
    have sound : ∀ levels', readFrom .unlimited levels' tokens = (.ok v, rest) →
        ∃ inside, tokens = inside ++ rest ∧ Completes levels' inside v :=
      fun _ later => ih (fun t member => known t (List.mem_cons_of_mem _ member)) later
    cases kind : token.kind with
    | atom =>
      rw [readFrom_atom kind] at read
      obtain ⟨inside, rfl, delivered⟩ := delivered_of_resume sound read
      exact ⟨token :: inside, rfl, Delivered.completes (.atom kind) delivered⟩
    | quote =>
      rw [readFrom_quote kind] at read
      obtain ⟨inside, rfl, completes⟩ := sound _ read
      exact ⟨token :: inside, rfl, .quote kind completes⟩
    | opening =>
      rw [readFrom_opening kind] at read
      obtain ⟨inside, rfl, completes⟩ := sound _ read
      exact ⟨token :: inside, rfl, .opening kind completes⟩
    | closing =>
      match levels with
      | .list items :: levels =>
        rw [readFrom_closing kind] at read
        obtain ⟨inside, rfl, delivered⟩ := delivered_of_resume sound read
        exact ⟨token :: inside, rfl, .closing kind delivered⟩
      | [] | .quote :: levels =>
        simp [readFrom, kind] at read
    | other name =>
      have whole := known token List.mem_cons_self
      rw [kind] at whole
      exact whole.elim

theorem readNext_of_derives {tokens : List Token} {v : Value} (derived : Derives tokens v)
    (rest : List Token) : readNext .unlimited (tokens ++ rest) = (.ok v, rest) :=
  readFrom_of_derives derived [] rest

theorem readNext_eq_ok_iff {tokens rest : List Token} {v : Value}
    (known : ∀ token ∈ tokens, token.kind.Known) :
    readNext .unlimited tokens = (.ok v, rest) ↔
      ∃ inside, tokens = inside ++ rest ∧ Derives inside v := by
  constructor
  · intro read
    obtain ⟨_, rfl, inside, _, w, rfl, derived, rfl, rfl⟩ := completes_of_readFrom known read
    refine ⟨inside, ?_, derived⟩
    rw [List.append_nil]
  · rintro ⟨inside, rfl, derived⟩
    exact readNext_of_derives derived rest

theorem readSingle_eq_ok_iff {tokens : List Token} {v : Value}
    (known : ∀ token ∈ tokens, token.kind.Known) :
    readSingle .unlimited tokens = .ok v ↔ Derives tokens v := by
  constructor
  · intro read
    unfold readSingle at read
    split at read
    · rename_i w complete
      cases read
      obtain ⟨inside, rfl, derived⟩ := (readNext_eq_ok_iff known).mp complete
      rwa [List.append_nil]
    · cases read
    · cases read
  · intro derived
    have complete := readNext_of_derives derived []
    rw [List.append_nil] at complete
    rw [readSingle, complete]

/-- At most one beginning of a token sequence derives a value, and it derives only one. -/
theorem Derives.unique {tokens more tokens' more' : List Token} {v v' : Value}
    (first : Derives tokens v) (second : Derives tokens' v')
    (same : tokens ++ more = tokens' ++ more') : v = v' ∧ more = more' := by
  have read := readNext_of_derives first more
  rw [same, readNext_of_derives second more'] at read
  cases read
  exact ⟨rfl, rfl⟩

end Reader

end Schemelet
