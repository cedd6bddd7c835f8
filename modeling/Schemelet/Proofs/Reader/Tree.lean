import Schemelet.Proofs.Evaluation.OwnFrame
import Schemelet.Proofs.Reader.Levels
import Schemelet.Proofs.Value.Procedure

/-! What reading can give. Everything that is read is a tree of proper lists with truth values,
numbers and symbols at its leaves. It is nested no deeper than the limit allows, and its symbols
stand in the source. -/

namespace Schemelet

namespace Value

/-- Truth values, numbers, symbols and pairs in which every chain, at every level, ends in the empty
list. -/
def isTree : Value → Bool
  | .bool _ | .number _ | .symbol _ | .empty => true
  | .pair a d => a.isTree && d.isTree && d.toList?.isSome
  | _ => false

theorem isTree_pair {a d : Value} :
    (pair a d).isTree = true ↔ a.isTree = true ∧ d.isTree = true ∧ d.toList?.isSome = true := by
  simp only [isTree, Bool.and_eq_true, and_assoc]

theorem proper_of_isTree {a d : Value} (tree : (pair a d).isTree = true) :
    d.toList? = some d.elements := by
  obtain ⟨-, -, proper⟩ := isTree_pair.mp tree
  obtain ⟨items, found⟩ := Option.isSome_iff_exists.mp proper
  rw [elements_of_toList? found, found]

theorem isTree_of_mem_elements {v w : Value} (tree : w.isTree = true) (member : v ∈ w.elements) :
    v.isTree = true := by
  induction w with
  | pair a d _ ih =>
    obtain ⟨first, rest, -⟩ := isTree_pair.mp tree
    rcases List.mem_cons.mp member with rfl | later
    · exact first
    · exact ih rest later
  | _ => cases member

theorem procedures_of_isTree {v : Value} (tree : v.isTree = true) : v.procedures = [] := by
  induction v with
  | pair a d iha ihd =>
    obtain ⟨first, rest, -⟩ := isTree_pair.mp tree
    rw [procedures, iha first, ihd rest]
    rfl
  | primitive p => cases tree
  | closure params body frame => cases tree
  | _ => rfl

theorem isTree_ofList {items : List Value} (trees : ∀ v ∈ items, v.isTree = true) :
    (ofList items).isTree = true := by
  induction items with
  | nil => rfl
  | cons item items ih =>
    change (pair item (ofList items)).isTree = true
    refine isTree_pair.mpr ⟨trees item List.mem_cons_self, ih ?_, ?_⟩
    · intro v member
      exact trees v (List.mem_cons_of_mem _ member)
    · rw [toList?_ofList]
      rfl

theorem ofAtom_forms (token : String) :
    (∃ b, ofAtom token = .bool b) ∨ (∃ x, ofAtom token = .number x) ∨
      ofAtom token = .symbol token := by
  unfold ofAtom
  split
  · exact Or.inl ⟨true, rfl⟩
  · split
    · exact Or.inl ⟨false, rfl⟩
    · cases Literal.parse? token.toList with
      | some literal => exact Or.inr (Or.inl ⟨literal.number, rfl⟩)
      | none => exact Or.inr (Or.inr rfl)

theorem isTree_ofAtom (token : String) : (ofAtom token).isTree = true := by
  rcases ofAtom_forms token with ⟨b, form⟩ | ⟨x, form⟩ | form <;> rw [form] <;> rfl

theorem isTree_quotation {v : Value} (tree : v.isTree = true) :
    (Reader.quotation v).isTree = true := by
  apply isTree_ofList
  intro w member
  rcases List.mem_cons.mp member with rfl | later
  · rfl
  · rw [List.mem_singleton.mp later]
    exact tree

/-- How deep the parentheses and quotes lie that a value is read through. -/
def nesting : Value → Nat
  | .empty => 1
  | .pair a d => max (a.nesting + 1) d.nesting
  | _ => 0

theorem nesting_lt_of_mem_elements {v w : Value} (member : v ∈ w.elements) :
    v.nesting < w.nesting := by
  induction w with
  | pair a d _ ih =>
    simp only [nesting]
    rcases List.mem_cons.mp member with rfl | later
    · omega
    · have := ih later
      omega
  | _ => cases member

theorem nesting_ofList (items : List Value) :
    (ofList items).nesting = 1 ∨ ∃ v ∈ items, (ofList items).nesting = v.nesting + 1 := by
  induction items with
  | nil => exact Or.inl rfl
  | cons item items ih =>
    change max (item.nesting + 1) (ofList items).nesting = 1 ∨
      ∃ v ∈ item :: items, max (item.nesting + 1) (ofList items).nesting = v.nesting + 1
    rcases Nat.le_total (ofList items).nesting (item.nesting + 1) with below | above
    · right
      exact ⟨item, List.mem_cons_self, by omega⟩
    · rcases ih with single | ⟨v, member, deepest⟩
      · left
        omega
      · right
        exact ⟨v, List.mem_cons_of_mem _ member, by omega⟩

theorem nesting_quotation (v : Value) : (Reader.quotation v).nesting = v.nesting + 1 := by
  change max (0 + 1) (max (v.nesting + 1) 1) = v.nesting + 1
  omega

theorem nesting_ofAtom (token : String) : (ofAtom token).nesting = 0 := by
  rcases ofAtom_forms token with ⟨b, form⟩ | ⟨x, form⟩ | form <;> rw [form] <;> rfl

theorem free_ofAtom {name token : String} (other : token ≠ name) :
    (ofAtom token).mentions name = false := by
  rcases ofAtom_forms token with ⟨b, form⟩ | ⟨x, form⟩ | form <;> rw [form]
  · rfl
  · rfl
  · exact decide_eq_false other

end Value

namespace Reader

theorem grows_isTree (limit : Limit) (tokens : List Token) :
    Grows limit tokens fun _ v => v.isTree = true where
  atom token _ _ _ := Value.isTree_ofAtom token.text
  quotation _ _ tree := Value.isTree_quotation tree
  list _ _ _ trees := Value.isTree_ofList trees

theorem grows_nesting (limit : Limit) (tokens : List Token) :
    Grows limit tokens fun depth v => limit.allows (depth + v.nesting) = true where
  atom token _ depth allowed := by
    rw [Value.nesting_ofAtom]
    exact allowed
  quotation depth v allowed := by
    rw [Value.nesting_quotation, Nat.add_comm v.nesting 1, ← Nat.add_assoc]
    exact allowed
  list depth items allowed inner := by
    rcases Value.nesting_ofList items with single | ⟨v, member, deepest⟩
    · rw [single]
      exact allowed
    · rw [deepest, Nat.add_comm v.nesting 1, ← Nat.add_assoc]
      exact inner v member

/-- Symbols are read from tokens, but for that of quotations. -/
theorem grows_free {name : String} (noQuote : "quote" ≠ name) {tokens : List Token}
    (free : ∀ token ∈ tokens, token.text ≠ name) (limit : Limit) :
    Grows limit tokens fun _ v => v.mentions name = false where
  atom token member _ _ := Value.free_ofAtom (free token member)
  quotation _ v inner := by
    apply Value.free_ofList
    intro w member
    rcases List.mem_cons.mp member with rfl | later
    · exact decide_eq_false noQuote
    · rw [List.mem_singleton.mp later]
      exact inner
  list _ _ _ inner := Value.free_ofList inner

end Reader

theorem isTree_of_readOne {limit : Limit} {source : String} {v : Value}
    (read : readOne limit source = .ok v) : v.isTree = true :=
  (Reader.grows_isTree limit (Token.ofSource source)).readSingle read

theorem isTree_of_mem_readAll {limit : Limit} {source : String} :
    ∀ v ∈ (readAll limit source).values, v.isTree = true :=
  (Reader.grows_isTree limit (Token.ofSource source)).readAll

end Schemelet
