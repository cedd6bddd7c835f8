import Schemelet.Proofs.Evaluation.Shape
import Schemelet.Proofs.Value.Printer

/-! Lists and chains. A chain is made of its elements and its ending, and both are found in it
again. A walk along it gives the elements and drops the ending; a list is only had of it when the
ending is the empty one. -/

namespace Schemelet.Value

theorem elements_chain (items : List Value) (tail : Value) :
    (chain items tail).elements = items ++ tail.elements := by
  induction items with
  | nil => rfl
  | cons item items ih =>
    change item :: (chain items tail).elements = item :: (items ++ tail.elements)
    rw [ih]

theorem ending_chain (items : List Value) (tail : Value) :
    (chain items tail).ending = tail.ending := by
  induction items with
  | nil => rfl
  | cons item items ih => exact ih

theorem elements_of_atom {v : Value} (atom : v.isPair = false) : v.elements = [] := by
  cases v with
  | pair a d => cases atom
  | _ => rfl

theorem toList_eq_ok_iff {what : String} {v : Value} {items : List Value} :
    v.toList what = .ok items ↔ v = ofList items := by
  rw [← toList?_eq_some_iff, toList]
  cases v.toList? <;> simp

theorem eq_ofList_of_ending {v : Value} (proper : v.ending = .empty) : v = ofList v.elements := by
  have whole := v.chain_elements
  rw [proper] at whole
  exact whole.symm

theorem toList_eq_ite (what : String) (v : Value) :
    v.toList what =
      if v.ending = .empty then .ok v.elements
      else .error (.malformedForm (.improper what)) := by
  split
  · rename_i proper
    exact toList_eq_ok_iff.mpr (eq_ofList_of_ending proper)
  · rename_i improper
    apply toList_of_none
    apply Option.eq_none_iff_forall_ne_some.mpr
    intro items proper
    apply improper
    rw [toList?_eq_some_iff.mp proper]
    exact ending_chain items .empty

theorem toList_chain_eq_ok_iff {what : String} {items all : List Value} {tail : Value} :
    (chain items tail).toList what = .ok all ↔
      ∃ rest, tail.toList what = .ok rest ∧ all = items ++ rest := by
  rw [toList_eq_ite, toList_eq_ite, ending_chain, elements_chain]
  split
  · simp [eq_comm]
  · simp

/-- Making a chain of a list and a list of a chain undo each other. The chains that have a list are
those made of one, and of no other; the rest is refused. A chain in front of a tail has the list of
the tail behind its own items, if the tail has one, and a walk along it goes on through a tail that
is a pair and stops before any other. -/
theorem chains_and_lists_convert_back (what : String) :
    (∀ (v : Value) (items : List Value), v.toList what = .ok items ↔ v = ofList items) ∧
      (∀ v : Value, (∀ items, v ≠ ofList items) →
        v.toList what = .error (.malformedForm (.improper what))) ∧
      (∀ items : List Value, (ofList items).toList what = .ok items) ∧
      (∀ (items : List Value) (tail : Value) (all : List Value),
        (chain items tail).toList what = .ok all ↔
          ∃ rest, tail.toList what = .ok rest ∧ all = items ++ rest) ∧
      (∀ (items : List Value) (tail : Value), items ≠ [] →
        (chain items tail).isPair = true ∧
          (chain items tail).elements =
            if tail.isPair = true then items ++ tail.elements else items) ∧
      ∀ (v : Value) (items : List Value), v.toList what = .ok items → v.elements = items := by
  refine ⟨fun _ _ => toList_eq_ok_iff, ?_, fun _ => toList_eq_ok_iff.mpr rfl,
    fun _ _ _ => toList_chain_eq_ok_iff, ?_, ?_⟩
  · intro v unmade
    rw [toList_eq_ite, if_neg]
    intro proper
    exact unmade v.elements (eq_ofList_of_ending proper)
  · intro items tail nonempty
    constructor
    · cases items with
      | nil => exact absurd rfl nonempty
      | cons item items => rfl
    · rw [elements_chain]
      split
      · rfl
      · rename_i atom
        rw [elements_of_atom (Bool.eq_false_iff.mpr atom), List.append_nil]
  · intro v items proper
    exact elements_of_toList? (toList?_eq_some_iff.mpr (toList_eq_ok_iff.mp proper))

theorem walk_drops_improper_ending :
    let items : List Value := [.bool true, ofList [.empty]]
    let improper : Value := .pair (.symbol "x") (.symbol "y")
    let proper : Value := ofList [.symbol "x"]
    items ≠ [] ∧ (∀ all, improper ≠ ofList all) ∧
      (chain items improper).elements = items ++ [.symbol "x"] ∧
      improper.toList "list" = .error (.malformedForm (.improper "list")) ∧
      (∀ all, (chain items improper).toList "list" ≠ .ok all) ∧
      (chain items proper).toList "list" = .ok (items ++ [.symbol "x"]) ∧
      (chain items proper).elements = items ++ [.symbol "x"] := by
  intro items improper proper
  obtain ⟨made, refused, back, joined, walked, agree⟩ := chains_and_lists_convert_back "list"
  have nonempty : items ≠ [] := by simp [items]
  have unmade (all : List Value) : improper ≠ ofList all := by
    intro same
    have proper' := (made improper all).mpr same
    cases proper'
  have list : (chain items proper).toList "list" = .ok (items ++ [.symbol "x"]) :=
    (joined items proper _).mpr ⟨_, back [.symbol "x"], rfl⟩
  refine ⟨nonempty, unmade, (walked items improper nonempty).2, refused improper unmade, ?_, list,
    agree _ _ list⟩
  intro all impossible
  obtain ⟨rest, proper', -⟩ := (joined items improper all).mp impossible
  cases proper'

end Schemelet.Value
