import Schemelet.Proofs.Evaluation.Demand

/-! The procedures in a value, at any depth. What evaluation takes apart and puts together holds no
others. -/

namespace Schemelet

namespace Value

def procedures : Value → List Value
  | .pair a d => a.procedures ++ d.procedures
  | .primitive p => [.primitive p]
  | .closure params body frame => .closure params body frame :: body.procedures
  | _ => []

theorem mem_procedures_of_mem_elements {p v w : Value} (member : v ∈ w.elements)
    (inside : p ∈ v.procedures) : p ∈ w.procedures := by
  induction w with
  | pair a d _ ih =>
    rcases List.mem_cons.mp member with rfl | later
    · exact List.mem_append_left _ inside
    · exact List.mem_append_right _ (ih later)
  | _ => cases member

theorem mem_procedures_of_toList? {p v w : Value} {items : List Value}
    (shape : w.toList? = some items) (member : v ∈ items) (inside : p ∈ v.procedures) :
    p ∈ w.procedures := by
  rw [← elements_of_toList? shape] at member
  exact mem_procedures_of_mem_elements member inside

theorem mem_procedures_ofList {p : Value} {items : List Value}
    (inside : p ∈ (ofList items).procedures) : ∃ v ∈ items, p ∈ v.procedures := by
  induction items with
  | nil => cases inside
  | cons item items ih =>
    change p ∈ item.procedures ++ (ofList items).procedures at inside
    rcases List.mem_append.mp inside with first | rest
    · exact ⟨item, List.mem_cons_self, first⟩
    · obtain ⟨v, member, found⟩ := ih rest
      exact ⟨v, List.mem_cons_of_mem _ member, found⟩

theorem mem_procedures_closureBody {p : Value} {bodies : List Value}
    (inside : p ∈ (Form.closureBody bodies).procedures) : ∃ v ∈ bodies, p ∈ v.procedures := by
  unfold Form.closureBody at inside
  split at inside
  · exact ⟨_, List.mem_cons_self, inside⟩
  · exact mem_procedures_ofList inside

end Value

end Schemelet
