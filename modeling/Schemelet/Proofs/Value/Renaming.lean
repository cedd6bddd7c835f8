import Schemelet.Proofs.Value.Printer
import Schemelet.Proofs.Value.Procedure

/-! Values with other numbers for their frames. Taking values apart and building them goes on as
before, and neither values nor errors show the numbers when they are printed. -/

namespace Schemelet

variable {ρ : FrameId → FrameId}

namespace Value

def rename (ρ : FrameId → FrameId) : Value → Value
  | .pair a d => .pair (a.rename ρ) (d.rename ρ)
  | .closure params body frame => .closure params (body.rename ρ) (ρ frame)
  | v => v

theorem toList?_rename (v : Value) : (v.rename ρ).toList? = v.toList?.map (·.map (rename ρ)) := by
  induction v with
  | pair a d _ ih =>
    rw [rename, toList?, toList?, ih]
    cases d.toList? <;> rfl
  | _ => rfl

theorem elements_rename (v : Value) : (v.rename ρ).elements = v.elements.map (rename ρ) := by
  induction v with
  | pair a d _ ih => rw [rename, elements, elements, ih, List.map_cons]
  | _ => rfl

theorem rename_ofList (items : List Value) :
    (ofList items).rename ρ = ofList (items.map (rename ρ)) := by
  induction items with
  | nil => rfl
  | cons item items ih => exact congrArg (pair (item.rename ρ)) ih

theorem rename_closureBody (bodies : List Value) :
    (Form.closureBody bodies).rename ρ = Form.closureBody (bodies.map (rename ρ)) := by
  rcases bodies with _ | ⟨body, _ | ⟨next, bodies⟩⟩
  · rfl
  · rfl
  · exact congrArg (pair (.symbol "begin")) (rename_ofList (body :: next :: bodies))

@[simp] theorem isFalse_rename (v : Value) : (v.rename ρ).isFalse = v.isFalse := by
  cases v <;> rfl

@[simp] theorem isPair_rename (v : Value) : (v.rename ρ).isPair = v.isPair := by
  cases v <;> rfl

theorem rename_eq_empty_iff {v : Value} : v.rename ρ = .empty ↔ v = .empty := by
  cases v <;> simp [rename]

theorem ofOperator?_rename (v : Value) : Form.ofOperator? (v.rename ρ) = Form.ofOperator? v := by
  cases v <;> rfl

theorem rename_of_fixed {v : Value} (fixed : ∀ params body frame,
    .closure params body frame ∈ v.procedures → ρ frame = frame) : v.rename ρ = v := by
  induction v with
  | pair a d car cdr =>
    rw [rename, car, cdr]
    · intro params body frame inside
      exact fixed params body frame (List.mem_append_right _ inside)
    · intro params body frame inside
      exact fixed params body frame (List.mem_append_left _ inside)
  | closure params body frame ih =>
    rw [rename, ih, fixed params body frame List.mem_cons_self]
    intro params' body' frame' inside
    exact fixed params' body' frame' (List.mem_cons_of_mem _ inside)
  | _ => rfl

theorem written_rename (v : Value) :
    (v.rename ρ).written = v.written ∧ (v.rename ρ).writtenTail = v.writtenTail := by
  induction v with
  | pair a d car cdr => simp only [rename, written, writtenTail, car, cdr, and_self]
  | _ => exact ⟨rfl, rfl⟩

@[simp] theorem printed_rename (v : Value) : (v.rename ρ).printed = v.printed := by
  apply String.toList_inj.mp
  rw [toList_printed, toList_printed]
  exact (written_rename v).1

@[simp] theorem inspected_rename (v : Value) : (v.rename ρ).inspected = v.inspected := by
  cases v with
  | pair a d => exact printed_rename (pair a d)
  | closure params body frame => exact printed_rename (closure params body frame)
  | _ => rfl

end Value

def EvalError.rename (ρ : FrameId → FrameId) : EvalError → EvalError
  | .notAProcedure v => .notAProcedure (v.rename ρ)
  | .invalidName v => .invalidName (v.rename ρ)
  | .malformedForm (.parameterNotSymbol v) => .malformedForm (.parameterNotSymbol (v.rename ρ))
  | .numberExpected p v => .numberExpected p (v.rename ρ)
  | e => e

theorem EvalError.kind_rename (e : EvalError) : (e.rename ρ).kind = e.kind := by
  cases e with
  | malformedForm cause => cases cause <;> rfl
  | _ => rfl

theorem EvalError.message_rename (e : EvalError) : (e.rename ρ).message = e.message := by
  cases e with
  | notAProcedure v => exact congrArg ("Not a procedure: " ++ ·) v.printed_rename
  | invalidName v =>
    exact congrArg ("Cannot define " ++ · ++ " as a symbol") v.inspected_rename
  | numberExpected p v =>
    exact congrArg (p.name ++ " expects numbers, got " ++ ·) v.printed_rename
  | malformedForm cause =>
    cases cause with
    | parameterNotSymbol v =>
      exact congrArg ("lambda parameter must be a symbol, got " ++ ·) v.inspected_rename
    | _ => rfl
  | _ => rfl

def Halt.rename (ρ : FrameId → FrameId) : Halt → Halt
  | .error e => .error (e.rename ρ)
  | h => h

theorem Halt.kind_rename (h : Halt) : (h.rename ρ).kind = h.kind := by
  cases h with
  | error e => exact e.kind_rename
  | _ => rfl

theorem Halt.message_rename (h : Halt) : (h.rename ρ).message = h.message := by
  cases h with
  | error e => exact e.message_rename
  | _ => rfl

def Transition.rename (ρ : FrameId → FrameId) : Transition → Transition
  | .done v => .done (v.rename ρ)
  | .tail expr env => .tail (expr.rename ρ) (ρ env)

end Schemelet
