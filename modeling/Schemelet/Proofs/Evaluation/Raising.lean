import Schemelet.Proofs.Evaluation.Run

/-! Evaluation under a higher limit. It ends as under the lower one, unless the lower limit was
exceeded; and a limit that is as high as the number of steps is never exceeded. -/

namespace Schemelet

namespace EvalM

variable {α : Type} {s s₁ : Store} {a : α}

theorem Approximates.of_ok {cut : Halt → Prop} {x y : EvalM α} (approx : Approximates cut x y)
    (run : x s = .ok a s₁) : y s = .ok a s₁ := by
  rcases approx s with ⟨h, s', -, stopped⟩ | same
  · rw [run] at stopped
    cases stopped
  · rw [← same, run]

theorem Approximates.agree {x : Nat → EvalM α}
    (more : ∀ {m n : Nat}, m ≤ n → Approximates (· = .outOfSteps) (x m) (x n)) {m n : Nat}
    (run : x m s = .ok a s₁) (whole : ∀ s', x n s ≠ .error .outOfSteps s') :
    x n s = .ok a s₁ := by
  have most : x (max m n) s = .ok a s₁ := (more (Nat.le_max_left m n)).of_ok run
  rw [← most]
  symm
  apply (more (Nat.le_max_right m n)).eq_of_not_cut
  rintro h s' stopped rfl
  exact whole s' stopped

end EvalM

theorem oneLevelDown_raised {eval : Limit → Evaluator} {limit higher : Limit}
    (le : limit.Le higher)
    (sub : ∀ {lower lower' : Limit}, lower.Le lower' → ∀ env expr,
      EvalM.Approximates (· = .tooDeep) (eval lower env expr) (eval lower' env expr))
    (env : FrameId) (expr : Value) :
    EvalM.Approximates (· = .tooDeep) (oneLevelDown limit eval env expr)
      (oneLevelDown higher eval env expr) := by
  intro s
  unfold oneLevelDown
  cases down : limit.descend? with
  | none => exact .inl ⟨.tooDeep, s, rfl, rfl⟩
  | some lower =>
    obtain ⟨lower', downHigher, below⟩ := le.descend down
    rw [downHigher]
    exact sub below env expr s

theorem evaluate_raised (steps : Nat) {limit higher : Limit} (le : limit.Le higher) (env : FrameId)
    (expr : Value) :
    EvalM.Approximates (· = .tooDeep) (evaluate steps limit env expr)
      (evaluate steps higher env expr) := by
  induction steps generalizing limit higher env expr with
  | zero => exact .refl _
  | succ steps ih =>
    rw [evaluate, evaluate]
    refine .bind (step_approximates (oneLevelDown_raised le ih) env expr) ?_
    intro transition
    cases transition with
    | done v => exact .refl _
    | tail expr env => exact ih le env expr

theorem parts_raised (steps : Nat) (limit : Limit) (env : FrameId) (expr : Value) :
    EvalM.Approximates (· = .tooDeep) (oneLevelDown limit (evaluate steps) env expr)
      (evaluate steps .unlimited env expr) :=
  oneLevelDown_raised (.unlimited limit) (evaluate_raised steps) env expr

theorem evaluate_of_steps_le {steps levels : Nat} (le : steps ≤ levels) :
    evaluate steps (.atMost levels) = evaluate steps .unlimited := by
  induction steps generalizing levels with
  | zero => rfl
  | succ steps ih =>
    obtain ⟨lower, rfl⟩ : ∃ lower, levels = lower + 1 := ⟨levels - 1, by omega⟩
    have parts : oneLevelDown (.atMost (lower + 1)) (evaluate steps) =
        oneLevelDown .unlimited (evaluate steps) := by
      funext env expr
      exact congrFun (congrFun (ih (by omega)) env) expr
    funext env expr
    rw [evaluate, evaluate, parts]
    congr 1
    funext transition
    cases transition with
    | done v => rfl
    | tail expr env => exact congrFun (congrFun (ih (by omega)) env) expr

end Schemelet
