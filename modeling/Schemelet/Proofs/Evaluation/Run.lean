import Schemelet.Proofs.Evaluation.Transition

/-! Runs of the evaluator, described without steps and limits. A run may be cut short anywhere, for
one of the given causes; every evaluation is a run, and every run that is not cut short is the
evaluation with enough steps. -/

namespace Schemelet

mutual
inductive Runs (cut : Halt → Prop) :
    FrameId → Value → Store → EStateM.Result Halt Store Value → Prop where
  | cut {env : FrameId} {expr : Value} {s : Store} {h : Halt} (cause : cut h) :
      Runs cut env expr s (.error h s)
  | demandFails {env : FrameId} {expr : Value} {s s' : Store} {h : Halt}
      (first : RunsAll cut env (demands expr) s (.error h s')) : Runs cut env expr s (.error h s')
  | fails {env : FrameId} {expr : Value} {s s₁ s' : Store} {vs : List Value} {h : Halt}
      (first : RunsAll cut env (demands expr) s (.ok vs s₁))
      (rest : finish env vs expr s₁ = .error h s') : Runs cut env expr s (.error h s')
  | done {env : FrameId} {expr : Value} {s s₁ s' : Store} {vs : List Value} {v : Value}
      (first : RunsAll cut env (demands expr) s (.ok vs s₁))
      (rest : finish env vs expr s₁ = .ok (.done v) s') : Runs cut env expr s (.ok v s')
  | tail {env env' : FrameId} {expr expr' : Value} {s s₁ s₂ : Store} {vs : List Value}
      {r : EStateM.Result Halt Store Value}
      (first : RunsAll cut env (demands expr) s (.ok vs s₁))
      (rest : finish env vs expr s₁ = .ok (.tail expr' env') s₂)
      (next : Runs cut env' expr' s₂ r) : Runs cut env expr s r

inductive RunsAll (cut : Halt → Prop) :
    FrameId → List Value → Store → EStateM.Result Halt Store (List Value) → Prop where
  | nil {env : FrameId} {s : Store} : RunsAll cut env [] s (.ok [] s)
  | cons {env : FrameId} {expr : Value} {exprs : List Value} {s s₁ s' : Store} {v : Value}
      {vs : List Value} (head : Runs cut env expr s (.ok v s₁))
      (tail : RunsAll cut env exprs s₁ (.ok vs s')) :
      RunsAll cut env (expr :: exprs) s (.ok (v :: vs) s')
  | headFails {env : FrameId} {expr : Value} {exprs : List Value} {s s' : Store} {h : Halt}
      (head : Runs cut env expr s (.error h s')) : RunsAll cut env (expr :: exprs) s (.error h s')
  | tailFails {env : FrameId} {expr : Value} {exprs : List Value} {s s₁ s' : Store} {v : Value}
      {h : Halt} (head : Runs cut env expr s (.ok v s₁))
      (tail : RunsAll cut env exprs s₁ (.error h s')) :
      RunsAll cut env (expr :: exprs) s (.error h s')
end

variable {cut : Halt → Prop}

def Continues (cut : Halt → Prop) (r : EStateM.Result Halt Store Value) :
    EStateM.Result Halt Store Transition → Prop
  | .error h s => r = .error h s
  | .ok (.done v) s => r = .ok v s
  | .ok (.tail expr env) s => Runs cut env expr s r

theorem Runs.finishes {env : FrameId} {expr : Value} {s s₁ : Store} {vs : List Value}
    {r : EStateM.Result Halt Store Value} (first : RunsAll cut env (demands expr) s (.ok vs s₁))
    (rest : Continues cut r (finish env vs expr s₁)) : Runs cut env expr s r := by
  cases finished : finish env vs expr s₁ with
  | error h s' =>
    rw [finished] at rest
    cases rest
    exact .fails first finished
  | ok transition s' =>
    rw [finished] at rest
    cases transition with
    | done v =>
      cases rest
      exact .done first finished
    | tail expr' env' => exact .tail first finished rest

theorem evaluateOperands_runs {eval : Evaluator}
    (sub : ∀ env expr s, Runs cut env expr s (eval env expr s)) (env : FrameId)
    (exprs : List Value) (s : Store) :
    RunsAll cut env exprs s (evaluateOperands eval env exprs s) := by
  induction exprs generalizing s with
  | nil => exact .nil
  | cons expr exprs ih =>
    have head := sub env expr s
    rw [evaluateOperands, bind_apply]
    cases first : eval env expr s with
    | error h s₁ =>
      rw [first] at head
      exact .headFails head
    | ok v s₁ =>
      rw [first] at head
      have tail := ih s₁
      simp only [bind_apply]
      cases rest : evaluateOperands eval env exprs s₁ with
      | error h s' =>
        rw [rest] at tail
        exact .tailFails head tail
      | ok vs s' =>
        rw [rest] at tail
        exact .cons head tail

def Limit.Covers (limit : Limit) (cut : Halt → Prop) : Prop :=
  cut .outOfSteps ∧ (limit = .unlimited ∨ cut .tooDeep)

theorem oneLevelDown_runs {eval : Limit → Evaluator} {limit : Limit} (covers : limit.Covers cut)
    (sub : ∀ limit : Limit, limit.Covers cut → ∀ env expr s,
      Runs cut env expr s (eval limit env expr s))
    (env : FrameId) (expr : Value) (s : Store) :
    Runs cut env expr s (oneLevelDown limit eval env expr s) := by
  cases limit with
  | unlimited => exact sub .unlimited covers env expr s
  | atMost levels =>
    have deep : cut .tooDeep := covers.2.resolve_left (by simp)
    cases levels with
    | zero => exact .cut deep
    | succ levels => exact sub (.atMost levels) ⟨covers.1, .inr deep⟩ env expr s

theorem evaluate_runs (steps : Nat) {limit : Limit} (covers : limit.Covers cut) (env : FrameId)
    (expr : Value) (s : Store) : Runs cut env expr s (evaluate steps limit env expr s) := by
  induction steps generalizing limit env expr s with
  | zero => exact .cut covers.1
  | succ steps ih =>
    have sub := oneLevelDown_runs covers fun _ lower => ih lower
    have first := evaluateOperands_runs sub env (demands expr) s
    rw [evaluate, step_eq, bind_assoc, bind_apply]
    cases demanded :
        evaluateOperands (oneLevelDown limit (evaluate steps)) env (demands expr) s with
    | error h s₁ =>
      rw [demanded] at first
      exact .demandFails first
    | ok vs s₁ =>
      rw [demanded] at first
      simp only [bind_apply]
      cases rest : finish env vs expr s₁ with
      | error h s₂ => exact .fails first rest
      | ok transition s₂ =>
        cases transition with
        | done v => exact .done first rest
        | tail expr' env' => exact .tail first rest (ih covers env' expr' s₂)

mutual
theorem error_of_runs {env : FrameId} {expr : Value} {s : Store}
    {r : EStateM.Result Halt Store Value} :
    Runs cut env expr s r → ∀ h s', r = .error h s' → cut h ∨ ∃ e, h = .error e
  | .cut cause, h, s', same => by
    cases same
    exact .inl cause
  | .demandFails first, h, s', same => by
    have demanded := error_of_runsAll first
    cases same
    exact demanded _ _ rfl
  | .fails first rest, h, s', same => by
    cases same
    exact .inr (error_of_finish rest)
  | .tail first rest next, h, s', same => error_of_runs next h s' same

theorem error_of_runsAll {env : FrameId} {exprs : List Value} {s : Store}
    {r : EStateM.Result Halt Store (List Value)} :
    RunsAll cut env exprs s r → ∀ h s', r = .error h s' → cut h ∨ ∃ e, h = .error e
  | .headFails head, h, s', same => by
    have first := error_of_runs head
    cases same
    exact first _ _ rfl
  | .tailFails head tail, h, s', same => by
    have rest := error_of_runsAll tail
    cases same
    exact rest _ _ rfl
end

theorem evaluateOperands_approximates {eval eval' : Evaluator}
    (sub : ∀ env expr, EvalM.Approximates cut (eval env expr) (eval' env expr)) (env : FrameId)
    (exprs : List Value) :
    EvalM.Approximates cut (evaluateOperands eval env exprs)
      (evaluateOperands eval' env exprs) := by
  induction exprs with
  | nil => exact .refl _
  | cons expr exprs ih =>
    refine .bind (sub env expr) fun v => ?_
    exact .bind ih fun vs => .refl _

theorem step_approximates {eval eval' : Evaluator}
    (sub : ∀ env expr, EvalM.Approximates cut (eval env expr) (eval' env expr)) (env : FrameId)
    (expr : Value) : EvalM.Approximates cut (step eval env expr) (step eval' env expr) := by
  rw [step_eq, step_eq]
  exact .bind (evaluateOperands_approximates sub env _) fun vs => .refl _

theorem evaluate_succ (steps : Nat) (limit : Limit) (env : FrameId) (expr : Value) :
    EvalM.Approximates (· = .outOfSteps) (evaluate steps limit env expr)
      (evaluate (steps + 1) limit env expr) := by
  induction steps generalizing limit env expr with
  | zero => exact fun s => .inl ⟨.outOfSteps, s, rfl, rfl⟩
  | succ steps ih =>
    rw [evaluate, evaluate]
    refine .bind (step_approximates (fun env expr => ?_) env expr) fun transition => ?_
    · unfold oneLevelDown
      cases limit.descend? with
      | some lower => exact ih lower env expr
      | none => exact .refl _
    · cases transition with
      | done v => exact .refl _
      | tail expr env => exact ih limit env expr

theorem evaluate_le {steps more : Nat} (le : steps ≤ more) (limit : Limit) (env : FrameId)
    (expr : Value) : EvalM.Approximates (· = .outOfSteps) (evaluate steps limit env expr)
      (evaluate more limit env expr) := by
  induction le with
  | refl => exact .refl _
  | step _ ih => exact ih.trans (evaluate_succ _ limit env expr)

theorem evaluateOperands_le {steps more : Nat} (le : steps ≤ more) (limit : Limit) (env : FrameId)
    (exprs : List Value) :
    EvalM.Approximates (· = .outOfSteps) (evaluateOperands (evaluate steps limit) env exprs)
      (evaluateOperands (evaluate more limit) env exprs) :=
  evaluateOperands_approximates (evaluate_le le limit) env exprs

def Ended {α : Type} (r : EStateM.Result Halt Store α) : Prop :=
  ∀ h s, r = .error h s → ∃ e, h = .error e

theorem ended_ok {α : Type} (a : α) (s : Store) : Ended (.ok a s) := by
  intro h s' impossible
  cases impossible

theorem ended_error_iff {α : Type} {h : Halt} {s : Store} :
    Ended (.error h s : EStateM.Result Halt Store α) ↔ ∃ e, h = .error e := by
  constructor
  · intro ended
    exact ended h s rfl
  · rintro known h' s' same
    cases same
    exact known

theorem Ended.ofError {α β : Type} {h : Halt} {s : Store}
    (ended : Ended (.error h s : EStateM.Result Halt Store α)) :
    Ended (.error h s : EStateM.Result Halt Store β) :=
  ended_error_iff.mpr (ended_error_iff.mp ended)

theorem EvalM.Approximates.of_ended {α : Type} {x y : EvalM α} {s : Store}
    {r : EStateM.Result Halt Store α} (approx : Approximates (· = .outOfSteps) x y)
    (run : x s = r) (ended : Ended r) : y s = r := by
  rw [← run]
  apply approx.eq_of_not_cut
  rintro h s' stopped rfl
  obtain ⟨e, impossible⟩ := ended _ s' (run.symm.trans stopped)
  cases impossible

theorem oneLevelDown_unlimited (eval : Limit → Evaluator) :
    oneLevelDown .unlimited eval = eval .unlimited := rfl

theorem evaluate_of_demands {steps : Nat} {env : FrameId} {expr : Value} {vs : List Value}
    {s s₁ : Store}
    (first : evaluateOperands (evaluate steps .unlimited) env (demands expr) s = .ok vs s₁) :
    evaluate (steps + 1) .unlimited env expr s =
      (finish env vs expr >>= fun
        | .done v => pure v
        | .tail expr env => evaluate steps .unlimited env expr : EvalM Value) s₁ := by
  rw [evaluate, step_eq, oneLevelDown_unlimited, bind_assoc]
  exact bind_of_ok first _

mutual
theorem evaluate_of_runs {env : FrameId} {expr : Value} {s : Store}
    {r : EStateM.Result Halt Store Value} :
    Runs (· = .outOfSteps) env expr s r → Ended r →
      ∃ steps, evaluate steps .unlimited env expr s = r
  | .cut cause, ended => by
    obtain ⟨e, impossible⟩ := ended_error_iff.mp ended
    cases cause.symm.trans impossible
  | .demandFails first, ended => by
    obtain ⟨steps, demanded⟩ := evaluateOperands_of_runs first ended.ofError
    refine ⟨steps + 1, ?_⟩
    rw [evaluate, step_eq, oneLevelDown_unlimited, bind_assoc, bind_of_error demanded]
  | .fails first rest, _ => by
    obtain ⟨steps, demanded⟩ := evaluateOperands_of_runs first (ended_ok _ _)
    refine ⟨steps + 1, ?_⟩
    rw [evaluate_of_demands demanded, bind_of_error rest]
  | .done first rest, _ => by
    obtain ⟨steps, demanded⟩ := evaluateOperands_of_runs first (ended_ok _ _)
    refine ⟨steps + 1, ?_⟩
    rw [evaluate_of_demands demanded, bind_of_ok rest]
    rfl
  | .tail first rest next, ended => by
    obtain ⟨m, demanded⟩ := evaluateOperands_of_runs first (ended_ok _ _)
    obtain ⟨n, continued⟩ := evaluate_of_runs next ended
    have demanded :=
      (evaluateOperands_le (Nat.le_max_left m n) _ _ _).of_ended demanded (ended_ok _ _)
    refine ⟨max m n + 1, ?_⟩
    rw [evaluate_of_demands demanded, bind_of_ok rest]
    exact (evaluate_le (Nat.le_max_right m n) _ _ _).of_ended continued ended

theorem evaluateOperands_of_runs {env : FrameId} {exprs : List Value} {s : Store}
    {r : EStateM.Result Halt Store (List Value)} :
    RunsAll (· = .outOfSteps) env exprs s r → Ended r →
      ∃ steps, evaluateOperands (evaluate steps .unlimited) env exprs s = r
  | .nil, _ => ⟨0, rfl⟩
  | .cons head tail, _ => by
    obtain ⟨m, first⟩ := evaluate_of_runs head (ended_ok _ _)
    obtain ⟨n, rest⟩ := evaluateOperands_of_runs tail (ended_ok _ _)
    refine ⟨max m n, ?_⟩
    have first := (evaluate_le (Nat.le_max_left m n) _ _ _).of_ended first (ended_ok _ _)
    have rest := (evaluateOperands_le (Nat.le_max_right m n) _ _ _).of_ended rest (ended_ok _ _)
    rw [evaluateOperands, bind_of_ok first, bind_of_ok rest]
    rfl
  | .headFails head, ended => by
    obtain ⟨steps, first⟩ := evaluate_of_runs head ended.ofError
    exact ⟨steps, by rw [evaluateOperands, bind_of_error first]⟩
  | .tailFails head tail, ended => by
    obtain ⟨m, first⟩ := evaluate_of_runs head (ended_ok _ _)
    obtain ⟨n, rest⟩ := evaluateOperands_of_runs tail ended
    refine ⟨max m n, ?_⟩
    have first := (evaluate_le (Nat.le_max_left m n) _ _ _).of_ended first (ended_ok _ _)
    have rest := (evaluateOperands_le (Nat.le_max_right m n) _ _ _).of_ended rest ended
    rw [evaluateOperands, bind_of_ok first, bind_of_error rest]
end

end Schemelet
