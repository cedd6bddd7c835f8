import Schemelet.Proofs.Evaluation.Raising

/-! The depth of a run. The expressions evaluated in a run are reached from its own one by tail
steps, which stay on its level, and by the parts that a step demands, which lie one level down. The
deepest level that is reached is the limit that the evaluation needs, however many tail steps there
are. -/

namespace Schemelet

structure Configuration where
  env : FrameId
  expr : Value
  store : Store

namespace Configuration

def run (c : Configuration) (steps : Nat) (limit : Limit) : EStateM.Result Halt Store Value :=
  evaluate steps limit c.env c.expr c.store

def HandsOn (c c' : Configuration) : Prop :=
  ∃ steps, step (evaluate steps .unlimited) c.env c.expr c.store =
    .ok (.tail c'.expr c'.env) c'.store

def Demands (c c' : Configuration) : Prop :=
  c'.env = c.env ∧ ∃ earlier later vs steps, demands c.expr = earlier ++ c'.expr :: later ∧
    evaluateOperands (evaluate steps .unlimited) c.env earlier c.store = .ok vs c'.store

/-- `c.Reaches depth u`: the run of `c` comes to `u` so many levels down. -/
inductive Reaches : Configuration → Nat → Configuration → Prop where
  | here (c : Configuration) : Reaches c 0 c
  | tail {c c' u : Configuration} {depth : Nat} (next : c.HandsOn c') (rest : Reaches c' depth u) :
      Reaches c depth u
  | part {c c' u : Configuration} {depth : Nat} (demanded : c.Demands c')
      (rest : Reaches c' depth u) : Reaches c (depth + 1) u

structure GreatestNesting (c : Configuration) (nesting : Nat) : Prop where
  reached : ∃ u, c.Reaches nesting u
  greatest : ∀ depth u, c.Reaches depth u → depth ≤ nesting

def EndsUnder (c : Configuration) (limit : Limit) (r : EStateM.Result Halt Store Value) : Prop :=
  ∃ enough, ∀ steps, enough ≤ steps → c.run steps limit = r

def TooDeepUnder (c : Configuration) (limit : Limit) : Prop :=
  ∃ s, c.EndsUnder limit (.error .tooDeep s)

end Configuration

theorem evaluateOperands_append (eval : Evaluator) (env : FrameId) (exprs more : List Value) :
    evaluateOperands eval env (exprs ++ more) = (do
      let vs ← evaluateOperands eval env exprs
      let ws ← evaluateOperands eval env more
      pure (vs ++ ws)) := by
  induction exprs with
  | nil => simp [evaluateOperands]
  | cons expr exprs ih => simp [evaluateOperands, ih]

section

variable {eval : Evaluator} {env : FrameId} {expr part : Value} {earlier later : List Value}
  {s s₁ s' : Store} {vs : List Value} {h : Halt}

theorem step_of_earlier_error (parts : demands expr = earlier ++ part :: later)
    (stops : evaluateOperands eval env earlier s = .error h s') :
    step eval env expr s = .error h s' := by
  rw [step_eq, parts, evaluateOperands_append, bind_assoc]
  exact bind_of_error stops _

theorem step_of_part_error (parts : demands expr = earlier ++ part :: later)
    (first : evaluateOperands eval env earlier s = .ok vs s₁)
    (stops : eval env part s₁ = .error h s') : step eval env expr s = .error h s' := by
  rw [step_eq, parts, evaluateOperands_append, bind_assoc, bind_of_ok first,
    evaluateOperands, bind_assoc, bind_assoc]
  exact bind_of_error stops _

theorem part_of_evaluateOperands_error {exprs : List Value}
    (stops : evaluateOperands eval env exprs s = .error h s') :
    ∃ earlier part later vs s₁, exprs = earlier ++ part :: later ∧
      evaluateOperands eval env earlier s = .ok vs s₁ ∧ eval env part s₁ = .error h s' := by
  induction exprs generalizing s with
  | nil => cases stops
  | cons expr exprs ih =>
    cases first : eval env expr s with
    | error h₁ s₁ =>
      rw [evaluateOperands, bind_of_error first] at stops
      cases stops
      exact ⟨[], expr, exprs, [], s, rfl, rfl, first⟩
    | ok v s₁ =>
      rw [evaluateOperands, bind_of_ok first] at stops
      cases rest : evaluateOperands eval env exprs s₁ with
      | ok vs s₂ =>
        rw [bind_of_ok rest] at stops
        cases stops
      | error h₁ s₂ =>
        rw [bind_of_error rest] at stops
        cases stops
        obtain ⟨earlier, part, later, vs, s₃, rfl, before, stopped⟩ := ih rest
        refine ⟨expr :: earlier, part, later, v :: vs, s₃, rfl, ?_, stopped⟩
        rw [evaluateOperands, bind_of_ok first, bind_of_ok before]
        rfl

theorem part_of_step_cut (cut : ∀ e, h ≠ .error e) (stops : step eval env expr s = .error h s') :
    ∃ earlier part later vs s₁, demands expr = earlier ++ part :: later ∧
      evaluateOperands eval env earlier s = .ok vs s₁ ∧ eval env part s₁ = .error h s' := by
  rw [step_eq] at stops
  cases first : evaluateOperands eval env (demands expr) s with
  | error h₁ s₁ =>
    rw [bind_of_error first] at stops
    cases stops
    exact part_of_evaluateOperands_error first
  | ok vs s₁ =>
    rw [bind_of_ok first] at stops
    obtain ⟨e, known⟩ := error_of_finish stops
    exact absurd known (cut e)

end

namespace Configuration

variable {c u : Configuration} {steps levels depth : Nat} {limit : Limit}
  {r : EStateM.Result Halt Store Value}

theorem run_of_error {h : Halt} {s : Store}
    (stopped : step (oneLevelDown limit (evaluate steps)) c.env c.expr c.store = .error h s) :
    c.run (steps + 1) limit = .error h s := by
  rw [run, evaluate]
  exact bind_of_error stopped _

theorem run_of_tail
    (stepped : step (oneLevelDown limit (evaluate steps)) c.env c.expr c.store =
      .ok (.tail u.expr u.env) u.store) : c.run (steps + 1) limit = u.run steps limit := by
  rw [run, evaluate]
  exact bind_of_ok stepped _

theorem deeper_of_tooDeep {s : Store} (deep : c.run steps (.atMost levels) = .error .tooDeep s) :
    ∃ depth u, levels < depth ∧ c.Reaches depth u := by
  induction steps generalizing c levels s with
  | zero => cases deep
  | succ steps ih =>
    cases stepped : step (oneLevelDown (.atMost levels) (evaluate steps)) c.env c.expr c.store with
    | error h s₁ =>
      rw [run_of_error stepped] at deep
      cases deep
      obtain ⟨earlier, part, later, vs, s₂, parts, before, stopped⟩ :=
        part_of_step_cut (by simp) stepped
      have above :=
        evaluateOperands_approximates (parts_raised steps (.atMost levels)) c.env earlier
      have demanded : c.Demands ⟨c.env, part, s₂⟩ :=
        ⟨rfl, earlier, later, vs, steps, parts, above.of_ok before⟩
      cases levels with
      | zero => exact ⟨1, _, Nat.zero_lt_one, .part demanded (.here _)⟩
      | succ levels =>
        obtain ⟨depth, u, below, reached⟩ := ih (c := ⟨c.env, part, s₂⟩) stopped
        exact ⟨depth + 1, u, Nat.succ_lt_succ below, .part demanded reached⟩
    | ok transition s₁ =>
      cases transition with
      | done v =>
        rw [run, evaluate, bind_of_ok stepped] at deep
        cases deep
      | tail expr env =>
        have above := step_approximates (parts_raised steps (.atMost levels)) c.env c.expr
        have next : c.HandsOn ⟨env, expr, s₁⟩ := ⟨steps, above.of_ok stepped⟩
        rw [run_of_tail (u := ⟨env, expr, s₁⟩) stepped] at deep
        obtain ⟨depth, u, below, reached⟩ := ih deep
        exact ⟨depth, u, below, .tail next reached⟩

/-- Neither a tail step nor a demanded part hides a level that is too deep. -/
theorem tooDeep_of_reaches (reached : c.Reaches depth u) (below : levels < depth)
    (whole : ∀ s, c.run steps .unlimited ≠ .error .outOfSteps s) :
    ∃ s, c.run steps (.atMost levels) = .error .tooDeep s := by
  -- Along the path: with as many steps, the evaluation under the limit does what the one without it
  -- does, until it is stopped for want of depth.
  induction reached generalizing steps levels with
  | here c => omega
  | @tail c c' u depth next rest ih =>
    cases steps with
    | zero => exact absurd rfl (whole c.store)
    | succ steps =>
      obtain ⟨enough, stepped⟩ := next
      have unlimited : step (evaluate steps .unlimited) c.env c.expr c.store =
          .ok (.tail c'.expr c'.env) c'.store := by
        refine EvalM.Approximates.agree
          (fun le => step_approximates (evaluate_le le .unlimited) c.env c.expr) stepped ?_
        intro s stopped
        exact whole s (run_of_error stopped)
      have wholeNext : ∀ s, c'.run steps .unlimited ≠ .error .outOfSteps s := by
        intro s stopped
        have same : c.run (steps + 1) .unlimited = c'.run steps .unlimited := run_of_tail unlimited
        exact whole s (same.trans stopped)
      obtain ⟨s, deep⟩ := ih below wholeNext
      rcases step_approximates (parts_raised steps (.atMost levels)) c.env c.expr c.store with
        ⟨h, s₁, rfl, stopped⟩ | same
      · exact ⟨s₁, run_of_error stopped⟩
      · refine ⟨s, ?_⟩
        rw [run_of_tail (same.trans unlimited)]
        exact deep
  | @part c c' u depth demanded rest ih =>
    cases steps with
    | zero => exact absurd rfl (whole c.store)
    | succ steps =>
      obtain ⟨env, part, s₁⟩ := c'
      obtain ⟨rfl, earlier, later, vs, enough, parts, before⟩ := demanded
      have unlimited : evaluateOperands (evaluate steps .unlimited) c.env earlier c.store =
          .ok vs s₁ := by
        refine EvalM.Approximates.agree
          (fun le => evaluateOperands_le le .unlimited c.env earlier) before ?_
        intro s stopped
        exact whole s (run_of_error (step_of_earlier_error parts stopped))
      rcases evaluateOperands_approximates (parts_raised steps (.atMost levels)) c.env earlier
        c.store with ⟨h, s, rfl, stopped⟩ | same
      · exact ⟨s, run_of_error (step_of_earlier_error parts stopped)⟩
      · have limited := same.trans unlimited
        cases levels with
        | zero => exact ⟨s₁, run_of_error (step_of_part_error parts limited rfl)⟩
        | succ levels =>
          have wholePart : ∀ s, (Configuration.mk c.env part s₁).run steps .unlimited ≠
              .error .outOfSteps s := by
            intro s stopped
            exact whole s (run_of_error (step_of_part_error parts unlimited stopped))
          obtain ⟨s, deep⟩ := ih (Nat.lt_of_succ_lt_succ below) wholePart
          exact ⟨s, run_of_error (step_of_part_error parts limited deep)⟩

theorem endsUnder_of_run (run : c.run steps limit = r)
    (whole : ∀ s, r ≠ .error .outOfSteps s) : c.EndsUnder limit r := by
  refine ⟨steps, ?_⟩
  intro more le
  rw [← run]
  apply (evaluate_le le limit c.env c.expr).eq_of_not_cut
  rintro h s stopped rfl
  exact whole s (run.symm.trans stopped)

theorem EndsUnder.unique {r' : EStateM.Result Halt Store Value} (first : c.EndsUnder limit r)
    (second : c.EndsUnder limit r') : r = r' := by
  obtain ⟨m, run⟩ := first
  obtain ⟨n, other⟩ := second
  rw [← run (max m n) (Nat.le_max_left m n), other (max m n) (Nat.le_max_right m n)]

theorem tooDeepUnder_of_run {s : Store} (deep : c.run steps limit = .error .tooDeep s) :
    c.TooDeepUnder limit := by
  refine ⟨s, endsUnder_of_run deep ?_⟩
  intro s' impossible
  cases impossible

theorem ne_of_ended (ended : Ended r) {h : Halt} (cut : ∀ e, h ≠ .error e) (s : Store) :
    r ≠ .error h s := by
  intro same
  obtain ⟨e, known⟩ := ended h s same
  exact cut e known

theorem tooDeep_of_deeper (result : c.run steps .unlimited = r) (ended : Ended r)
    (reached : c.Reaches depth u) (below : levels < depth) :
    ∃ s, c.run steps (.atMost levels) = .error .tooDeep s := by
  apply tooDeep_of_reaches reached below
  rw [result]
  exact ne_of_ended ended (by simp)

section

-- What is assumed of the evaluation: without a limit it ends, in a value or an error.
variable (ends : c.EndsUnder .unlimited r) (ended : Ended r)

include ends ended

theorem tooDeepUnder_iff :
    c.TooDeepUnder (.atMost levels) ↔ ∃ depth u, levels < depth ∧ c.Reaches depth u := by
  constructor
  · rintro ⟨s, enough, deep⟩
    exact deeper_of_tooDeep (deep enough (Nat.le_refl enough))
  · rintro ⟨depth, u, below, reached⟩
    obtain ⟨enough, result⟩ := ends
    have unlimited := result enough (Nat.le_refl enough)
    obtain ⟨s, deep⟩ := tooDeep_of_deeper unlimited ended reached below
    exact tooDeepUnder_of_run deep

theorem endsUnder_of_shallow (shallow : ∀ depth u, c.Reaches depth u → depth ≤ levels) :
    c.EndsUnder (.atMost levels) r := by
  obtain ⟨enough, result⟩ := ends
  have unlimited := result enough (Nat.le_refl enough)
  rcases evaluate_raised enough (.unlimited (.atMost levels)) c.env c.expr c.store with
    ⟨h, s, rfl, deep⟩ | same
  · obtain ⟨depth, u, below, reached⟩ := deeper_of_tooDeep deep
    have := shallow depth u reached
    omega
  · exact endsUnder_of_run (same.trans unlimited) (ne_of_ended ended (by simp))

theorem depth_bounded : ∃ bound, ∀ depth u, c.Reaches depth u → depth ≤ bound := by
  obtain ⟨enough, result⟩ := ends
  have unlimited := result enough (Nat.le_refl enough)
  refine ⟨enough, ?_⟩
  intro depth u reached
  apply Nat.le_of_not_lt
  intro below
  -- A limit as high as the number of steps would be exceeded.
  obtain ⟨s, deep⟩ := tooDeep_of_deeper unlimited ended reached below
  rw [run, evaluate_of_steps_le (Nat.le_refl enough)] at deep
  exact ne_of_ended ended (by simp) s (unlimited.symm.trans deep)

end

theorem exists_greatest_of_bounded {bound : Nat}
    (bounded : ∀ depth u, c.Reaches depth u → depth ≤ bound) :
    ∃ nesting, c.GreatestNesting nesting := by
  induction bound with
  | zero => exact ⟨0, ⟨c, .here c⟩, bounded⟩
  | succ bound ih =>
    by_cases reached : ∃ u, c.Reaches (bound + 1) u
    · exact ⟨bound + 1, reached, bounded⟩
    · apply ih
      intro depth u other
      have le := bounded depth u other
      have ne : depth ≠ bound + 1 := by
        rintro rfl
        exact reached ⟨u, other⟩
      omega

theorem GreatestNesting.deeper_iff {nesting : Nat} (most : c.GreatestNesting nesting) :
    (∃ depth u, levels < depth ∧ c.Reaches depth u) ↔ levels < nesting := by
  constructor
  · rintro ⟨depth, u, below, reached⟩
    exact Nat.lt_of_lt_of_le below (most.greatest depth u reached)
  · intro below
    obtain ⟨u, reached⟩ := most.reached
    exact ⟨nesting, u, below, reached⟩

end Configuration

/-- An evaluation that ends without a limit is too deep for one exactly if the deepest level of its
run exceeds it, where every level takes the same amount, and otherwise it ends in the same way. Tail
steps take nothing: with the same greatest nesting the same limit is needed. -/
theorem depth_needed_is_greatest_nesting {c : Configuration} {r : EStateM.Result Halt Store Value}
    (ends : c.EndsUnder .unlimited r) (ended : Ended r) :
    ∃ nesting, c.GreatestNesting nesting ∧
      (∀ units amount : Nat, 0 < amount →
        (c.TooDeepUnder (.atMost (units / amount)) ↔ units < nesting * amount) ∧
          (nesting * amount ≤ units → c.EndsUnder (.atMost (units / amount)) r)) ∧
      ∀ (c' : Configuration) (r' : EStateM.Result Halt Store Value),
        c'.EndsUnder .unlimited r' → Ended r' → c'.GreatestNesting nesting →
          ∀ levels, c'.TooDeepUnder (.atMost levels) ↔ c.TooDeepUnder (.atMost levels) := by
  obtain ⟨bound, bounded⟩ := Configuration.depth_bounded ends ended
  obtain ⟨nesting, most⟩ := Configuration.exists_greatest_of_bounded bounded
  refine ⟨nesting, most, ?_, ?_⟩
  · intro units amount positive
    rw [Configuration.tooDeepUnder_iff ends ended, most.deeper_iff, Nat.div_lt_iff_lt_mul positive]
    refine ⟨Iff.rfl, ?_⟩
    intro enough
    apply Configuration.endsUnder_of_shallow ends ended
    intro depth u reached
    rw [Nat.le_div_iff_mul_le positive]
    exact Nat.le_trans (Nat.mul_le_mul_right amount (most.greatest depth u reached)) enough
  · intro c' r' ends' ended' most' levels
    rw [Configuration.tooDeepUnder_iff ends ended, Configuration.tooDeepUnder_iff ends' ended',
      most.deeper_iff, most'.deeper_iff]

theorem tail_call_with_test_needs_two :
    let call : Value := .ofList
      [.ofList [.symbol "lambda", .ofList [.symbol "x"],
        .ofList [.symbol "if", .ofList [.symbol "begin", .bool false, .bool true],
          .ofList [.symbol "begin", .empty]]], .empty]
    let c : Configuration := ⟨Store.globalFrame, call, Store.initial⟩
    let after : Store := (Store.initial.allocate ⟨[("x", .empty)], some Store.globalFrame⟩).2
    c.EndsUnder .unlimited (.ok .empty after) ∧ Ended (.ok (.empty : Value) after) ∧
      c.TooDeepUnder (.atMost 1) ∧ c.GreatestNesting 2 := by
  intro call c after
  have run : c.run 9 .unlimited = .ok .empty after := rfl
  have limited : c.run 9 (.atMost 2) = .ok .empty after := rfl
  have stopped : c.run 9 (.atMost 1) = .error .tooDeep after := rfl
  have ends := Configuration.endsUnder_of_run run (by simp)
  have deep := Configuration.tooDeepUnder_of_run stopped
  obtain ⟨nesting, most, needed, -⟩ := depth_needed_is_greatest_nesting ends (ended_ok _ _)
  have above : 1 < nesting := by
    have exceeded := (needed 1 1 Nat.zero_lt_one).1.mp deep
    omega
  have below : nesting ≤ 2 := by
    apply Nat.le_of_not_lt
    intro exceeded
    obtain ⟨s, other⟩ := (needed 2 1 Nat.zero_lt_one).1.mpr (by omega)
    cases other.unique (Configuration.endsUnder_of_run limited (by simp))
  have same : nesting = 2 := by omega
  rw [same] at most
  exact ⟨ends, ended_ok _ _, deep, most⟩

end Schemelet
