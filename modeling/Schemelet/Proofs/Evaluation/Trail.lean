import Schemelet.Proofs.Evaluation.Invariant

/-! All steps of an evaluation, on its own level and below, as a list in the order in which they are
taken. Its members are the configurations that the evaluation visits. -/

namespace Schemelet

namespace Configuration

def partsTrail (eval : Evaluator) (single : Configuration → List Configuration) (env : FrameId) :
    List Value → Store → List Configuration
  | [], _ => []
  | part :: parts, s =>
    single ⟨env, part, s⟩ ++ match eval env part s with
      | .error _ _ => []
      | .ok _ s' => partsTrail eval single env parts s'

def trailBelow (limit : Limit) (trail : Limit → Configuration → List Configuration)
    (c : Configuration) : List Configuration :=
  match limit.descend? with
  | some lower => trail lower c
  | none => []

/-- Where an evaluation takes its steps: at its own expression, at the parts that the step demands,
and at what the step leaves in tail position. -/
def trail : Nat → Limit → Configuration → List Configuration
  | 0, _, _ => []
  | steps + 1, limit, c =>
    let eval := oneLevelDown limit (evaluate steps)
    c :: (partsTrail eval (trailBelow limit (trail steps)) c.env (demands c.expr) c.store ++
      match step eval c.env c.expr c.store with
      | .ok (.tail expr env) s => trail steps limit ⟨env, expr, s⟩
      | _ => [])

variable {eval : Evaluator} {single : Configuration → List Configuration} {env : FrameId}
  {limit : Limit} {steps : Nat} {c u : Configuration}

theorem mem_partsTrail {parts : List Value} {s : Store} :
    u ∈ partsTrail eval single env parts s ↔
      ∃ earlier part later vs s₁, parts = earlier ++ part :: later ∧
        evaluateOperands eval env earlier s = .ok vs s₁ ∧ u ∈ single ⟨env, part, s₁⟩ := by
  induction parts generalizing s with
  | nil =>
    constructor
    · intro member
      cases member
    · rintro ⟨earlier, part, later, vs, s₁, split, -⟩
      cases earlier <;> cases split
  | cons part parts ih =>
    rw [partsTrail, List.mem_append]
    constructor
    · rintro (first | rest)
      · exact ⟨[], part, parts, [], s, rfl, rfl, first⟩
      · cases evaluated : eval env part s with
        | error h s' =>
          rw [evaluated] at rest
          cases rest
        | ok v s' =>
          rw [evaluated] at rest
          obtain ⟨earlier, later, others, vs, s₁, rfl, before, taken⟩ := ih.mp rest
          refine ⟨part :: earlier, later, others, v :: vs, s₁, rfl, ?_, taken⟩
          rw [evaluateOperands, bind_of_ok evaluated, bind_of_ok before]
          rfl
    · rintro ⟨earlier, later, others, vs, s₁, split, before, taken⟩
      cases earlier with
      | nil =>
        cases split
        cases before
        exact Or.inl taken
      | cons first earlier =>
        cases split
        right
        cases evaluated : eval env part s with
        | error h s' =>
          rw [evaluateOperands, bind_of_error evaluated] at before
          cases before
        | ok v s' =>
          rw [evaluateOperands, bind_of_ok evaluated] at before
          cases rest : evaluateOperands eval env earlier s' with
          | error h s₂ =>
            rw [bind_of_error rest] at before
            cases before
          | ok ws s₂ =>
            rw [bind_of_ok rest] at before
            cases before
            exact ih.mpr ⟨earlier, later, others, ws, s₁, rfl, rest, taken⟩

theorem visits_of_mem_trail (member : u ∈ c.trail steps limit) : c.Visits steps limit u := by
  induction steps generalizing c limit with
  | zero => cases member
  | succ steps ih =>
    rcases List.mem_cons.mp member with rfl | later
    · exact .here u steps limit
    rcases List.mem_append.mp later with below | behind
    · obtain ⟨earlier, part, others, vs, s, parts, before, taken⟩ := mem_partsTrail.mp below
      unfold trailBelow at taken
      cases down : limit.descend? with
      | none =>
        rw [down] at taken
        cases taken
      | some lower =>
        rw [down] at taken
        exact .part parts before down (ih taken)
    · split at behind
      · rename_i next
        exact .tail next (ih behind)
      · cases behind

theorem mem_trail_of_visits (visit : c.Visits steps limit u) : u ∈ c.trail steps limit := by
  induction visit with
  | here c steps limit => exact List.mem_cons_self
  | @tail c c' u steps limit next rest ih =>
    apply List.mem_cons_of_mem
    apply List.mem_append_right
    rw [next]
    exact ih
  | part parts before down rest ih =>
    apply List.mem_cons_of_mem
    apply List.mem_append_left
    apply mem_partsTrail.mpr
    refine ⟨_, _, _, _, _, parts, before, ?_⟩
    rw [trailBelow, down]
    exact ih

theorem mem_trail : u ∈ c.trail steps limit ↔ c.Visits steps limit u :=
  ⟨visits_of_mem_trail, mem_trail_of_visits⟩

end Configuration

end Schemelet
