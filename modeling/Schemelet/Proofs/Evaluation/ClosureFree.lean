import Mathlib.Algebra.Order.BigOperators.Group.List
import Mathlib.Algebra.Order.Ring.Nat
import Schemelet.Proofs.Evaluation.Agreement
import Schemelet.Proofs.Evaluation.Trail
import Schemelet.Proofs.Reader.Tree

/-! Evaluation without closures. Where no expression mentions the form that makes closures and no
value holds one, both stay so. Every step then goes on with an operand of its expression that lies
behind the parts it demanded, so an evaluation takes at most one step for each atom and list in its
expression, and comes no deeper than that is nested. -/

namespace Schemelet

namespace Value

def isClosure : Value → Bool
  | .closure _ _ _ => true
  | _ => false

def ClosureFree (v : Value) : Prop := ∀ p ∈ v.procedures, p.isClosure = false

/-- How many atoms and lists an expression consists of, itself included. Every list is counted at
its end. -/
def size : Value → Nat
  | .pair a d => a.size + d.size
  | _ => 1

theorem size_pos (v : Value) : 0 < v.size := by
  induction v with
  | pair a d first _ => exact Nat.add_pos_left first _
  | _ => exact Nat.zero_lt_one

theorem sum_size_elements (v : Value) : (v.elements.map size).sum + 1 = v.size := by
  induction v with
  | pair a d _ ih =>
    rw [elements, List.map_cons, List.sum_cons, size]
    omega
  | _ => rfl

theorem sum_size_lt {parts : List Value} {v : Value} (among : parts.Sublist v.elements) :
    (parts.map size).sum < v.size := by
  have below := (among.map size).sum_le_sum fun _ _ => Nat.zero_le _
  have whole := v.sum_size_elements
  omega

end Value

def closureFree : Invariant where
  scope _ _ := True
  frame _ _ := True
  procedure _ p := p.isClosure = false
  code _ e := e.mentions "lambda" = false
  error _ e := ∀ v ∈ e.values, v.ClosureFree
  scope_mono _ _ := trivial
  scope_new _ := trivial
  frame_define _ _ _ := trivial
  frame_new _ _ := trivial
  procedure_mono _ ok := ok
  procedure_closure _ free _ _ _ := by cases (Value.free_of_pair.mp free).1
  code_mono _ free := free
  code_operator free _ := (Value.free_of_pair.mp free).1
  code_operand free member := Value.free_of_mem member (Value.free_of_pair.mp free).2
  entry impossible := by cases impossible
  error_of_faults _ ok demanded fault v carried p inside := by
    rcases mem_procedures_of_faults fault carried inside with found | ⟨w, member, found⟩
    · exact ok p found
    · exact demanded w member p found

theorem Form.demands_sublist (form : Form) (operands : Value) :
    (form.demands operands).Sublist operands.elements := by
  by_cases misshapen : ∃ e, form.Misshapen operands e
  · obtain ⟨e, fault⟩ := misshapen
    rw [Form.demands_of_misshapen fault]
    exact List.nil_sublist _
  cases form with
  | quotation => exact List.nil_sublist _
  | abstraction => exact List.nil_sublist _
  | conditional =>
    obtain ⟨test, yes, no, shape⟩ := (Form.conditional_cases operands).resolve_left misshapen
    rw [Form.demands_conditional shape, Value.elements_of_toList? shape]
    exact (List.nil_sublist _).cons_cons test
  | definition =>
    obtain ⟨name, expr, shape⟩ := (Form.definition_cases operands).resolve_left misshapen
    rw [Form.demands_definition shape, Value.elements_of_toList? shape]
    exact List.sublist_cons_self _ _
  | sequence =>
    obtain ⟨exprs, shape⟩ := (Form.sequence_cases operands).resolve_left misshapen
    rw [Form.demands_sequence shape, Value.elements_of_toList? shape]
    exact exprs.dropLast_sublist

theorem demands_sublist (expr : Value) : (demands expr).Sublist expr.elements := by
  cases expr with
  | pair operator operands =>
    rcases form_or_plain operator with ⟨form, rfl⟩ | plain
    · rw [demands_form]
      exact (form.demands_sublist operands).cons _
    · rw [demands_application plain]
      exact List.Sublist.refl _
  | _ => exact List.nil_sublist _

section

variable {env env' : FrameId} {vs : List Value} {expr' : Value} {s s' : Store}

/-- What a form hands on is an operand behind those that it demanded. -/
theorem Form.handed_sublist {form : Form} {operands : Value}
    (handed : form.finish env operands vs s = .ok (.tail expr' env') s') :
    env' = env ∧ (form.demands operands ++ [expr']).Sublist operands.elements := by
  by_cases misshapen : ∃ e, form.Misshapen operands e
  · obtain ⟨e, fault⟩ := misshapen
    rw [Form.finish_of_misshapen fault] at handed
    cases handed
  cases form with
  | quotation =>
    obtain ⟨v, shape⟩ := (Form.quotation_cases operands).resolve_left misshapen
    rw [Form.finish_quotation env shape] at handed
    cases handed
  | abstraction =>
    obtain ⟨list, body, bodies, params, shape, parameters, distinct, -⟩ :=
      (Form.closure_cases env operands).resolve_left misshapen
    rw [Form.finish_abstraction env shape parameters distinct] at handed
    cases handed
  | conditional =>
    obtain ⟨test, yes, no, shape⟩ := (Form.conditional_cases operands).resolve_left misshapen
    rw [Form.demands_conditional shape, Value.elements_of_toList? shape]
    rw [Form.finish, Value.toList_of_some _ shape] at handed
    cases no with
    | none =>
      change EStateM.Result.ok (if (vs.headD .unspecified).isFalse
        then Transition.done .unspecified else .tail yes env) s = _ at handed
      split at handed
      · cases handed
      · cases handed
        exact ⟨rfl, List.Sublist.refl _⟩
    | some no =>
      cases handed
      refine ⟨rfl, ?_⟩
      split
      · exact ((List.sublist_cons_self yes [no])).cons_cons test
      · exact ((List.nil_sublist [no]).cons_cons yes).cons_cons test
  | definition =>
    obtain ⟨name, expr, shape⟩ := (Form.definition_cases operands).resolve_left misshapen
    rw [Form.finish, Value.toList_of_some _ shape] at handed
    cases handed
  | sequence =>
    obtain ⟨exprs, shape⟩ := (Form.sequence_cases operands).resolve_left misshapen
    rw [Form.finish_sequence env shape] at handed
    rw [Form.demands_sequence shape, Value.elements_of_toList? shape]
    cases isLast : exprs.getLast? with
    | none =>
      rw [isLast] at handed
      cases handed
    | some last =>
      rw [isLast] at handed
      cases handed
      rw [List.dropLast_append_getLast? _ isLast]
      exact ⟨rfl, List.Sublist.refl exprs⟩

theorem isClosure_of_apply {p : Value} {args : List Value}
    (handed : apply p args s = .ok (.tail expr' env') s') : p.isClosure = true := by
  cases p with
  | closure params body frame => rfl
  | primitive p =>
    rw [apply] at handed
    cases run : p.run args with
    | ok v =>
      rw [run] at handed
      cases handed
    | error e =>
      rw [run] at handed
      cases handed
  | _ => cases handed

theorem handed_sublist {expr : Value} (noClosure : (vs.headD .unspecified).isClosure = false)
    (handed : finish env vs expr s = .ok (.tail expr' env') s') :
    env' = env ∧ (demands expr ++ [expr']).Sublist expr.elements := by
  cases expr with
  | pair operator operands =>
    rcases form_or_plain operator with ⟨form, rfl⟩ | plain
    · rw [finish_form] at handed
      rw [demands_form]
      obtain ⟨same, among⟩ := Form.handed_sublist handed
      exact ⟨same, among.cons _⟩
    · rw [finish, Form.ofOperator?_eq_none plain] at handed
      have entered := isClosure_of_apply handed
      rw [noClosure] at entered
      cases entered
  | symbol name =>
    have finished := finish_finishes env vs s (.symbol name)
    rw [handed] at finished
    cases finished
  | _ => cases handed

end

theorem Configuration.length_partsTrail {eval : Evaluator}
    {single : Configuration → List Configuration} {env : FrameId} {parts : List Value} {s : Store}
    (bound : ∀ earlier part later vs s₁, parts = earlier ++ part :: later →
      evaluateOperands eval env earlier s = .ok vs s₁ →
      (single ⟨env, part, s₁⟩).length ≤ part.size) :
    (partsTrail eval single env parts s).length ≤ (parts.map Value.size).sum := by
  induction parts generalizing s with
  | nil => exact Nat.le_refl 0
  | cons part parts ih =>
    have first := bound [] part parts [] s rfl rfl
    rw [partsTrail, List.length_append, List.map_cons, List.sum_cons]
    apply Nat.add_le_add first
    cases evaluated : eval env part s with
    | error h s' => exact Nat.zero_le _
    | ok v s' =>
      apply ih
      rintro earlier next later vs s₁ rfl before
      refine bound (part :: earlier) next later (v :: vs) s₁ rfl ?_
      rw [evaluateOperands, bind_of_ok evaluated, bind_of_ok before]
      rfl

namespace Invariant.At

variable {c u : Configuration} {steps : Nat} {limit : Limit}

section

variable (ok : closureFree.At c)

include ok

theorem handed (next : step (oneLevelDown limit (Schemelet.evaluate steps)) c.env c.expr c.store =
      .ok (.tail u.expr u.env) u.store) :
    u.env = c.env ∧ (demands c.expr ++ [u.expr]).Sublist c.expr.elements := by
  obtain ⟨vs, s, -, demanded, rest⟩ := ok.halves next
  apply handed_sublist ?_ rest
  cases vs with
  | nil => rfl
  | cons v vs =>
    have first := demanded.2 v List.mem_cons_self
    cases v with
    | closure params body frame => exact first _ List.mem_cons_self
    | _ => rfl

theorem size_handed
    (next : step (oneLevelDown limit (Schemelet.evaluate steps)) c.env c.expr c.store =
      .ok (.tail u.expr u.env) u.store) :
    ((demands c.expr).map Value.size).sum + u.expr.size < c.expr.size := by
  have less := Value.sum_size_lt (ok.handed next).2
  rw [List.map_append, List.sum_append] at less
  exact less

theorem mem_elements_of_handed
    (next : step (oneLevelDown limit (Schemelet.evaluate steps)) c.env c.expr c.store =
      .ok (.tail u.expr u.env) u.store) : u.expr ∈ c.expr.elements :=
  (ok.handed next).2.subset (List.mem_append_right _ List.mem_cons_self)

omit ok in
theorem mem_elements_of_demanded {earlier later : List Value} {part : Value}
    (parts : demands c.expr = earlier ++ part :: later) : part ∈ c.expr.elements := by
  apply (demands_sublist c.expr).subset
  rw [parts]
  exact List.mem_append_right _ List.mem_cons_self

end

/-- One step for each atom and list suffices. -/
theorem not_outOfSteps (ok : closureFree.At c) (enough : c.expr.size ≤ steps) (s : Store) :
    c.run steps limit ≠ .error .outOfSteps s := by
  induction steps generalizing c limit s with
  | zero =>
    have := c.expr.size_pos
    omega
  | succ steps ih =>
    intro stopped
    cases stepped : step (oneLevelDown limit (Schemelet.evaluate steps)) c.env c.expr c.store with
    | error h s₁ =>
      rw [Configuration.run_of_error stepped] at stopped
      cases stopped
      obtain ⟨earlier, part, later, vs, s₂, parts, before, stops⟩ :=
        part_of_step_cut (by simp) stepped
      have fewer := Value.sum_size_lt (List.singleton_sublist.mpr (mem_elements_of_demanded parts))
      unfold oneLevelDown at stops
      cases down : limit.descend? with
      | none =>
        rw [down] at stops
        cases stops
      | some lower =>
        rw [down] at stops
        have deeper : closureFree.At ⟨c.env, part, s₂⟩ := ok.part parts before
        exact ih deeper (Nat.le_of_lt_succ (Nat.lt_of_lt_of_le fewer enough)) _ stops
    | ok transition s₁ =>
      cases transition with
      | done v =>
        rw [Configuration.run, Schemelet.evaluate, bind_of_ok stepped] at stopped
        cases stopped
      | tail expr env =>
        have next : closureFree.At ⟨env, expr, s₁⟩ := ok.tail stepped
        have fewer := ok.size_handed (u := ⟨env, expr, s₁⟩) stepped
        rw [Configuration.run_of_tail (u := ⟨env, expr, s₁⟩) stepped] at stopped
        exact ih next (by omega) s stopped

theorem length_trail (ok : closureFree.At c) : (c.trail steps limit).length ≤ c.expr.size := by
  induction steps generalizing c limit with
  | zero => exact Nat.zero_le _
  | succ steps ih =>
    have below : (Configuration.partsTrail (oneLevelDown limit (Schemelet.evaluate steps))
        (Configuration.trailBelow limit (Configuration.trail steps)) c.env (demands c.expr)
        c.store).length ≤ ((demands c.expr).map Value.size).sum := by
      apply Configuration.length_partsTrail
      intro earlier part later vs s₁ parts before
      unfold Configuration.trailBelow
      cases limit.descend? with
      | none => exact Nat.zero_le _
      | some lower => exact ih (ok.part parts before)
    rw [Configuration.trail, List.length_cons, List.length_append]
    split
    · rename_i expr env s stepped
      have within := ok.size_handed (u := ⟨env, expr, s⟩) stepped
      have behind : (Configuration.trail steps limit ⟨env, expr, s⟩).length ≤ expr.size :=
        ih (ok.tail stepped)
      change _ + expr.size < _ at within
      omega
    · have within := Value.sum_size_lt (demands_sublist c.expr)
      change _ + 0 + 1 ≤ _
      omega

theorem depth_le_nesting {depth : Nat} (ok : closureFree.At c) (reach : c.Reaches depth u) :
    depth ≤ c.expr.nesting := by
  induction reach with
  | here => exact Nat.zero_le _
  | tail next rest ih =>
    obtain ⟨steps, stepped⟩ := next
    change step (oneLevelDown .unlimited (Schemelet.evaluate steps)) _ _ _ = _ at stepped
    have within := Value.nesting_lt_of_mem_elements (ok.mem_elements_of_handed stepped)
    have := ih (ok.tail stepped)
    omega
  | @part c c' u depth demanded rest ih =>
    obtain ⟨env, expr, s⟩ := c'
    obtain ⟨rfl, earlier, later, vs, steps, parts, before⟩ := demanded
    change evaluateOperands (oneLevelDown .unlimited (Schemelet.evaluate steps)) _ _ _ = _ at before
    have within := Value.nesting_lt_of_mem_elements (mem_elements_of_demanded parts)
    have below : depth ≤ expr.nesting := ih (ok.part parts before)
    change expr.nesting < _ at within
    omega

theorem ended (ok : closureFree.At c) : Ended (c.run c.expr.size .unlimited) := by
  intro h s stopped
  have runs := evaluate_runs c.expr.size unlimited_covers c.env c.expr c.store
  rcases error_of_runs runs h s stopped with rfl | known
  · exact absurd stopped (ok.not_outOfSteps (Nat.le_refl _) s)
  · exact known

/-- Unless its expression is nested deeper than the limit, an evaluation ends as it does without
one. -/
theorem run_eq_or_tooDeep (ok : closureFree.At c) (enough : c.expr.size ≤ steps) :
    c.run steps limit = c.run c.expr.size .unlimited ∨
      limit.allows c.expr.nesting = false ∧ ∃ s, c.run steps limit = .error .tooDeep s := by
  have unlimited : c.run steps .unlimited = c.run c.expr.size .unlimited :=
    (evaluate_le enough .unlimited c.env c.expr).of_ended rfl ok.ended
  rcases evaluate_raised steps (.unlimited limit) c.env c.expr c.store with
    ⟨h, s, rfl, deep⟩ | same
  · cases limit with
    | unlimited => exact Or.inl unlimited
    | atMost levels =>
      obtain ⟨depth, u, below, reached⟩ := Configuration.deeper_of_tooDeep deep
      have within := ok.depth_le_nesting reached
      refine Or.inr ⟨decide_eq_false ?_, s, deep⟩
      omega
  · exact Or.inl (same.trans unlimited)

end Invariant.At

/-- How an evaluation goes whose steps lead to ever smaller expressions. -/
structure Configuration.Shrinks (c : Configuration) : Prop where
  /-- With one step for each atom and list it ends, under every limit in the same way, but for
  limits that the expression is nested too deep for. -/
  ends : ∃ r, Ended r ∧ ∀ (steps : Nat) (limit : Limit), c.expr.size ≤ steps →
    c.run steps limit = r ∨
      limit.allows c.expr.nesting = false ∧ ∃ s, c.run steps limit = .error .tooDeep s
  /-- On all levels together it takes no more steps than there are atoms and lists. -/
  steps : ∀ (steps : Nat) (limit : Limit), (c.trail steps limit).length ≤ c.expr.size
  /-- What a step leaves in tail position is an element of its own expression. -/
  handsOn : ∀ (steps : Nat) (limit : Limit), ∀ u ∈ c.trail steps limit, ∀ u' : Configuration,
    u.HandsOn u' → u'.env = u.env ∧ u'.expr ∈ u.expr.elements
  depth : ∀ (depth : Nat) (u : Configuration), c.Reaches depth u → depth ≤ c.expr.nesting

theorem Invariant.At.shrinks {c : Configuration} (ok : closureFree.At c) : c.Shrinks where
  ends := ⟨_, ok.ended, fun _ _ => ok.run_eq_or_tooDeep⟩
  steps _ _ := ok.length_trail
  handsOn steps limit u member u' next := by
    have here := ok.visited (Configuration.visits_of_mem_trail member)
    obtain ⟨enough, stepped⟩ := next
    change step (oneLevelDown .unlimited (Schemelet.evaluate enough)) _ _ _ = _ at stepped
    exact ⟨(here.handed stepped).1, here.mem_elements_of_handed stepped⟩
  depth _ _ := ok.depth_le_nesting

end Schemelet
