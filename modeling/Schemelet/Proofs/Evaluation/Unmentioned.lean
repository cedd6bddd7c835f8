import Schemelet.Proofs.Evaluation.Agreement
import Schemelet.Proofs.Evaluation.Invariant
import Schemelet.Proofs.Store.Without

/-! Names that nobody mentions. Where neither the expression nor any closure that it can come to
call mentions a name, the evaluation does the same with the bindings of the name and without
them. -/

namespace Schemelet

namespace Value

def Apart (name : String) : Value → Prop
  | .closure params body _ => name ∉ params ∧ body.mentions name = false
  | _ => True

/-- The expression does not mention the name, or only to say that it is a sequence: a closure made
of several expressions has such a body, also where the name `begin` is mentioned nowhere. -/
def Ignores (name : String) (e : Value) : Prop :=
  e.mentions name = false ∨
    ∃ operands, e = .pair (.symbol "begin") operands ∧ operands.mentions name = false

def Oblivious (name : String) : Value → Prop
  | .closure params body _ => name ∉ params ∧ body.Ignores name
  | _ => True

theorem Apart.oblivious {name : String} {p : Value} (apart : p.Apart name) : p.Oblivious name := by
  cases p with
  | closure params body frame => exact ⟨apart.1, Or.inl apart.2⟩
  | _ => exact trivial

variable {name : String}

theorem free_of_toList? {w : Value} {items : List Value} (shape : w.toList? = some items)
    (free : w.mentions name = false) : ∀ v ∈ items, v.mentions name = false := by
  intro v member
  rw [← elements_of_toList? shape] at member
  exact free_of_mem member free

theorem ne_of_free {word : String} (free : (symbol word).mentions name = false) : word ≠ name := by
  simpa [mentions] using free

theorem Ignores.operands {operator operands : Value} (ok : (pair operator operands).Ignores name) :
    operands.mentions name = false := by
  rcases ok with free | ⟨operands', same, free⟩
  · exact (free_of_pair.mp free).2
  · cases same
    exact free

theorem ignores_closureBody {bodies : List Value} (free : ∀ v ∈ bodies, v.mentions name = false) :
    (Form.closureBody bodies).Ignores name := by
  unfold Form.closureBody
  split
  · exact Or.inl (free _ List.mem_cons_self)
  · exact Or.inr ⟨_, rfl, free_ofList free⟩

end Value

def unmentioned (name : String) : Invariant where
  scope _ _ := True
  frame _ _ := True
  procedure _ := Value.Oblivious name
  code _ := Value.Ignores name
  error _ _ := True
  scope_mono _ _ := trivial
  scope_new _ := trivial
  frame_define _ _ _ := trivial
  frame_new _ _ := trivial
  procedure_mono _ ok := ok
  procedure_closure _ ok shape parameters _ := by
    have free := Value.free_of_toList? shape ok.operands
    refine ⟨?_, Value.ignores_closureBody fun v member => free v (List.mem_cons_of_mem _ member)⟩
    intro member
    have symbols := Value.free_of_toList? parameters (free _ List.mem_cons_self)
    exact Value.ne_of_free (symbols _ (List.mem_map_of_mem member)) rfl
  code_mono _ ok := ok
  code_operator ok plain := by
    rcases ok with free | ⟨operands, same, -⟩
    · exact Or.inl (Value.free_of_pair.mp free).1
    · cases same
      exact absurd rfl (plain .sequence)
  code_operand ok member := Or.inl (Value.free_of_mem member ok.operands)
  entry ok := ⟨trivial, ok.2⟩
  error_of_faults _ _ _ _ := trivial

def mapStore {α : Type} (f : Store → Store) :
    EStateM.Result Halt Store α → EStateM.Result Halt Store α
  | .ok a s => .ok a (f s)
  | .error h s => .error h (f s)

namespace EvalM

variable {α β : Type} {name : String} {s : Store}

/-- The computation does the same with and without the bindings of a name. -/
def Overlooks (name : String) (x : EvalM α) (s : Store) : Prop :=
  x (s.without name) = mapStore (·.without name) (x s)

theorem Overlooks.bind {x : EvalM α} {f : α → EvalM β} (first : Overlooks name x s)
    (next : ∀ a s', x s = .ok a s' → Overlooks name (f a) s') : Overlooks name (x >>= f) s := by
  unfold Overlooks at first ⊢
  rw [bind_apply, bind_apply, first]
  cases run : x s with
  | ok a s' => exact next a s' run
  | error h s' => rfl

theorem overlooks_ofExcept (x : Except EvalError α) : Overlooks name (ofExcept x) s := by
  cases x <;> rfl

theorem overlooks_lookup (env : FrameId) {word : String} (other : word ≠ name) :
    Overlooks name (lookup env word) s := by
  unfold Overlooks
  rw [lookup_apply, lookup_apply, Store.lookup?_without other]
  cases s.lookup? env word <;> rfl

theorem overlooks_define (env : FrameId) {word : String} (other : word ≠ name) (v : Value) :
    Overlooks name (define env word v) s := by
  unfold Overlooks
  rw [define_apply, define_apply, ← Store.without_define other]
  rfl

theorem overlooks_bindParameters {params : List String} (free : name ∉ params) (env : FrameId)
    (args : List Value) : Overlooks name (bindParameters params env args) s := by
  have frame : (Frame.ofBindings (some env) (params.zip args)).without name =
      .ofBindings (some env) (params.zip args) := by
    apply Frame.without_ofBindings
    rintro item member rfl
    exact free (List.of_mem_zip member).1
  unfold Overlooks bindParameters
  rw [allocate_apply, allocate_apply, Store.size_without, ← Store.without_allocate s frame]
  rfl

end EvalM

open EvalM

section

variable {name : String} {s : Store} {env : FrameId}

theorem Form.finish_overlooks (form : Form) {operands : Value} (vs : List Value)
    (free : operands.mentions name = false) : Overlooks name (form.finish env operands vs) s := by
  cases form with
  | quotation =>
    refine (overlooks_ofExcept _).bind ?_
    intro items s' _
    split <;> rfl
  | conditional =>
    refine (overlooks_ofExcept _).bind ?_
    intro items s' _
    split <;> rfl
  | abstraction =>
    refine (overlooks_ofExcept _).bind ?_
    intro v s' _
    rfl
  | definition =>
    rcases Form.definition_cases operands with ⟨e, fault⟩ | ⟨word, expr, shape⟩
    · rw [Form.finish_of_misshapen fault]
      rfl
    · have other := Value.ne_of_free (Value.free_of_toList? shape free _ List.mem_cons_self)
      rw [Form.finish, Value.toList_of_some _ shape]
      change Overlooks name (define env word (vs.headD .unspecified) >>= fun _ => pure _) s
      refine (overlooks_define env other _).bind ?_
      intro _ s' _
      rfl
  | sequence =>
    refine (overlooks_ofExcept _).bind ?_
    intro exprs s' _
    cases exprs.getLast? <;> rfl

theorem apply_overlooks {p : Value} (oblivious : (unmentioned name).value s.frames.size p)
    (args : List Value) : Overlooks name (apply p args) s := by
  cases p with
  | closure params body frame =>
    have free := (oblivious _ List.mem_cons_self).1
    by_cases count : args.length = params.length
    · rw [apply, if_pos count]
      refine (overlooks_bindParameters free frame args).bind ?_
      intro _ s' _
      rfl
    · rw [apply, if_neg count]
      rfl
  | primitive p =>
    refine (overlooks_ofExcept _).bind ?_
    intro _ s' _
    rfl
  | _ => rfl

theorem finish_overlooks {expr : Value} {vs : List Value} (ok : expr.Ignores name)
    (demanded : (unmentioned name).values s.frames.size vs) :
    Overlooks name (finish env vs expr) s := by
  cases expr with
  | symbol word =>
    rcases ok with free | ⟨operands, impossible, -⟩
    · refine (overlooks_lookup env (Value.ne_of_free free)).bind ?_
      intro _ s' _
      rfl
    · cases impossible
  | pair operator operands =>
    rcases form_or_plain operator with ⟨form, rfl⟩ | plain
    · rw [finish_form]
      exact form.finish_overlooks vs ok.operands
    · rw [finish, Form.ofOperator?_eq_none plain]
      exact apply_overlooks (Invariant.value_headD demanded) vs.tail
  | _ => rfl

theorem evaluateOperands_overlooks {eval : Evaluator} {exprs : List Value}
    (sub : ∀ expr s, (unmentioned name).At ⟨env, expr, s.without name⟩ →
      Overlooks name (eval env expr) s)
    (kept : ∀ expr s, (unmentioned name).At ⟨env, expr, s⟩ →
      (unmentioned name).Allows (unmentioned name).value (eval env expr s))
    (holds : (unmentioned name).Holds (s.without name))
    (ok : ∀ expr ∈ exprs, (unmentioned name).expr (s.without name).frames.size expr) :
    Overlooks name (evaluateOperands eval env exprs) s := by
  -- The invariant is that of the smaller store: what the name is bound to may mention it.
  induction exprs generalizing s with
  | nil => rfl
  | cons expr exprs ih =>
    have start : (unmentioned name).At ⟨env, expr, s.without name⟩ :=
      ⟨holds, trivial, ok expr List.mem_cons_self⟩
    refine (sub expr s start).bind ?_
    intro v s' run
    have after := kept expr (s.without name) start
    rw [sub expr s start, run] at after
    have rest := ih after.1 fun expr member => ok expr (List.mem_cons_of_mem _ member)
    refine rest.bind ?_
    intro vs s'' _
    rfl

end

section

variable {name : String} {s : Store} {env : FrameId} {expr : Value}

theorem step_overlooks {steps : Nat} {limit : Limit}
    (sub : ∀ (limit : Limit) (env : FrameId) (expr : Value) (s : Store),
      (unmentioned name).At ⟨env, expr, s.without name⟩ →
      Overlooks name (evaluate steps limit env expr) s)
    (ok : (unmentioned name).At ⟨env, expr, s.without name⟩) :
    Overlooks name (step (oneLevelDown limit (evaluate steps)) env expr) s := by
  have parts : Overlooks name
      (evaluateOperands (oneLevelDown limit (evaluate steps)) env (demands expr)) s := by
    refine evaluateOperands_overlooks ?_ ?_ ok.holds fun _ => Invariant.expr_demands ok.expr
    · intro part s' start
      unfold oneLevelDown
      cases limit.descend? with
      | some lower => exact sub lower env part s' start
      | none => rfl
    · intro part s' start
      exact start.evaluateBelow steps limit
  rw [step_eq]
  refine parts.bind ?_
  intro vs s' run
  have first := Invariant.demands_runsAll ⟨env, expr, s.without name⟩ steps limit (demands expr)
  have demanded := Invariant.allows_of_runsAll first not_isCut_error ok.holds trivial
    fun _ => Invariant.expr_demands ok.expr
  rw [parts, run] at demanded
  exact finish_overlooks ok.expr.1 demanded.2

theorem evaluate_overlooks (steps : Nat) (limit : Limit)
    (ok : (unmentioned name).At ⟨env, expr, s.without name⟩) :
    Overlooks name (evaluate steps limit env expr) s := by
  induction steps generalizing limit env expr s with
  | zero => rfl
  | succ steps ih =>
    have stepped : Overlooks name (step (oneLevelDown limit (evaluate steps)) env expr) s :=
      step_overlooks (fun limit env expr s start => ih limit start) ok
    refine stepped.bind ?_
    intro transition s' run
    cases transition with
    | done v => rfl
    | tail expr' env' =>
      unfold Overlooks at stepped
      rw [run] at stepped
      exact ih limit (ok.tail stepped)

end

theorem ok_of_mapStore {α : Type} {f : Store → Store} {r : EStateM.Result Halt Store α} {a : α}
    {s : Store} (same : mapStore f r = .ok a s) : ∃ s', r = .ok a s' ∧ f s' = s := by
  cases r with
  | ok b s' =>
    obtain ⟨rfl, left⟩ := EStateM.Result.ok.inj same
    exact ⟨s', rfl, left⟩
  | error h s' => cases same

theorem error_of_mapStore {α : Type} {f : Store → Store} {r : EStateM.Result Halt Store α}
    {h : Halt} {s : Store} (same : mapStore f r = .error h s) :
    ∃ s', r = .error h s' ∧ f s' = s := by
  cases r with
  | ok b s' => cases same
  | error h' s' =>
    obtain ⟨rfl, left⟩ := EStateM.Result.error.inj same
    exact ⟨s', rfl, left⟩

theorem result_of_mapStore {α : Type} {f : Store → Store} {r : EStateM.Result Halt Store α}
    {o : Outcome α} {s : Store} (same : mapStore f r = mapStore f (o.result s)) :
    ∃ s', r = o.result s' ∧ f s' = f s := by
  cases o with
  | ok a => exact ok_of_mapStore same
  | error e => exact error_of_mapStore same

/-- Two stores are the same but for the bindings of a name, which there may be in any of their
frames. Neither the expression nor a closure, in it or bound to another name, mentions the name.
Then the evaluations do the same under all limits, and what they leave is again the same but for the
bindings of the name. -/
theorem unmentioned_name_has_no_effect {name : String} {env : FrameId} {expr : Value} {s t : Store}
    (same : s.without name = t.without name) (free : expr.mentions name = false)
    (embedded : ∀ p ∈ expr.procedures, p.Apart name)
    (bound : ∀ word v, s.Binds word v → word ≠ name → ∀ p ∈ v.procedures, p.Apart name) :
    (∀ (steps : Nat) (limit : Limit),
      mapStore (·.without name) (evaluate steps limit env expr s) =
        mapStore (·.without name) (evaluate steps limit env expr t)) ∧
      ((Diverges env expr s ∧ Diverges env expr t) ∨
        ∃ o s' t', EndsWith env expr s o s' ∧ EndsWith env expr t o t' ∧
          s'.without name = t'.without name) := by
  have ok : (unmentioned name).At ⟨env, expr, s.without name⟩ := by
    refine ⟨⟨fun _ _ _ => trivial, ?_⟩, trivial, Or.inl free, fun p inside => ?_⟩
    · intro word v bindsIt p inside
      obtain ⟨there, other⟩ := Store.binds_of_without bindsIt
      exact (bound word v there other p inside).oblivious
    · exact (embedded p inside).oblivious
  have agree (steps : Nat) (limit : Limit) :
      mapStore (·.without name) (evaluate steps limit env expr s) =
        mapStore (·.without name) (evaluate steps limit env expr t) := by
    have first := evaluate_overlooks steps limit ok
    rw [same] at ok
    have second := evaluate_overlooks steps limit ok
    unfold Overlooks at first second
    rw [← first, ← second, same]
  refine ⟨agree, ?_⟩
  rcases diverges_or_endsWith env expr s with diverges | ⟨o, s', enough, run⟩
  · left
    refine ⟨diverges, ?_⟩
    intro steps
    obtain ⟨s', stopped⟩ := diverges steps
    have other := agree steps .unlimited
    rw [stopped] at other
    obtain ⟨t', stops, -⟩ := error_of_mapStore other.symm
    exact ⟨t', stops⟩
  · right
    have ends := run enough (Nat.le_refl enough)
    have other := agree enough .unlimited
    rw [ends] at other
    obtain ⟨t', ends', stores⟩ := result_of_mapStore other.symm
    refine ⟨o, s', t', ⟨enough, run⟩, ?_, stores.symm⟩
    exact endsWith_of_evaluates (evaluates_of_evaluate ends')

theorem binding_of_form_name_overlooked :
    let name := "begin"
    let s := Store.initial.define Store.globalFrame name (.closure [name] (.symbol name) 0)
    let define : Value := .ofList [.symbol "define", .symbol "z", .symbol "y"]
    let result : Value := .ofList [.symbol "cons", .symbol "z", .symbol "y"]
    let closure : Value := .ofList [.symbol "lambda", .ofList [.symbol "y"], define, result]
    let expr : Value := .ofList [closure, .bool true]
    s.without name = Store.initial.without name ∧ s ≠ Store.initial ∧
      expr.mentions name = false ∧ expr.procedures = [] ∧
      (Diverges Store.globalFrame expr s ∧ Diverges Store.globalFrame expr Store.initial ∨
        ∃ o s' t', EndsWith Store.globalFrame expr s o s' ∧
          EndsWith Store.globalFrame expr Store.initial o t' ∧
          s'.without name = t'.without name) := by
  intro name s define result closure expr
  have same : s.without name = Store.initial.without name := by decide +kernel
  have differ : s ≠ Store.initial := by decide +kernel
  have free : expr.mentions name = false := by decide +kernel
  have plain : expr.procedures = [] := by decide +kernel
  have bound : ∀ word v, s.Binds word v → word ≠ name → ∀ p ∈ v.procedures, p.Apart name := by
    intro word v binds other p inside
    rcases Store.binds_of_define binds with old | ⟨rfl, -⟩
    · obtain ⟨q, rfl⟩ := Store.binds_initial old
      rw [List.mem_singleton.mp inside]
      exact trivial
    · exact absurd rfl other
  refine ⟨same, differ, free, plain, (unmentioned_name_has_no_effect same free ?_ bound).2⟩
  intro p inside
  rw [plain] at inside
  cases inside

end Schemelet
