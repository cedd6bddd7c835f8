import Mathlib.Data.List.Basic
import Schemelet.Proofs.Evaluation.Agreement
import Schemelet.Proofs.Store.Copy

/-! Evaluation in a copy of a store. It comes to the same results, but for the numbers of frames,
whatever other frames there are. -/

namespace Schemelet

variable {ρ : FrameId → FrameId} {α β : Type}

inductive CopyOf (ρ : FrameId → FrameId) (f : α → α) :
    EStateM.Result Halt Store α → EStateM.Result Halt Store α → Prop where
  | ok {a : α} {s t : Store} (copied : s.CopiedTo ρ t) : CopyOf ρ f (.ok a s) (.ok (f a) t)
  | error {h : Halt} {s t : Store} (copied : s.CopiedTo ρ t) :
      CopyOf ρ f (.error h s) (.error (h.rename ρ) t)

def renameExcept (ρ : FrameId → FrameId) (f : α → α) : Except EvalError α → Except EvalError α
  | .ok a => .ok (f a)
  | .error e => .error (e.rename ρ)

namespace EvalM

def Copies (ρ : FrameId → FrameId) (f : α → α) (x y : EvalM α) : Prop :=
  ∀ s t : Store, s.CopiedTo ρ t → CopyOf ρ f (x s) (y t)

theorem Copies.bind {f : α → α} {g : β → β} {x y : EvalM α} {k k' : α → EvalM β}
    (first : Copies ρ f x y) (next : ∀ a, Copies ρ g (k a) (k' (f a))) :
    Copies ρ g (x >>= k) (y >>= k') := by
  intro s t copied
  have ends := first s t copied
  rw [bind_apply, bind_apply]
  revert ends
  generalize x s = r
  generalize y t = r'
  intro ends
  cases ends with
  | ok copied => exact next _ _ _ copied
  | error copied => exact .error copied

theorem copies_pure (f : α → α) (a : α) : Copies ρ f (pure a) (pure (f a)) :=
  fun _ _ copied => .ok copied

theorem copies_fail (f : α → α) (e : EvalError) : Copies ρ f (fail e) (fail (e.rename ρ)) :=
  fun _ _ copied => .error copied

theorem copies_ofExcept (f : α → α) (x : Except EvalError α) :
    Copies ρ f (ofExcept x) (ofExcept (renameExcept ρ f x)) := by
  cases x with
  | ok a => exact copies_pure f a
  | error e => exact copies_fail f e

theorem copies_lookup (env : FrameId) (name : String) :
    Copies ρ (Value.rename ρ) (lookup env name) (lookup (ρ env) name) := by
  intro s t copied
  rw [lookup_apply, lookup_apply, copied.lookup?]
  cases s.lookup? env name with
  | some v => exact .ok copied
  | none => exact .error copied

theorem copies_define (env : FrameId) (name : String) (v : Value) :
    Copies ρ id (define env name v) (define (ρ env) name (v.rename ρ)) := by
  intro s t copied
  rw [define_apply, define_apply]
  exact .ok (copied.define env name v)

theorem copies_bindParameters (params : List String) (env : FrameId) (args : List Value) :
    Copies ρ ρ (bindParameters params env args)
      (bindParameters params (ρ env) (args.map (Value.rename ρ))) := by
  intro s t copied
  have frame : Frame.ofBindings (some (ρ env)) (params.zip (args.map (Value.rename ρ))) =
      (Frame.ofBindings (some env) (params.zip args)).rename ρ := by
    rw [Frame.rename_ofBindings, List.zip_map_right]
    rfl
  rw [bindParameters, bindParameters, frame, allocate_apply, allocate_apply, ← copied.size]
  exact .ok (copied.allocate _)

end EvalM

open EvalM

theorem Value.toList_rename (what : String) (v : Value) :
    (v.rename ρ).toList what = renameExcept ρ (·.map (Value.rename ρ)) (v.toList what) := by
  rw [toList, toList, toList?_rename]
  cases v.toList? <;> rfl

namespace Form

theorem parameterNames_rename (items : List Value) :
    parameterNames (items.map (Value.rename ρ)) = renameExcept ρ id (parameterNames items) := by
  induction items with
  | nil => rfl
  | cons item items ih =>
    cases item with
    | symbol name =>
      change (name :: ·) <$> parameterNames (items.map (Value.rename ρ)) = _
      rw [ih, parameterNames]
      cases parameterNames items <;> rfl
    | _ => rfl

theorem parameters_rename (list : Value) :
    parameters (list.rename ρ) = renameExcept ρ id (parameters list) := by
  unfold parameters
  rw [Value.toList_rename]
  cases list.toList "parameter list" with
  | error e => rfl
  | ok items =>
    change (parameterNames (items.map (Value.rename ρ)) >>= _) =
      renameExcept ρ id (parameterNames items >>= _)
    rw [parameterNames_rename]
    cases parameterNames items with
    | error e => rfl
    | ok names =>
      change (if names.Nodup then _ else _) = renameExcept ρ id (if names.Nodup then _ else _)
      split <;> rfl

theorem closure_rename (env : FrameId) (operands : Value) :
    closure (ρ env) (operands.rename ρ) =
      renameExcept ρ (Value.rename ρ) (closure env operands) := by
  unfold closure
  rw [Value.toList_rename]
  cases operands.toList "lambda form" with
  | error e => rfl
  | ok items =>
    rcases items with _ | ⟨list, _ | ⟨body, bodies⟩⟩
    · rfl
    · rfl
    · change (parameters (list.rename ρ) >>= _) = renameExcept ρ _ (parameters list >>= _)
      rw [parameters_rename]
      cases parameters list with
      | error e => rfl
      | ok params =>
        change _ =
          Except.ok (Value.closure params ((closureBody (body :: bodies)).rename ρ) (ρ env))
        rw [Value.rename_closureBody]
        rfl

theorem demands_rename (operands : Value) (form : Form) :
    form.demands (operands.rename ρ) = (form.demands operands).map (Value.rename ρ) := by
  cases form with
  | quotation => rfl
  | abstraction => rfl
  | conditional =>
    rw [demands, demands, Value.toList?_rename]
    cases operands.toList? with
    | none => rfl
    | some items => rcases items with _ | ⟨test, _ | ⟨yes, _ | ⟨no, _ | _⟩⟩⟩ <;> rfl
  | definition =>
    rw [demands, demands, Value.toList?_rename]
    cases operands.toList? with
    | none => rfl
    | some items =>
      rcases items with _ | ⟨target, _ | ⟨expr, _ | _⟩⟩
      · rfl
      · cases target <;> rfl
      · cases target <;> rfl
      · cases target <;> rfl
  | sequence =>
    rw [demands, demands, Value.toList?_rename]
    cases operands.toList? with
    | none => rfl
    | some exprs => exact List.map_dropLast.symm

theorem headD_rename (vs : List Value) :
    (vs.map (Value.rename ρ)).headD .unspecified = (vs.headD .unspecified).rename ρ := by
  cases vs <;> rfl

theorem finish_copies (form : Form) (env : FrameId) (operands : Value) (vs : List Value) :
    Copies ρ (Transition.rename ρ) (form.finish env operands vs)
      (form.finish (ρ env) (operands.rename ρ) (vs.map (Value.rename ρ))) := by
  cases form with
  | quotation =>
    rw [finish, finish, Value.toList_rename]
    refine (copies_ofExcept _ _).bind ?_
    intro items
    rcases items with _ | ⟨v, _ | _⟩
    · exact copies_fail _ _
    · exact copies_pure _ _
    · exact copies_fail _ _
  | conditional =>
    rw [finish, finish, Value.toList_rename, headD_rename, Value.isFalse_rename]
    refine (copies_ofExcept _ _).bind ?_
    intro items
    rcases items with _ | ⟨test, _ | ⟨yes, _ | ⟨no, _ | _⟩⟩⟩
    · exact copies_fail _ _
    · exact copies_fail _ _
    · cases (vs.headD .unspecified).isFalse
      · exact copies_pure _ (Transition.tail yes env)
      · exact copies_pure _ (Transition.done .unspecified)
    · cases (vs.headD .unspecified).isFalse
      · exact copies_pure _ (Transition.tail yes env)
      · exact copies_pure _ (Transition.tail no env)
    · exact copies_fail _ _
  | abstraction =>
    rw [finish, finish, closure_rename]
    refine (copies_ofExcept _ _).bind ?_
    intro v
    exact copies_pure _ (Transition.done v)
  | definition =>
    rw [finish, finish, Value.toList_rename, headD_rename]
    refine (copies_ofExcept _ _).bind ?_
    intro items
    rcases items with _ | ⟨target, _ | ⟨expr, _ | _⟩⟩
    · exact copies_fail _ _
    · cases target <;> exact copies_fail _ _
    · cases target with
      | symbol name =>
        refine (copies_define env name _).bind ?_
        intro _
        exact copies_pure _ (Transition.done .unspecified)
      | _ => exact copies_fail _ _
    · cases target <;> exact copies_fail _ _
  | sequence =>
    rw [finish, finish, Value.toList_rename]
    refine (copies_ofExcept _ _).bind ?_
    intro exprs
    rw [List.getLast?_map]
    cases exprs.getLast? with
    | some last => exact copies_pure _ (Transition.tail last env)
    | none => exact copies_pure _ (Transition.done .unspecified)

end Form

namespace Primitive

theorem onNumbers_rename (p : Primitive) {f : Number → Number → Value}
    (fixed : ∀ x y, (f x y).rename ρ = f x y) (v w : Value) :
    p.onNumbers f (v.rename ρ) (w.rename ρ) =
      renameExcept ρ (Value.rename ρ) (p.onNumbers f v w) := by
  cases v with
  | number x =>
    cases w with
    | number y => exact congrArg Except.ok (fixed x y).symm
    | _ => rfl
  | _ => rfl

theorem onPair_rename (p : Primitive) {f : Value → Value → Value}
    (natural : ∀ a d, (f a d).rename ρ = f (a.rename ρ) (d.rename ρ)) (v : Value) :
    p.onPair f (v.rename ρ) = renameExcept ρ (Value.rename ρ) (p.onPair f v) := by
  cases v with
  | pair a d => exact congrArg Except.ok (natural a d).symm
  | _ => rfl

theorem run_rename (p : Primitive) (args : List Value) :
    p.run (args.map (Value.rename ρ)) = renameExcept ρ (Value.rename ρ) (p.run args) := by
  by_cases count : args.length = p.arity
  · cases p
    case not =>
      obtain ⟨v, rfl⟩ := List.length_eq_one_iff.mp count
      exact congrArg (fun b => Except.ok (Value.bool b)) v.isFalse_rename
    case car =>
      obtain ⟨v, rfl⟩ := List.length_eq_one_iff.mp count
      exact onPair_rename .car (f := fun a _ => a) (fun _ _ => rfl) v
    case cdr =>
      obtain ⟨v, rfl⟩ := List.length_eq_one_iff.mp count
      exact onPair_rename .cdr (f := fun _ d => d) (fun _ _ => rfl) v
    case isNull =>
      obtain ⟨v, rfl⟩ := List.length_eq_one_iff.mp count
      have same : decide (v.rename ρ = .empty) = decide (v = .empty) :=
        decide_eq_decide.mpr Value.rename_eq_empty_iff
      exact congrArg (fun b => Except.ok (Value.bool b)) same
    case isPair =>
      obtain ⟨v, rfl⟩ := List.length_eq_one_iff.mp count
      exact congrArg (fun b => Except.ok (Value.bool b)) v.isPair_rename
    case cons =>
      obtain ⟨v, w, rfl⟩ := List.length_eq_two.mp count
      rfl
    all_goals
      obtain ⟨v, w, rfl⟩ := List.length_eq_two.mp count
      exact onNumbers_rename _ (fun _ _ => rfl) v w
  · have other : (args.map (Value.rename ρ)).length ≠ p.arity := by rwa [List.length_map]
    rw [run_arity count, run_arity other, List.length_map]
    rfl

end Primitive

theorem apply_copies (p : Value) (args : List Value) :
    Copies ρ (Transition.rename ρ) (apply p args)
      (apply (p.rename ρ) (args.map (Value.rename ρ))) := by
  cases p with
  | closure params body frame =>
    rw [Value.rename, apply, apply, List.length_map]
    split
    · refine (copies_bindParameters params frame args).bind ?_
      intro env
      exact copies_pure _ (Transition.tail body env)
    · exact copies_fail _ _
  | primitive p =>
    rw [Value.rename, apply, apply, Primitive.run_rename]
    · refine (copies_ofExcept _ _).bind ?_
      intro v
      exact copies_pure _ (Transition.done v)
    all_goals simp
  | _ => exact copies_fail _ _

theorem demands_rename (expr : Value) :
    demands (expr.rename ρ) = (demands expr).map (Value.rename ρ) := by
  cases expr with
  | pair operator operands =>
    rw [Value.rename, demands, demands, Value.ofOperator?_rename]
    cases Form.ofOperator? operator with
    | some form => exact form.demands_rename operands
    | none => exact congrArg (operator.rename ρ :: ·) operands.elements_rename
  | _ => rfl

theorem finish_copies (env : FrameId) (vs : List Value) (expr : Value) :
    Copies ρ (Transition.rename ρ) (finish env vs expr)
      (finish (ρ env) (vs.map (Value.rename ρ)) (expr.rename ρ)) := by
  cases expr with
  | symbol name =>
    refine (copies_lookup env name).bind ?_
    intro v
    exact copies_pure _ (Transition.done v)
  | pair operator operands =>
    rw [Value.rename, finish, finish, Value.ofOperator?_rename]
    cases Form.ofOperator? operator with
    | some form => exact form.finish_copies env operands vs
    | none =>
      rw [Form.headD_rename, ← List.map_tail]
      exact apply_copies _ _
  | closure params body frame => exact copies_pure _ (Transition.done (.closure params body frame))
  | _ => exact copies_pure _ (Transition.done _)

theorem evaluateOperands_copies {eval : Evaluator} {env : FrameId}
    (sub : ∀ expr, Copies ρ (Value.rename ρ) (eval env expr) (eval (ρ env) (expr.rename ρ)))
    (exprs : List Value) :
    Copies ρ (·.map (Value.rename ρ)) (evaluateOperands eval env exprs)
      (evaluateOperands eval (ρ env) (exprs.map (Value.rename ρ))) := by
  induction exprs with
  | nil => exact copies_pure _ _
  | cons expr exprs ih =>
    refine (sub expr).bind ?_
    intro v
    refine ih.bind ?_
    intro vs
    exact copies_pure _ (v :: vs)

theorem evaluate_copies (steps : Nat) (limit : Limit) (env : FrameId) (expr : Value) :
    Copies ρ (Value.rename ρ) (evaluate steps limit env expr)
      (evaluate steps limit (ρ env) (expr.rename ρ)) := by
  -- The renaming stays the same from step to step: where new frames go is part of a copy.
  induction steps generalizing limit env expr with
  | zero => exact fun _ _ copied => .error copied
  | succ steps ih =>
    rw [evaluate, evaluate, step_eq, step_eq, bind_assoc, bind_assoc, demands_rename]
    refine (evaluateOperands_copies (fun part => ?_) (demands expr)).bind ?_
    · unfold oneLevelDown
      cases limit.descend? with
      | some lower => exact ih lower env part
      | none => exact fun _ _ copied => .error copied
    · intro vs
      refine (finish_copies env vs expr).bind ?_
      intro transition
      cases transition with
      | done v => exact copies_pure _ v
      | tail expr' env' => exact ih limit env' expr'

end Schemelet
