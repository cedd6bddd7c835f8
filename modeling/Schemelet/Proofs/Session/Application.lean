import Schemelet.Proofs.Session.FrameGraph
import Schemelet.Proofs.Store.Parameters

/-! Applications over whole sessions. The parameters of every closure that a session can come to
apply are distinct, and its frame exists; so a call with the right number of arguments binds each
parameter to the argument in its place and nothing else. A primitive can take its arguments apart
exactly where their number is its arity. With any other number nothing happens but the error. -/

namespace Schemelet

/-- What a call does to the store: it adds one frame, under the frame of the closure, that binds the
parameters to the arguments in order. -/
structure CallFrame (s s' : Store) (frame : FrameId) (params : List String) (env : FrameId)
    (args : List Value) : Prop where
  new : frame = s.frames.size ∧ s'.frames.size = s.frames.size + 1
  others : s.Keeps s'
  bindings : s'.frames[frame]? = some ⟨params.zip args, some env⟩
  /-- No parameter and no argument is dropped. -/
  whole : (params.zip args).map (·.1) = params ∧ (params.zip args).map (·.2) = args
  parameter : ∀ (i : Nat) (name : String) (v : Value), params[i]? = some name → args[i]? = some v →
    s'.lookup? frame name = some v
  other : ∀ name ∉ params, s'.lookup? frame name = s.lookup? env name
  /-- The same comes of writing a table of the parameters into an empty frame. Neither making the
  table nor writing it fails. -/
  written : ∃ table, Table.ofBindings (params.zip args) = .ok table ∧
    (s.allocate ⟨[], some env⟩).2.update frame table = (none, s')

def EntersExactly (r : EStateM.Result Halt Store Transition) (s : Store) (params : List String)
    (body : Value) (env : FrameId) (args : List Value) : Prop :=
  ∃ frame s', r = .ok (.tail body frame) s' ∧ CallFrame s s' frame params env args

section

variable {s : Store} {params : List String} {env : FrameId} {args : List Value}
  (distinct : params.Nodup) (count : args.length = params.length)

include distinct count

theorem nodup_names_zip : ((params.zip args).map (·.1)).Nodup := by
  rw [List.map_fst_zip (Nat.le_of_eq count.symm)]
  exact distinct

theorem callFrame_allocate (earlier : env < s.frames.size) :
    CallFrame s (s.allocate ⟨params.zip args, some env⟩).2 s.frames.size params env args := by
  have names : (params.zip args).map (·.1) = params := List.map_fst_zip (Nat.le_of_eq count.symm)
  have values : (params.zip args).map (·.2) = args := List.map_snd_zip (Nat.le_of_eq count)
  have once := nodup_names_zip distinct count
  refine ⟨⟨rfl, s.size_allocate _⟩, s.keeps_allocate _, by simp [Store.allocate], ⟨names, values⟩,
    ?_, ?_, ?_⟩
  · intro i name v named given
    have member : (name, v) ∈ params.zip args := by
      apply List.mem_of_getElem?
      exact List.getElem?_zip_eq_some.mpr ⟨named, given⟩
    rw [Store.lookup?_new rfl earlier, Frame.get?_of_mem once member]
    rfl
  · intro name other
    have unbound : (Frame.mk (params.zip args) (some env)).get? name = none := by
      rw [← Option.not_isSome_iff_eq_none, Frame.get?_isSome_iff, Frame.names, names]
      exact other
    rw [Store.lookup?_new rfl earlier, unbound]
    rfl
  · refine ⟨_, Table.ofBindings_of_distinct once, ?_⟩
    rw [Store.update_symbols, Store.foldl_define_allocate, Frame.foldl_define_of_distinct]
    · rfl
    · exact once

theorem entersExactly (body : Value) (earlier : env < s.frames.size) :
    EntersExactly (apply (.closure params body env) args s) s params body env args := by
  refine ⟨s.frames.size, _, ?_, callFrame_allocate distinct count earlier⟩
  rw [apply, if_pos count, bindParameters,
    Frame.ofBindings_of_distinct _ (nodup_names_zip distinct count)]
  rfl

end

namespace Primitive

def TakesApart (p : Primitive) (args : List Value) : Prop :=
  ∀ e, p.run args = .error e → e.kind ≠ .arityMismatch

theorem kind_of_onNumbers {p : Primitive} {f : Number → Number → Value} {v w : Value}
    {e : EvalError} (run : p.onNumbers f v w = .error e) : e.kind = .wrongType := by
  unfold onNumbers at run
  split at run
  case h_1 => cases run
  all_goals
    cases run
    rfl

theorem kind_of_onPair {p : Primitive} {f : Value → Value → Value} {v : Value} {e : EvalError}
    (run : p.onPair f v = .error e) : e.kind = .wrongType := by
  unfold onPair at run
  split at run
  · cases run
  · cases run
    rfl

/-- With as many arguments as its arity, a primitive can only find that one is of a wrong type. -/
theorem kind_of_run {p : Primitive} {args : List Value} {e : EvalError}
    (count : args.length = p.arity) (run : p.run args = .error e) : e.kind = .wrongType := by
  cases p with
  | not | isNull | isPair =>
    match args, count with
    | [_], _ => cases run
  | car | cdr =>
    match args, count with
    | [_], _ => exact kind_of_onPair run
  | cons =>
    match args, count with
    | [_, _], _ => cases run
  | _ =>
    match args, count with
    | [_, _], _ => exact kind_of_onNumbers run

theorem takesApart_iff {p : Primitive} {args : List Value} :
    p.TakesApart args ↔ args.length = p.arity := by
  constructor
  · intro apart
    by_cases count : args.length = p.arity
    · exact count
    · exact absurd rfl (apart _ (run_arity count))
  · intro count e run
    rw [kind_of_run count run]
    decide

end Primitive

section

variable (s : Store) {args : List Value}

theorem apply_primitive_ok {p : Primitive} {v : Value} (run : p.run args = .ok v) :
    apply (.primitive p) args s = .ok (.done v) s := by
  rw [apply, run]
  rfl

theorem apply_primitive_error {p : Primitive} {e : EvalError} (run : p.run args = .error e) :
    apply (.primitive p) args s = .error (.error e) s := by
  rw [apply, run]
  rfl

theorem apply_closure_error {params : List String} (count : args.length ≠ params.length)
    (body : Value) (env : FrameId) :
    apply (.closure params body env) args s =
      .error (.error (.arityMismatch (Value.closureText params) params.length args.length)) s := by
  rw [apply, if_neg count]
  rfl

end

open Session

theorem Invariant.At.earlier_and_distinct {u : Configuration} (ok : frameGraph.At u) {steps : Nat}
    {limit : Limit} {params : List String} {body : Value} {env : FrameId} {args : List Value}
    {s₁ : Store}
    (before : evaluateOperands (oneLevelDown limit (Schemelet.evaluate steps)) u.env
      (demands u.expr) u.store = .ok (.closure params body env :: args) s₁) :
    env < s₁.frames.size ∧ params.Nodup := by
  have first := Invariant.demands_runsAll u steps limit (demands u.expr)
  rw [before] at first
  have demanded := Invariant.allows_of_runsAll first not_isCut_error ok.holds ok.scope
    fun _ => Invariant.expr_demands ok.expr
  exact demanded.2 _ List.mem_cons_self _ List.mem_cons_self

/-- A call in every state of a session, of a closure that was taken from it or that an evaluation
comes to apply: it enters the body with exactly the parameters bound, if their number is right. A
primitive can take apart what it is given exactly where the number is right, and then finds at most
a wrong type. Where the number is wrong, the error says what was expected and what was given, and
the store is as it was. -/
theorem application_binds_exactly {state : State} (reached : State.Reached state) :
    (∀ v ∈ state.seen, ∀ (params : List String) (body : Value) (env : FrameId) (args : List Value),
      .closure params body env ∈ v.procedures → args.length = params.length →
        EntersExactly (apply (.closure params body env) args state.store) state.store params body
          env args) ∧
      (∀ (limits : Limits) (call : Call), state.Permits call →
        ∀ u : Configuration, call.Visits limits state.store u →
          ∀ (operator operands : Value) (steps : Nat) (limit : Limit) (params : List String)
            (body : Value) (env : FrameId) (args : List Value) (s₁ : Store),
            u.expr = .pair operator operands → (∀ form : Form, operator ≠ .symbol form.name) →
            evaluateOperands (oneLevelDown limit (evaluate steps)) u.env
              (operator :: operands.elements) u.store =
                .ok (.closure params body env :: args) s₁ →
            args.length = params.length →
              EntersExactly (step (oneLevelDown limit (evaluate steps)) u.env u.expr u.store) s₁
                params body env args) ∧
      (∀ (p : Primitive) (args : List Value) (s : Store),
        (p.TakesApart args ↔ args.length = p.arity) ∧
          (args.length = p.arity →
            (∃ v, p.run args = .ok v ∧ apply (.primitive p) args s = .ok (.done v) s) ∨
              ∃ e, e.kind = .wrongType ∧ apply (.primitive p) args s = .error (.error e) s) ∧
          (args.length ≠ p.arity →
            apply (.primitive p) args s =
              .error (.error (.arityMismatch p.name p.arity args.length)) s)) ∧
      ∀ (params : List String) (body : Value) (env : FrameId) (args : List Value) (s : Store),
        args.length ≠ params.length →
          apply (.closure params body env) args s =
            .error (.error (.arityMismatch (Value.closureText params) params.length args.length))
              s := by
  have ok := reached.inOrder
  refine ⟨?_, ?_, ?_, ?_⟩
  · intro v taken params body env args inside count
    obtain ⟨earlier, distinct⟩ := ok.seen v taken _ inside
    exact entersExactly distinct count body earlier
  · intro limits call permitted u visit operator operands steps limit params body env args s₁ shape
      plain before count
    have visited :=
      Invariant.at_visited frameGraph_reads ok.between limits (ok.given permitted) visit
    rw [← demands_application plain, ← shape] at before
    obtain ⟨earlier, distinct⟩ := visited.earlier_and_distinct before
    rw [step_eq, bind_of_ok before, shape, finish_application plain]
    exact entersExactly distinct count body earlier
  · intro p args s
    refine ⟨Primitive.takesApart_iff, ?_, ?_⟩
    · intro count
      cases run : p.run args with
      | ok v => exact Or.inl ⟨v, rfl, apply_primitive_ok s run⟩
      | error e => exact Or.inr ⟨e, Primitive.kind_of_run count run, apply_primitive_error s run⟩
    · intro count
      exact apply_primitive_error s (Primitive.run_arity count)
  · intro params body env args s count
    exact apply_closure_error s count body env

theorem inner_parameter_bound :
    let source := "((lambda (x) (lambda (x y) (cons x y))) #t)"
    let closure : Value := .closure ["x", "y"]
      (.ofList [.symbol "cons", .symbol "x", .symbol "y"]) 1
    let state := State.new.after ⟨9, .unlimited, .atMost 3⟩ (.evalSource source)
    State.Reached state ∧ closure ∈ state.seen ∧ state.store.lookup? 1 "x" = some (.bool true) ∧
      EntersExactly (apply closure [.empty, .bool false] state.store) state.store ["x", "y"]
        (.ofList [.symbol "cons", .symbol "x", .symbol "y"]) 1 [.empty, .bool false] := by
  intro source closure state
  have text : State.new.Permits (.evalSource source) := trivial
  have reached : State.Reached state := State.Reached.new.call _ text
  have taken : closure ∈ state.seen := by decide +kernel
  have outside : state.store.lookup? 1 "x" = some (.bool true) := by decide +kernel
  exact ⟨reached, taken, outside,
    (application_binds_exactly reached).1 closure taken _ _ _ _ List.mem_cons_self rfl⟩

end Schemelet
