import Schemelet.Proofs.Evaluation.Fault
import Schemelet.Proofs.Evaluation.Nesting
import Schemelet.Proofs.Evaluation.OwnFrame
import Schemelet.Proofs.Store.Binding
import Schemelet.Proofs.Value.Procedure

/-! Invariants of evaluation. An invariant says which values a store may hold, which expressions may
be evaluated and in which frames. What it has to satisfy is about single values and expressions; it
then holds of every run, wherever that is cut short, and wherever a run takes a step. -/

namespace Schemelet

/-- The first argument of a property is the number of frames; more frames never break it. -/
structure Invariant where
  /-- Frames in which expressions are evaluated. -/
  scope : Nat → FrameId → Prop
  /-- Frames of the store, by their number and apart from their values. -/
  frame : FrameId → Frame → Prop
  /-- Procedures, wherever they are found. -/
  procedure : Nat → Value → Prop
  /-- Expressions, apart from the procedures in them. -/
  code : Nat → Value → Prop
  error : Nat → EvalError → Prop
  scope_mono : ∀ {m n : Nat} {id : FrameId}, m ≤ n → scope m id → scope n id
  scope_new : ∀ n : Nat, scope (n + 1) n
  frame_define : ∀ {id : FrameId} {f : Frame} (name : String) (v : Value), frame id f →
    frame id (f.define name v)
  frame_new : ∀ {n : Nat} {outer : FrameId} (items : List (String × Value)), scope n outer →
    frame n (.ofBindings (some outer) items)
  procedure_mono : ∀ {m n : Nat} {p : Value}, m ≤ n → procedure m p → procedure n p
  procedure_closure : ∀ {n : Nat} {env : FrameId} {operands list body : Value}
    {bodies : List Value} {params : List String}, scope n env →
    code n (.pair (.symbol "lambda") operands) → operands.toList? = some (list :: body :: bodies) →
    list.toList? = some (params.map .symbol) → params.Nodup →
    procedure n (.closure params (Form.closureBody (body :: bodies)) env)
  code_mono : ∀ {m n : Nat} {e : Value}, m ≤ n → code m e → code n e
  code_operator : ∀ {n : Nat} {operator operands : Value}, code n (.pair operator operands) →
    (∀ form : Form, operator ≠ .symbol form.name) → code n operator
  code_operand : ∀ {n : Nat} {operator operands e : Value}, code n (.pair operator operands) →
    e ∈ operands.elements → code n e
  /-- A closure may be entered. -/
  entry : ∀ {n : Nat} {params : List String} {body : Value} {frame : FrameId},
    procedure n (.closure params body frame) → scope n frame ∧ code n body
  error_of_faults : ∀ {n : Nat} {env : FrameId} {vs : List Value} {s : Store} {e : Value}
    {fault : EvalError}, code n e → (∀ p ∈ e.procedures, procedure n p) →
    (∀ v ∈ vs, ∀ p ∈ v.procedures, procedure n p) → Faults env vs s e fault → error n fault

namespace Invariant

variable {I : Invariant} {cut : Halt → Prop}

def value (I : Invariant) (n : Nat) (v : Value) : Prop := ∀ p ∈ v.procedures, I.procedure n p

def expr (I : Invariant) (n : Nat) (e : Value) : Prop := I.code n e ∧ I.value n e

theorem value_mono {m n : Nat} {v : Value} (le : m ≤ n) (ok : I.value m v) : I.value n v := by
  intro p member
  exact I.procedure_mono le (ok p member)

theorem expr_mono {m n : Nat} {e : Value} (le : m ≤ n) (ok : I.expr m e) : I.expr n e :=
  ⟨I.code_mono le ok.1, value_mono le ok.2⟩

theorem value_pair {n : Nat} {a d : Value} : I.value n (.pair a d) ↔ I.value n a ∧ I.value n d :=
  List.forall_mem_append

theorem value_of_mem_elements {n : Nat} {v w : Value} (ok : I.value n w) (member : v ∈ w.elements) :
    I.value n v := by
  intro p inside
  exact ok p (Value.mem_procedures_of_mem_elements member inside)

theorem value_unspecified (n : Nat) : I.value n .unspecified := List.forall_mem_nil _

theorem value_bool (n : Nat) (b : Bool) : I.value n (.bool b) := List.forall_mem_nil _

theorem value_number (n : Nat) (x : Number) : I.value n (.number x) := List.forall_mem_nil _

theorem value_closure {n : Nat} {env : FrameId} {operands list body : Value} {bodies : List Value}
    {params : List String} (inScope : I.scope n env)
    (ok : I.expr n (.pair (.symbol "lambda") operands))
    (shape : operands.toList? = some (list :: body :: bodies))
    (parameters : list.toList? = some (params.map .symbol)) (distinct : params.Nodup) :
    I.value n (.closure params (Form.closureBody (body :: bodies)) env) := by
  have made := I.procedure_closure inScope ok.1 shape parameters distinct
  refine List.forall_mem_cons.mpr ⟨made, ?_⟩
  intro p inside
  obtain ⟨v, member, found⟩ := Value.mem_procedures_closureBody inside
  have operand := Value.mem_procedures_of_toList? shape (List.mem_cons_of_mem _ member) found
  exact ok.2 p (List.mem_append_right _ operand)

theorem expr_operator {n : Nat} {operator operands : Value}
    (ok : I.expr n (.pair operator operands))
    (plain : ∀ form : Form, operator ≠ .symbol form.name) : I.expr n operator :=
  ⟨I.code_operator ok.1 plain, (value_pair.mp ok.2).1⟩

theorem expr_operand {n : Nat} {operator operands e : Value}
    (ok : I.expr n (.pair operator operands)) (member : e ∈ operands.elements) : I.expr n e :=
  ⟨I.code_operand ok.1 member, value_of_mem_elements (value_pair.mp ok.2).2 member⟩

theorem scope_and_expr_of_closure {n : Nat} {params : List String} {body : Value} {frame : FrameId}
    (ok : I.value n (.closure params body frame)) : I.scope n frame ∧ I.expr n body := by
  obtain ⟨entered, code⟩ := I.entry (ok _ List.mem_cons_self)
  exact ⟨entered, code, fun p inside => ok p (List.mem_cons_of_mem _ inside)⟩

structure Holds (I : Invariant) (s : Store) : Prop where
  frames : ∀ (id : FrameId) (f : Frame), s.frames[id]? = some f → I.frame id f
  values : ∀ (name : String) (v : Value), s.Binds name v → I.value s.frames.size v

theorem Holds.value_of_mem {s : Store} (holds : I.Holds s) {v : Value} (member : v ∈ s.values) :
    I.value s.frames.size v := by
  obtain ⟨name, bound⟩ := Store.mem_values_iff.mp member
  exact holds.values name v bound

theorem Holds.define {s : Store} (holds : I.Holds s) (id : FrameId) (name : String) {v : Value}
    (ok : I.value s.frames.size v) : I.Holds (s.define id name v) := by
  constructor
  · intro id' g found
    rcases Store.frame_of_define found with same | ⟨f, old, rfl⟩
    · exact holds.frames id' g same
    · exact I.frame_define name v (holds.frames id' f old)
  · intro word w bound
    rw [Store.size_define]
    rcases Store.binds_of_define bound with old | ⟨-, rfl⟩
    · exact holds.values word w old
    · exact ok

theorem Holds.allocate {s : Store} (holds : I.Holds s) {outer : FrameId}
    {items : List (String × Value)} (inScope : I.scope s.frames.size outer)
    (ok : ∀ item ∈ items, I.value s.frames.size item.2) :
    I.Holds (s.allocate (.ofBindings (some outer) items)).2 := by
  constructor
  · intro id g found
    rcases Store.frame_of_allocate found with old | ⟨rfl, rfl⟩
    · exact holds.frames id g old
    · exact I.frame_new items inScope
  · intro word w bound
    rw [Store.size_allocate]
    apply value_mono (Nat.le_succ _)
    rcases Store.binds_of_allocate bound with old | new
    · exact holds.values word w old
    · exact ok _ (Frame.mem_ofBindings new)

/-- How a computation may end: what it leaves keeps the invariant, and so does its result, in the
given sense, or its error. -/
def Allows (I : Invariant) {α : Type} (P : Nat → α → Prop) : EStateM.Result Halt Store α → Prop
  | .ok a s => I.Holds s ∧ P s.frames.size a
  | .error h s => I.Holds s ∧ ∀ e, h = .error e → I.error s.frames.size e

def values (I : Invariant) (n : Nat) (vs : List Value) : Prop := ∀ v ∈ vs, I.value n v

def transition (I : Invariant) (n : Nat) : Transition → Prop
  | .done v => I.value n v
  | .tail expr env => I.scope n env ∧ I.expr n expr

theorem Allows.of_error {α β : Type} {P : Nat → α → Prop} {Q : Nat → β → Prop} {h : Halt}
    {s : Store} (allowed : I.Allows P (.error h s)) : I.Allows Q (.error h s) := allowed

theorem value_headD {n : Nat} {vs : List Value} (ok : I.values n vs) :
    I.value n (vs.headD .unspecified) := by
  cases vs with
  | nil => exact value_unspecified n
  | cons v vs => exact ok v List.mem_cons_self

theorem value_onNumbers {n : Nat} {p : Primitive} {f : Number → Number → Value} {v w r : Value}
    (made : ∀ x y, I.value n (f x y)) (run : p.onNumbers f v w = .ok r) : I.value n r := by
  cases v with
  | number x =>
    cases w with
    | number y =>
      cases run
      exact made x y
    | _ => cases run
  | _ => cases run

theorem value_onPair {n : Nat} {p : Primitive} {f : Value → Value → Value} {v r : Value}
    (made : ∀ a d, I.value n (.pair a d) → I.value n (f a d)) (ok : I.value n v)
    (run : p.onPair f v = .ok r) : I.value n r := by
  cases v with
  | pair a d =>
    cases run
    exact made a d ok
  | _ => cases run

/-- Primitives make no procedures: what they return are parts of their arguments, pairs of them,
numbers and truth values. -/
theorem value_run {n : Nat} {p : Primitive} {args : List Value} {v : Value}
    (ok : I.values n args) (run : p.run args = .ok v) : I.value n v := by
  unfold Primitive.run at run
  split at run
  case h_1 | h_2 | h_3 | h_4 => exact value_onNumbers (fun x y => value_number n _) run
  case h_5 | h_6 | h_7 | h_8 | h_9 => exact value_onNumbers (fun x y => value_bool n _) run
  case h_10 | h_14 | h_15 =>
    cases run
    exact value_bool n _
  case h_11 a d =>
    cases run
    exact value_pair.mpr ⟨ok a (by simp), ok d (by simp)⟩
  case h_12 w =>
    exact value_onPair (fun a d both => (value_pair.mp both).1) (ok w (by simp)) run
  case h_13 w =>
    exact value_onPair (fun a d both => (value_pair.mp both).2) (ok w (by simp)) run
  case h_16 => cases run

theorem expr_demands {n : Nat} {expr part : Value} (ok : I.expr n expr)
    (member : part ∈ demands expr) : I.expr n part := by
  cases expr with
  | pair operator operands =>
    rcases form_or_plain operator with ⟨form, rfl⟩ | plain
    · rw [demands_form] at member
      exact expr_operand ok (mem_elements_of_mem_demands member)
    · rw [demands_application plain, List.mem_cons] at member
      rcases member with rfl | member
      · exact expr_operator ok plain
      · exact expr_operand ok member
  | _ => simp [demands] at member

theorem Holds.finish {s : Store} (holds : I.Holds s) {env : FrameId} {vs : List Value}
    {expr : Value} (inScope : I.scope s.frames.size env) (ok : I.expr s.frames.size expr)
    (demanded : I.values s.frames.size vs) : I.Allows I.transition (finish env vs expr s) := by
  cases result : Schemelet.finish env vs expr s with
  | error h s' =>
    obtain ⟨e, rfl, fault⟩ := faults_of_finish result
    rw [eq_of_fails result]
    refine ⟨holds, ?_⟩
    intro e' same
    cases same
    exact I.error_of_faults ok.1 ok.2 demanded fault
  | ok transition s' =>
    have finishes := finish_finishes env vs s expr
    rw [result] at finishes
    cases finishes with
    | constant => exact ⟨holds, ok.2⟩
    | «variable» bound => exact ⟨holds, holds.values _ _ (Store.binds_of_lookup? bound)⟩
    | @quoted operands v shape =>
      refine ⟨holds, (expr_operand ok ?_).2⟩
      rw [Value.elements_of_toList? shape]
      exact List.mem_cons_self
    | unspecified => exact ⟨holds, value_unspecified _⟩
    | closure shape parameters distinct =>
      exact ⟨holds, value_closure inScope ok shape parameters distinct⟩
    | define =>
      refine ⟨holds.define env _ (value_headD demanded), value_unspecified _⟩
    | part member => exact ⟨holds, inScope, expr_operand ok member⟩
    | primitive values run =>
      refine ⟨holds, value_run (fun w member => demanded w ?_) run⟩
      rw [values]
      exact List.mem_cons_of_mem _ member
    | @call _ _ body params frame args values count =>
      subst values
      obtain ⟨entered, bodyOk⟩ := scope_and_expr_of_closure (demanded _ List.mem_cons_self)
      refine ⟨holds.allocate entered ?_, ?_, ?_⟩
      · intro item member
        exact demanded _ (List.mem_cons_of_mem _ (List.of_mem_zip member).2)
      · rw [Store.size_allocate]
        exact I.scope_new _
      · rw [Store.size_allocate]
        exact expr_mono (Nat.le_succ _) bodyOk

theorem allows_finish {env : FrameId} {expr : Value} {s s₁ : Store} {vs : List Value}
    (first : RunsAll cut env (demands expr) s (.ok vs s₁))
    (demanded : I.Allows I.values (.ok vs s₁))
    (inScope : I.scope s.frames.size env) (ok : I.expr s.frames.size expr) :
    I.Allows I.transition (finish env vs expr s₁) := by
  have more := (changesOnly_of_runsAll first).size_le
  exact demanded.1.finish (I.scope_mono more inScope) (expr_mono more ok) demanded.2

mutual
theorem allows_of_runs {env : FrameId} {expr : Value} {s : Store}
    {r : EStateM.Result Halt Store Value} :
    Runs cut env expr s r → (∀ e, ¬ cut (.error e)) → I.Holds s → I.scope s.frames.size env →
      I.expr s.frames.size expr → I.Allows I.value r
  | .cut cause, limits, holds, _, _ => by
    refine ⟨holds, ?_⟩
    rintro e rfl
    exact absurd cause (limits e)
  | .demandFails first, limits, holds, inScope, ok =>
    (allows_of_runsAll first limits holds inScope fun _ => expr_demands ok).of_error
  | .fails first rest, limits, holds, inScope, ok => by
    have demanded := allows_of_runsAll first limits holds inScope fun _ => expr_demands ok
    have finished := allows_finish first demanded inScope ok
    rw [rest] at finished
    exact finished
  | .done first rest, limits, holds, inScope, ok => by
    have demanded := allows_of_runsAll first limits holds inScope fun _ => expr_demands ok
    have finished := allows_finish first demanded inScope ok
    rw [rest] at finished
    exact finished
  | .tail first rest next, limits, holds, inScope, ok => by
    have demanded := allows_of_runsAll first limits holds inScope fun _ => expr_demands ok
    have finished := allows_finish first demanded inScope ok
    rw [rest] at finished
    exact allows_of_runs next limits finished.1 finished.2.1 finished.2.2

theorem allows_of_runsAll {env : FrameId} {exprs : List Value} {s : Store}
    {r : EStateM.Result Halt Store (List Value)} :
    RunsAll cut env exprs s r → (∀ e, ¬ cut (.error e)) → I.Holds s → I.scope s.frames.size env →
      (∀ expr ∈ exprs, I.expr s.frames.size expr) → I.Allows I.values r
  | .nil, _, holds, _, _ => ⟨holds, List.forall_mem_nil _⟩
  | .cons head tail, limits, holds, inScope, ok => by
    have first := allows_of_runs head limits holds inScope (ok _ List.mem_cons_self)
    have more := (changesOnly_of_runs head).size_le
    have rest := allows_of_runsAll tail limits first.1 (I.scope_mono more inScope)
      fun expr member => expr_mono more (ok expr (List.mem_cons_of_mem _ member))
    have later := (changesOnly_of_runsAll tail).size_le
    exact ⟨rest.1, List.forall_mem_cons.mpr ⟨value_mono later first.2, rest.2⟩⟩
  | .headFails head, limits, holds, inScope, ok =>
    (allows_of_runs head limits holds inScope (ok _ List.mem_cons_self)).of_error
  | .tailFails head tail, limits, holds, inScope, ok => by
    have first := allows_of_runs head limits holds inScope (ok _ List.mem_cons_self)
    have more := (changesOnly_of_runs head).size_le
    exact allows_of_runsAll tail limits first.1 (I.scope_mono more inScope)
      fun expr member => expr_mono more (ok expr (List.mem_cons_of_mem _ member))
end

structure At (I : Invariant) (c : Configuration) : Prop where
  holds : I.Holds c.store
  scope : I.scope c.store.frames.size c.env
  expr : I.expr c.store.frames.size c.expr

end Invariant

def Halt.IsCut (h : Halt) : Prop := ∀ e, h ≠ .error e

theorem covers_isCut (limit : Limit) : limit.Covers Halt.IsCut := by
  refine ⟨?_, Or.inr ?_⟩
  · intro e impossible
    cases impossible
  · intro e impossible
    cases impossible

theorem not_isCut_error (e : EvalError) : ¬ (Halt.error e).IsCut := by
  intro cut
  exact cut e rfl

/-- `c.Visits steps limit u`: with so many steps and under the limit, the evaluation of `c` comes to
take a step at `u`. It does so at its own expression, at what a step leaves in tail position, and at
the parts that a step demands, one level down and after the parts before them. -/
inductive Configuration.Visits : Configuration → Nat → Limit → Configuration → Prop where
  | here (c : Configuration) (steps : Nat) (limit : Limit) : Visits c (steps + 1) limit c
  | tail {c c' u : Configuration} {steps : Nat} {limit : Limit}
      (next : step (oneLevelDown limit (evaluate steps)) c.env c.expr c.store =
        .ok (.tail c'.expr c'.env) c'.store)
      (rest : Visits c' steps limit u) : Visits c (steps + 1) limit u
  | part {c u : Configuration} {steps : Nat} {limit lower : Limit} {earlier later vs : List Value}
      {part : Value} {s : Store} (parts : demands c.expr = earlier ++ part :: later)
      (before : evaluateOperands (oneLevelDown limit (evaluate steps)) c.env earlier c.store =
        .ok vs s)
      (down : limit.descend? = some lower) (rest : Visits ⟨c.env, part, s⟩ steps lower u) :
      Visits c (steps + 1) limit u

namespace Invariant

variable {I : Invariant} {c u : Configuration}

theorem At.evaluate (ok : I.At c) (steps : Nat) (limit : Limit) :
    I.Allows I.value (evaluate steps limit c.env c.expr c.store) :=
  allows_of_runs (evaluate_runs steps (covers_isCut limit) c.env c.expr c.store) not_isCut_error
    ok.holds ok.scope ok.expr

theorem At.evaluateBelow (ok : I.At c) (steps : Nat) (limit : Limit) :
    I.Allows I.value
      (oneLevelDown limit (Schemelet.evaluate steps) c.env c.expr c.store) :=
  allows_of_runs
    (oneLevelDown_runs (covers_isCut limit) (fun _ covers => evaluate_runs steps covers) c.env
      c.expr c.store)
    not_isCut_error ok.holds ok.scope ok.expr

theorem demands_runsAll (c : Configuration) (steps : Nat) (limit : Limit) (exprs : List Value) :
    RunsAll Halt.IsCut c.env exprs c.store
      (evaluateOperands (oneLevelDown limit (Schemelet.evaluate steps)) c.env exprs c.store) :=
  evaluateOperands_runs
    (oneLevelDown_runs (covers_isCut limit) fun _ covers => evaluate_runs steps covers)
    c.env exprs c.store

theorem At.halves (ok : I.At c) {steps : Nat} {limit : Limit} {transition : Transition} {s : Store}
    (next : step (oneLevelDown limit (Schemelet.evaluate steps)) c.env c.expr c.store =
      .ok transition s) :
    ∃ vs s₁, RunsAll Halt.IsCut c.env (demands c.expr) c.store (.ok vs s₁) ∧
      I.Allows I.values (.ok vs s₁) ∧ Schemelet.finish c.env vs c.expr s₁ = .ok transition s := by
  have first := demands_runsAll c steps limit (demands c.expr)
  rw [step_eq] at next
  cases parts : evaluateOperands (oneLevelDown limit (Schemelet.evaluate steps)) c.env
    (demands c.expr) c.store with
  | error h s =>
    rw [bind_of_error parts] at next
    cases next
  | ok vs s =>
    rw [parts] at first
    rw [bind_of_ok parts] at next
    have demanded := allows_of_runsAll first not_isCut_error ok.holds ok.scope
      fun _ => expr_demands ok.expr
    exact ⟨vs, s, first, demanded, next⟩

theorem At.tail (ok : I.At c) {steps : Nat} {limit : Limit}
    (next : step (oneLevelDown limit (Schemelet.evaluate steps)) c.env c.expr c.store =
      .ok (.tail u.expr u.env) u.store) : I.At u := by
  obtain ⟨vs, s₁, first, demanded, rest⟩ := ok.halves next
  have finished := allows_finish first demanded ok.scope ok.expr
  rw [rest] at finished
  exact ⟨finished.1, finished.2.1, finished.2.2⟩

theorem At.part (ok : I.At c) {steps : Nat} {limit : Limit} {earlier later vs : List Value}
    {part : Value} {s : Store} (parts : demands c.expr = earlier ++ part :: later)
    (before : evaluateOperands (oneLevelDown limit (Schemelet.evaluate steps)) c.env earlier
      c.store = .ok vs s) : I.At ⟨c.env, part, s⟩ := by
  have first := demands_runsAll c steps limit earlier
  rw [before] at first
  have member (expr : Value) (among : expr ∈ earlier) : expr ∈ demands c.expr := by
    rw [parts]
    exact List.mem_append_left _ among
  have demanded := allows_of_runsAll first not_isCut_error ok.holds ok.scope
    fun expr among => expr_demands ok.expr (member expr among)
  have more := (changesOnly_of_runsAll first).size_le
  refine ⟨demanded.1, I.scope_mono more ok.scope, expr_mono more (expr_demands ok.expr ?_)⟩
  rw [parts]
  exact List.mem_append_right _ List.mem_cons_self

theorem At.visited {steps : Nat} {limit : Limit} (ok : I.At c) (visit : c.Visits steps limit u) :
    I.At u := by
  induction visit with
  | here => exact ok
  | tail next rest ih => exact ih (ok.tail next)
  | part parts before down rest ih => exact ih (ok.part parts before)

end Invariant

end Schemelet
