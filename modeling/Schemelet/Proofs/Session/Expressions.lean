import Schemelet.Proofs.Evaluation.Invariant
import Schemelet.Proofs.Reader.Tree
import Schemelet.Proofs.Session.Calls

/-! Calls as lists of expressions. A call reads, evaluates what it has read in order, and then only
decides how it ends. So an invariant of evaluation that everything read has is one of all calls. -/

namespace Schemelet

def SessionM.ofExcept {α : Type} : Except Failure α → SessionM α
  | .ok a => pure a
  | .error e => throw e

theorem Failure.ofReading_ne_halt (e : ReadError) (h : Halt) : ofReading e ≠ .halt h := by
  cases e <;> simp [ofReading]

namespace Session

def sourceVerdict (limits : Limits) (source : String) (v : Value) : Except Failure Value :=
  match (readAll limits.reading source).fault with
  | none => .ok v
  | some e => .error (.read e)

theorem error_of_readText {files : Files} {path : Path} {e : Failure}
    (fails : readText files path = .error e) :
    (∃ fault, e = .file path fault ∧ files path = .error fault) ∨ ∃ fault, e = .encoding fault := by
  unfold readText at fails
  split at fails
  · rename_i fault unopened
    cases fails
    exact Or.inl ⟨fault, rfl, unopened⟩
  · split at fails
    · rename_i fault undecoded
      cases fails
      exact Or.inr ⟨fault, rfl⟩
    · cases fails

namespace Call

/-- The expressions that a call evaluates, one after the other up to the first that fails. -/
def expressions (limits : Limits) : Call → List Value
  | .read _ => []
  | .evaluate expr => [expr]
  | .eval source =>
    match readOne limits.reading source with
    | .ok expr => [expr]
    | .error _ => []
  | .evalSource source => (readAll limits.reading source).values
  | .load files path =>
    match readText files path with
    | .ok source => (readAll limits.reading source).values
    | .error _ => []

def verdict (limits : Limits) (v : Value) : Call → Except Failure Value
  | .read source =>
    match readOne limits.reading source with
    | .ok expr => .ok expr
    | .error e => .error (.ofReading e)
  | .evaluate _ => .ok v
  | .eval source =>
    match readOne limits.reading source with
    | .ok _ => .ok v
    | .error e => .error (.read e)
  | .evalSource source => sourceVerdict limits source v
  | .load files path =>
    match readText files path with
    | .ok source => sourceVerdict limits source v
    | .error e => .error e

theorem evaluateAll_singleton (limits : Limits) (last expr : Value) :
    evaluateAll limits last [expr] = Session.evaluate limits expr := by
  rw [evaluateAll]
  exact bind_pure _

theorem evalSource_eq (limits : Limits) (source : String) :
    Session.evalSource limits source =
      evaluateAll limits .unspecified (readAll limits.reading source).values >>= fun v =>
        SessionM.ofExcept (sourceVerdict limits source v) := by
  unfold Session.evalSource sourceVerdict
  apply bind_congr
  intro v
  cases (readAll limits.reading source).fault <;> rfl

theorem run_eq (limits : Limits) (call : Call) :
    call.run limits = evaluateAll limits .unspecified (call.expressions limits) >>= fun v =>
      SessionM.ofExcept (call.verdict limits v) := by
  cases call with
  | read source =>
    simp only [run, Session.read, expressions, verdict]
    cases readOne limits.reading source <;> rfl
  | evaluate expr =>
    simp only [run, expressions, verdict, evaluateAll_singleton]
    exact (bind_pure _).symm
  | eval source =>
    simp only [run, Session.eval, expressions, verdict]
    cases readOne limits.reading source with
    | ok expr =>
      simp only [evaluateAll_singleton]
      exact (bind_pure _).symm
    | error e => rfl
  | evalSource source => exact evalSource_eq limits source
  | load files path =>
    simp only [run, Session.load, expressions, verdict]
    cases readText files path with
    | ok source => exact evalSource_eq limits source
    | error e => rfl

theorem verdict_cases (limits : Limits) (call : Call) (v : Value) :
    (∃ w, call.verdict limits v = .ok w ∧ (w = v ∨ w.isTree = true)) ∨
      ∃ e, call.verdict limits v = .error e ∧ ∀ h, e ≠ .halt h := by
  have source (text : String) :
      (∃ w, sourceVerdict limits text v = .ok w ∧ (w = v ∨ w.isTree = true)) ∨
        ∃ e, sourceVerdict limits text v = .error e ∧ ∀ h, e ≠ .halt h := by
    unfold sourceVerdict
    cases (readAll limits.reading text).fault with
    | none => exact Or.inl ⟨v, rfl, Or.inl rfl⟩
    | some e => exact Or.inr ⟨_, rfl, by simp⟩
  cases call with
  | read text =>
    simp only [verdict]
    cases read : readOne limits.reading text with
    | ok expr => exact Or.inl ⟨expr, rfl, Or.inr (isTree_of_readOne read)⟩
    | error e => exact Or.inr ⟨_, rfl, Failure.ofReading_ne_halt e⟩
  | evaluate expr => exact Or.inl ⟨v, rfl, Or.inl rfl⟩
  | eval text =>
    simp only [verdict]
    cases readOne limits.reading text with
    | ok expr => exact Or.inl ⟨v, rfl, Or.inl rfl⟩
    | error e => exact Or.inr ⟨_, rfl, by simp⟩
  | evalSource text => exact source text
  | load files path =>
    simp only [verdict]
    cases known : readText files path with
    | ok text => exact source text
    | error e =>
      refine Or.inr ⟨e, rfl, ?_⟩
      rcases error_of_readText known with ⟨fault, rfl, -⟩ | ⟨fault, rfl⟩
      · simp
      · simp

def Visits (limits : Limits) (call : Call) (s : Store) (u : Configuration) : Prop :=
  ∃ (earlier later : List Value) (expr v : Value) (s₁ : Store),
    call.expressions limits = earlier ++ expr :: later ∧
      evaluateAll limits .unspecified earlier s = .ok v s₁ ∧
      (Configuration.mk Store.globalFrame expr s₁).Visits limits.steps limits.evaluating u

/-- In the course of the call the evaluation of an expression begins, in the global frame and after
the expressions before it. -/
def Begins (limits : Limits) (call : Call) (s : Store) (c : Configuration) : Prop :=
  c.env = Store.globalFrame ∧ ∃ (earlier later : List Value) (v : Value),
    call.expressions limits = earlier ++ c.expr :: later ∧
      evaluateAll limits .unspecified earlier s = .ok v c.store

theorem Begins.mem_expressions {limits : Limits} {call : Call} {s : Store} {c : Configuration}
    (begun : call.Begins limits s c) : c.expr ∈ call.expressions limits := by
  obtain ⟨-, earlier, later, v, split, -⟩ := begun
  rw [split]
  exact List.mem_append_right _ List.mem_cons_self

end Call

end Session

namespace Invariant

open Session

variable {I : Invariant} {s : Store}

def Admits (I : Invariant) : EStateM.Result Failure Store Value → Prop
  | .ok v s => I.Holds s ∧ I.value s.frames.size v
  | .error e s => I.Holds s ∧ ∀ fault, e = .halt (.error fault) → I.error s.frames.size fault

theorem Admits.holds {r : EStateM.Result Failure Store Value} (admitted : I.Admits r) :
    I.Holds (finalState r) := by
  cases r with
  | ok v s => exact admitted.1
  | error e s => exact admitted.1

structure Between (I : Invariant) (s : Store) : Prop where
  holds : I.Holds s
  global : I.scope s.frames.size Store.globalFrame

theorem Between.at (between : I.Between s) {expr : Value} (ok : I.expr s.frames.size expr) :
    I.At ⟨Store.globalFrame, expr, s⟩ :=
  ⟨between.holds, between.global, ok⟩

theorem admits_evaluate (between : I.Between s) (limits : Limits) {expr : Value}
    (ok : I.expr s.frames.size expr) : I.Admits (Session.evaluate limits expr s) := by
  have allowed := (between.at ok).evaluate limits.steps limits.evaluating
  unfold Session.evaluate EStateM.adaptExcept
  cases run : Schemelet.evaluate limits.steps limits.evaluating Store.globalFrame expr s with
  | ok v s₁ =>
    rw [run] at allowed
    exact allowed
  | error h s₁ =>
    rw [run] at allowed
    refine ⟨allowed.1, ?_⟩
    intro fault same
    cases same
    exact allowed.2 fault rfl

theorem Between.after {r : EStateM.Result Failure Store Value} (between : I.Between s)
    (admitted : I.Admits r) (change : s.ChangesOnly Store.globalFrame (finalState r)) :
    I.Between (finalState r) :=
  ⟨admitted.holds, I.scope_mono change.size_le between.global⟩

theorem admits_evaluateAll (limits : Limits) {last : Value} {exprs : List Value}
    (between : I.Between s) (lastOk : I.value s.frames.size last)
    (ok : ∀ expr ∈ exprs, I.expr s.frames.size expr) :
    I.Admits (evaluateAll limits last exprs s) := by
  induction exprs generalizing s last with
  | nil => exact ⟨between.holds, lastOk⟩
  | cons expr exprs ih =>
    have first := admits_evaluate between limits (ok expr List.mem_cons_self)
    have change := confined_evaluate limits expr s
    rw [evaluateAll]
    cases run : Session.evaluate limits expr s with
    | error e s₁ =>
      rw [run] at first
      rw [bind_of_error run]
      exact first
    | ok v s₁ =>
      rw [run] at first change
      rw [bind_of_ok run]
      apply ih (between.after first change) first.2
      intro later member
      exact expr_mono change.size_le (ok later (List.mem_cons_of_mem _ member))

theorem value_of_isTree (n : Nat) {v : Value} (tree : v.isTree = true) : I.value n v := by
  intro p member
  rw [Value.procedures_of_isTree tree] at member
  cases member

section

variable (between : I.Between s) (limits : Limits) {call : Call}
  (ok : ∀ expr ∈ call.expressions limits, I.expr s.frames.size expr)

include between ok

theorem admits_call : I.Admits (call.run limits s) := by
  have evaluated := admits_evaluateAll limits between (value_unspecified _) ok
  rw [Call.run_eq]
  cases run : evaluateAll limits .unspecified (call.expressions limits) s with
  | error e s₁ =>
    rw [run] at evaluated
    rw [bind_of_error run]
    exact evaluated
  | ok v s₁ =>
    rw [run] at evaluated
    rw [bind_of_ok run]
    rcases Call.verdict_cases limits call v with ⟨w, ends, rfl | tree⟩ | ⟨e, ends, other⟩
    · rw [ends]
      exact evaluated
    · rw [ends]
      exact ⟨evaluated.1, value_of_isTree _ tree⟩
    · rw [ends]
      refine ⟨evaluated.1, ?_⟩
      intro fault same
      exact absurd same (other _)

theorem between_call : I.Between (finalState (call.run limits s)) :=
  between.after (admits_call between limits ok) (Call.confined_run limits call s)

theorem at_begun {c : Configuration} (begun : call.Begins limits s c) : I.At c := by
  obtain ⟨env, expr, s₁⟩ := c
  obtain ⟨rfl, earlier, later, v, split, before⟩ := begun
  rw [split] at ok
  have admitted := admits_evaluateAll limits between (value_unspecified _)
    fun expr member => ok expr (List.mem_append_left _ member)
  have change := confined_evaluateAll limits .unspecified earlier s
  rw [before] at admitted change
  have next : I.expr s₁.frames.size expr :=
    expr_mono change.size_le (ok expr (List.mem_append_right _ List.mem_cons_self))
  exact (between.after admitted change).at next

end

variable (reads : ∀ (n : Nat) (v : Value), v.isTree = true → I.code n v)

include reads

theorem expr_of_isTree (n : Nat) {v : Value} (tree : v.isTree = true) : I.expr n v :=
  ⟨reads n v tree, value_of_isTree n tree⟩

theorem expr_expressions (limits : Limits) {call : Call} {n : Nat}
    (given : ∀ expr, call = .evaluate expr → I.expr n expr) :
    ∀ expr ∈ call.expressions limits, I.expr n expr := by
  intro expr member
  cases call with
  | read source => cases member
  | evaluate expr' =>
    rw [List.mem_singleton.mp member]
    exact given expr' rfl
  | eval source =>
    simp only [Call.expressions] at member
    cases read : readOne limits.reading source with
    | ok expr' =>
      rw [read] at member
      rw [List.mem_singleton.mp member]
      exact expr_of_isTree reads n (isTree_of_readOne read)
    | error e =>
      rw [read] at member
      cases member
  | evalSource source => exact expr_of_isTree reads n (isTree_of_mem_readAll expr member)
  | load files path =>
    simp only [Call.expressions] at member
    cases text : readText files path with
    | ok source =>
      rw [text] at member
      exact expr_of_isTree reads n (isTree_of_mem_readAll expr member)
    | error e =>
      rw [text] at member
      cases member

section

variable (between : I.Between s) (limits : Limits) {call : Call}
  (given : ∀ expr, call = .evaluate expr → I.expr s.frames.size expr)

include between given

theorem admits_run : I.Admits (call.run limits s) :=
  admits_call between limits (expr_expressions reads limits given)

theorem between_run : I.Between (finalState (call.run limits s)) :=
  between_call between limits (expr_expressions reads limits given)

theorem at_visited {u : Configuration} (visit : call.Visits limits s u) : I.At u := by
  obtain ⟨earlier, later, expr, v, s₁, split, before, visit⟩ := visit
  have begun : call.Begins limits s ⟨Store.globalFrame, expr, s₁⟩ :=
    ⟨rfl, earlier, later, v, split, before⟩
  exact (at_begun between limits (expr_expressions reads limits given) begun).visited visit

end

end Invariant

end Schemelet
