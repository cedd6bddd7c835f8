import Schemelet.Proofs.Evaluation.OwnFrame
import Schemelet.Session

/-! The calls of a session. Each of them, successful or failing, writes to the global frame only and
removes nothing from it, and so does every sequence of calls. -/

namespace Schemelet

theorem evaluate_changesOnly (steps : Nat) (limit : Limit) (env : FrameId) (expr : Value)
    (s : Store) : s.ChangesOnly env (finalState (evaluate steps limit env expr s)) := by
  have covers : limit.Covers fun _ => True := ⟨trivial, .inr trivial⟩
  exact changesOnly_of_runs (evaluate_runs steps covers env expr s)

theorem evaluate_keeps (steps : Nat) (limit : Limit) (env : FrameId) {expr : Value}
    (free : expr.mentions "define" = false) (s : Store) :
    s.Keeps (finalState (evaluate steps limit env expr s)) := by
  have covers : limit.Covers fun _ => True := ⟨trivial, .inr trivial⟩
  exact keeps_of_runs (evaluate_runs steps covers env expr s) free

namespace Session

def Confined {α : Type} (x : SessionM α) : Prop :=
  ∀ s : Store, s.ChangesOnly Store.globalFrame (finalState (x s))

namespace Confined

variable {α β : Type}

theorem pure (a : α) : Confined (pure a : SessionM α) := fun s => .refl _ s

theorem throw (e : Failure) : Confined (throw e : SessionM α) := fun s => .refl _ s

theorem bind {x : SessionM α} {f : α → SessionM β} (first : Confined x)
    (rest : ∀ a, Confined (f a)) : Confined (x >>= f) := by
  intro s
  have change := first s
  rw [bind_apply]
  cases run : x s with
  | ok a s₁ =>
    rw [run] at change
    exact change.trans (rest a s₁)
  | error e s₁ =>
    rw [run] at change
    exact change

end Confined

theorem confined_evaluate (limits : Limits) (expr : Value) : Confined (evaluate limits expr) := by
  intro s
  have change := evaluate_changesOnly limits.steps limits.evaluating Store.globalFrame expr s
  unfold evaluate EStateM.adaptExcept
  cases run : Schemelet.evaluate limits.steps limits.evaluating Store.globalFrame expr s with
  | ok v s₁ =>
    rw [run] at change
    exact change
  | error h s₁ =>
    rw [run] at change
    exact change

theorem confined_eval (limits : Limits) (source : String) : Confined (eval limits source) := by
  unfold eval
  cases readOne limits.reading source with
  | ok expr => exact confined_evaluate limits expr
  | error e => exact .throw _

theorem confined_evaluateAll (limits : Limits) (last : Value) (exprs : List Value) :
    Confined (evaluateAll limits last exprs) := by
  induction exprs generalizing last with
  | nil => exact .pure last
  | cons expr exprs ih => exact (confined_evaluate limits expr).bind ih

theorem confined_evalSource (limits : Limits) (source : String) :
    Confined (evalSource limits source) := by
  refine (confined_evaluateAll limits .unspecified _).bind ?_
  intro v
  cases (readAll limits.reading source).fault with
  | none => exact .pure v
  | some e => exact .throw _

theorem confined_load (limits : Limits) (files : Files) (path : Path) :
    Confined (load limits files path) := by
  unfold load
  cases readText files path with
  | ok source => exact confined_evalSource limits source
  | error e => exact .throw e

theorem confined_read (limits : Limits) (source : String) : Confined (read limits source) := by
  unfold read
  cases readOne limits.reading source with
  | ok expr => exact .pure expr
  | error e => exact .throw _

inductive Call where
  | read (source : String)
  | evaluate (expr : Value)
  | eval (source : String)
  | evalSource (source : String)
  | load (files : Files) (path : Path)

namespace Call

def run (limits : Limits) : Call → SessionM Value
  | .read source => Session.read limits source
  | .evaluate expr => Session.evaluate limits expr
  | .eval source => Session.eval limits source
  | .evalSource source => Session.evalSource limits source
  | .load files path => Session.load limits files path

theorem confined_run (limits : Limits) (call : Call) : Confined (call.run limits) := by
  cases call with
  | read source => exact confined_read limits source
  | evaluate expr => exact confined_evaluate limits expr
  | eval source => exact confined_eval limits source
  | evalSource source => exact confined_evalSource limits source
  | load files path => exact confined_load limits files path

def storeAfter : List (Limits × Call) → Store → Store
  | [], s => s
  | (limits, call) :: calls, s => storeAfter calls (finalState (call.run limits s))

theorem storeAfter_append (earlier later : List (Limits × Call)) (s : Store) :
    storeAfter (earlier ++ later) s = storeAfter later (storeAfter earlier s) := by
  induction earlier generalizing s with
  | nil => rfl
  | cons call calls ih => exact ih (finalState (call.2.run call.1 s))

theorem storeAfter_changesOnly (calls : List (Limits × Call)) (s : Store) :
    s.ChangesOnly Store.globalFrame (storeAfter calls s) := by
  induction calls generalizing s with
  | nil => exact .refl _ s
  | cons call calls ih => exact (confined_run call.1 call.2 s).trans (ih _)

end Call

end Session

/-- Evaluation writes to its own frame only, without definitions to none at all, and so the calls of
a session leave every frame that exists between two of them as it is, the global one apart. -/
theorem evaluation_writes_own_frame :
    (∀ (steps : Nat) (limit : Limit) (env : FrameId) (expr : Value) (s : Store),
      s.ChangesOnly env (finalState (evaluate steps limit env expr s)) ∧
        (expr.mentions "define" = false →
          s.Keeps (finalState (evaluate steps limit env expr s)))) ∧
      ∀ (earlier later : List (Limits × Session.Call)) (s : Store),
        (Session.Call.storeAfter earlier s).ChangesOnly Store.globalFrame
          (Session.Call.storeAfter (earlier ++ later) s) := by
  refine ⟨?_, ?_⟩
  · intro steps limit env expr s
    exact ⟨evaluate_changesOnly steps limit env expr s,
      fun free => evaluate_keeps steps limit env free s⟩
  · intro earlier later s
    rw [Session.Call.storeAfter_append]
    exact Session.Call.storeAfter_changesOnly later _

/-- A call of a closure with a frame of its own, under a limit that the body exceeds. -/
theorem cut_call_keeps_frames :
    let call : Value := .ofList
      [.ofList [.symbol "lambda", .ofList [.symbol "x"],
        .ofList [.symbol "car", .ofList [.symbol "x"]]], .empty]
    call.mentions "define" = false ∧
      Store.initial.Keeps
        (finalState (evaluate 9 (.atMost 1) Store.globalFrame call Store.initial)) :=
  ⟨by decide,
    (evaluation_writes_own_frame.1 9 (.atMost 1) Store.globalFrame _ Store.initial).2 (by decide)⟩

end Schemelet
