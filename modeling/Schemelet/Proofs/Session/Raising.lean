import Schemelet.Proofs.Evaluation.Raising
import Schemelet.Proofs.Reader.Raising
import Schemelet.Proofs.Session.Calls

/-! Sessions under higher limits. A call that exceeds no limit, neither in reading nor in
evaluation, ends in the same way under higher ones and leaves the same store, and so does every
sequence of such calls. -/

namespace Schemelet

def Failure.isTooDeep : Failure → Bool
  | .read .tooDeep | .stackExhausted | .halt .tooDeep => true
  | _ => false

namespace Session

def TooDeep {α : Type} : EStateM.Result Failure Store α → Prop
  | .ok _ _ => False
  | .error e _ => e.isTooDeep = true

instance {α : Type} : DecidablePred (TooDeep (α := α))
  | .ok _ _ => .isFalse id
  | .error e _ => inferInstanceAs (Decidable (e.isTooDeep = true))

def Raised {α : Type} (x y : SessionM α) : Prop := ∀ s, TooDeep (x s) ∨ y s = x s

namespace Raised

variable {α β : Type}

theorem refl (x : SessionM α) : Raised x x := by
  intro s
  exact Or.inr rfl

theorem throw {e : Failure} (deep : e.isTooDeep = true) (y : SessionM α) : Raised (throw e) y := by
  intro s
  exact Or.inl deep

theorem bind {x y : SessionM α} {f g : α → SessionM β} (first : Raised x y)
    (rest : ∀ a, Raised (f a) (g a)) : Raised (x >>= f) (y >>= g) := by
  intro s
  rw [bind_apply, bind_apply]
  rcases first s with deep | same
  · left
    cases run : x s with
    | ok a s₁ =>
      rw [run] at deep
      exact deep.elim
    | error e s₁ =>
      rw [run] at deep
      exact deep
  · rw [same]
    cases x s with
    | ok a s₁ => exact rest a s₁
    | error e s₁ => exact Or.inr rfl

end Raised

variable {limits higher : Limits}

theorem evaluate_raised (le : limits.Le higher) (expr : Value) :
    Raised (evaluate limits expr) (evaluate higher expr) := by
  intro s
  have approximates := Schemelet.evaluate_raised limits.steps le.evaluating Store.globalFrame expr s
  unfold evaluate EStateM.adaptExcept
  rw [← le.steps]
  rcases approximates with ⟨h, s', deep, run⟩ | same
  · left
    rw [run, deep]
    rfl
  · right
    rw [same]

theorem readOne_raised (le : limits.Le higher) (source : String) {f g : Value → SessionM Value}
    {fault : ReadError → Failure} (deep : (fault .tooDeep).isTooDeep = true)
    (next : ∀ v, Raised (f v) (g v)) :
    Raised
      (match readOne limits.reading source with
        | .ok v => f v
        | .error e => throw (fault e))
      (match readOne higher.reading source with
        | .ok v => g v
        | .error e => throw (fault e)) := by
  rcases Reader.readSingle_raised le.reading (Token.ofSource source) with stopped | same
  · rw [show readOne limits.reading source = .error .tooDeep from stopped]
    exact .throw deep _
  · rw [show readOne higher.reading source = readOne limits.reading source from same]
    cases readOne limits.reading source with
    | ok v => exact next v
    | error e => exact .refl _

theorem evaluateAll_raised (le : limits.Le higher) (last : Value) (exprs : List Value) :
    Raised (evaluateAll limits last exprs) (evaluateAll higher last exprs) := by
  induction exprs generalizing last with
  | nil => exact .refl _
  | cons expr exprs ih => exact (evaluate_raised le expr).bind ih

theorem evaluateAll_append (limits : Limits) (last : Value) (exprs more : List Value) :
    evaluateAll limits last (exprs ++ more) =
      evaluateAll limits last exprs >>= fun v => evaluateAll limits v more := by
  induction exprs generalizing last with
  | nil => rfl
  | cons expr exprs ih =>
    rw [List.cons_append, evaluateAll, evaluateAll, bind_assoc]
    congr 1
    funext v
    exact ih v

theorem evalSource_raised (le : limits.Le higher) (source : String) :
    Raised (evalSource limits source) (evalSource higher source) := by
  rcases Reader.readAll_raised le.reading (Token.ofSource source) with ⟨deep, more, split⟩ | same
  · -- What is read under the lower limit is evaluated first, and if that ends well, it is too deep.
    have fault : (readAll limits.reading source).fault = some .tooDeep := deep
    have values : (readAll higher.reading source).values =
        (readAll limits.reading source).values ++ more := split.symm
    simp only [evalSource, fault, values, evaluateAll_append, bind_assoc]
    refine (evaluateAll_raised le .unspecified _).bind ?_
    intro v
    exact .throw rfl _
  · have reading : readAll higher.reading source = readAll limits.reading source := same
    simp only [evalSource, reading]
    refine (evaluateAll_raised le .unspecified _).bind ?_
    intro v
    exact .refl _

theorem load_raised (le : limits.Le higher) (files : Files) (path : Path) :
    Raised (load limits files path) (load higher files path) := by
  unfold load
  cases readText files path with
  | ok source => exact evalSource_raised le source
  | error e => exact .refl _

namespace Call

theorem run_raised (le : limits.Le higher) (call : Call) :
    Raised (call.run limits) (call.run higher) := by
  cases call with
  | read source => exact readOne_raised le source rfl fun v => .refl _
  | evaluate expr => exact evaluate_raised le expr
  | eval source => exact readOne_raised le source rfl (evaluate_raised le)
  | evalSource source => exact evalSource_raised le source
  | load files path => exact load_raised le files path

def results (limits : Limits) : List Call → Store → List (EStateM.Result Failure Store Value)
  | [], _ => []
  | call :: calls, s =>
    call.run limits s :: results limits calls (finalState (call.run limits s))

theorem run_of_not_tooDeep (le : limits.Le higher) (call : Call) {s : Store}
    (shallow : ¬ TooDeep (call.run limits s)) : call.run higher s = call.run limits s :=
  (run_raised le call s).resolve_left shallow

theorem results_of_not_tooDeep (le : limits.Le higher) (calls : List Call) (s : Store)
    (shallow : ∀ r ∈ results limits calls s, ¬ TooDeep r) :
    results higher calls s = results limits calls s := by
  induction calls generalizing s with
  | nil => rfl
  | cons call calls ih =>
    have first := run_of_not_tooDeep le call (shallow _ List.mem_cons_self)
    rw [results, results, first]
    congr 1
    apply ih
    intro r member
    exact shallow r (List.mem_cons_of_mem _ member)

end Call

end Session

open Session

/-- A higher recursion limit is a higher limit on reading and on evaluation, and under higher limits
every call that is not too deep ends as before, and so does every sequence of such calls. -/
theorem raised_limits_keep_answers :
    (∀ units more : Nat, units ≤ more → (Limits.ofRecursion units).Le (Limits.ofRecursion more)) ∧
      ∀ limits higher : Limits, limits.Le higher →
        (∀ (call : Call) (s : Store), ¬ TooDeep (call.run limits s) →
          call.run higher s = call.run limits s) ∧
          ∀ (calls : List Call) (s : Store), (∀ r ∈ Call.results limits calls s, ¬ TooDeep r) →
            Call.results higher calls s = Call.results limits calls s := by
  constructor
  · intro units more le
    exact Limits.ofRecursion_le le
  · intro limits higher le
    constructor
    · intro call s shallow
      exact Call.run_of_not_tooDeep le call shallow
    · intro calls s shallow
      exact Call.results_of_not_tooDeep le calls s shallow

/-- The first expression is no form, and what follows it is nested too deeply to read. -/
theorem fault_before_deep_source_kept :
    let limits : Limits := ⟨9, .atMost 2, .atMost 1⟩
    let higher : Limits := ⟨9, .atMost 9, .atMost 4⟩
    let calls : List Call := [.evalSource "(if #t) (((", .eval "(begin (quote #f))"]
    limits.Le higher ∧
      (∀ r ∈ Call.results limits calls Store.initial, ¬ TooDeep r) ∧
      Call.results higher calls Store.initial = Call.results limits calls Store.initial := by
  intro limits higher calls
  have le : limits.Le higher := ⟨rfl, (by decide : 2 ≤ 9), (by decide : 1 ≤ 4)⟩
  have shallow : ∀ r ∈ Call.results limits calls Store.initial, ¬ TooDeep r := by decide +kernel
  exact ⟨le, shallow, (raised_limits_keep_answers.2 limits higher le).2 calls Store.initial shallow⟩

end Schemelet
