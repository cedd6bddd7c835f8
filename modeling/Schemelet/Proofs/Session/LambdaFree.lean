import Schemelet.Proofs.Evaluation.ClosureFree
import Schemelet.Proofs.Session.FrameGraph

/-! Sessions whose sources do not name the form that makes closures. No closure ever arises in them,
so every evaluation goes down the expression that was read and ends. -/

namespace Schemelet

namespace Session

def WithoutLambda (source : String) : Prop := ∀ token ∈ Token.ofSource source, token.text ≠ "lambda"

instance (source : String) : Decidable (WithoutLambda source) :=
  inferInstanceAs (Decidable (∀ token ∈ Token.ofSource source, token.text ≠ "lambda"))

theorem begun_of_error {limits : Limits} {last : Value} {exprs : List Value} {h : Halt}
    {s s' : Store} (stops : evaluateAll limits last exprs s = .error (.halt h) s') :
    ∃ earlier expr later v s₁, exprs = earlier ++ expr :: later ∧
      evaluateAll limits last earlier s = .ok v s₁ ∧
      (Configuration.mk Store.globalFrame expr s₁).run limits.steps limits.evaluating =
        .error h s' := by
  induction exprs generalizing last s with
  | nil => cases stops
  | cons expr exprs ih =>
    cases run : evaluate limits expr s with
    | error e s₁ =>
      rw [evaluateAll, bind_of_error run] at stops
      cases stops
      refine ⟨[], expr, exprs, last, s, rfl, rfl, ?_⟩
      unfold evaluate EStateM.adaptExcept at run
      split at run
      · rename_i same
        cases run
        exact same
      · cases run
    | ok v s₁ =>
      rw [evaluateAll, bind_of_ok run] at stops
      obtain ⟨earlier, next, later, w, s₂, rfl, before, stopped⟩ := ih stops
      refine ⟨expr :: earlier, next, later, w, s₂, rfl, ?_, stopped⟩
      rw [evaluateAll, bind_of_ok run]
      exact before

namespace Call

def LambdaFree : Call → Prop
  | .read source | .eval source | .evalSource source => WithoutLambda source
  | .load files path => ∀ source, readText files path = .ok source → WithoutLambda source
  | .evaluate _ => False

theorem begins_of_halt {limits : Limits} {call : Call} {h : Halt} {s s' : Store}
    (stops : call.run limits s = .error (.halt h) s') :
    ∃ c, call.Begins limits s c ∧ c.run limits.steps limits.evaluating = .error h s' := by
  rw [run_eq] at stops
  cases evaluated : evaluateAll limits .unspecified (call.expressions limits) s with
  | error e s₁ =>
    rw [bind_of_error evaluated] at stops
    cases stops
    obtain ⟨earlier, expr, later, v, s₂, split, before, stopped⟩ := begun_of_error evaluated
    exact ⟨⟨_, expr, s₂⟩, ⟨rfl, earlier, later, v, split, before⟩, stopped⟩
  | ok v s₁ =>
    rw [bind_of_ok evaluated] at stops
    rcases verdict_cases limits call v with ⟨w, ends, -⟩ | ⟨e, ends, other⟩
    · rw [ends] at stops
      cases stops
    · rw [ends] at stops
      cases stops
      exact absurd rfl (other h)

theorem expressions_of_grows {P : Nat → Value → Prop} {limits : Limits} {call : Call}
    (free : call.LambdaFree)
    (grows : ∀ source, WithoutLambda source →
      Reader.Grows limits.reading (Token.ofSource source) P) :
    ∀ expr ∈ call.expressions limits, P 0 expr := by
  intro expr member
  cases call with
  | read source => cases member
  | evaluate expr' => exact free.elim
  | eval source =>
    simp only [expressions] at member
    cases read : readOne limits.reading source with
    | ok expr' =>
      rw [read] at member
      rw [List.mem_singleton.mp member]
      exact (grows source free).readSingle read
    | error e =>
      rw [read] at member
      cases member
  | evalSource source => exact (grows source free).readAll expr member
  | load files path =>
    simp only [expressions] at member
    cases text : readText files path with
    | ok source =>
      rw [text] at member
      exact (grows source (free source text)).readAll expr member
    | error e =>
      rw [text] at member
      cases member

theorem nesting_allowed {limits : Limits} {call : Call} (free : call.LambdaFree) {expr : Value}
    (member : expr ∈ call.expressions limits) :
    limits.reading.allows expr.nesting = true := by
  have allowed := expressions_of_grows free
    (fun source _ => Reader.grows_nesting limits.reading (Token.ofSource source)) expr member
  rw [Nat.zero_add] at allowed
  exact allowed

theorem expr_of_lambdaFree (limits : Limits) {call : Call} (free : call.LambdaFree) (n : Nat) :
    ∀ expr ∈ call.expressions limits, closureFree.expr n expr := by
  intro expr member
  have unnamed := expressions_of_grows free
    (fun source without => Reader.grows_free (by decide) without limits.reading) expr member
  have tree := expressions_of_grows free
    (fun source _ => Reader.grows_isTree limits.reading (Token.ofSource source)) expr member
  exact ⟨unnamed, Invariant.value_of_isTree n tree⟩

theorem closureFree_initial : closureFree.Between Store.initial := by
  refine ⟨⟨fun _ _ _ => trivial, ?_⟩, trivial⟩
  intro name v bound
  obtain ⟨p, rfl⟩ := Store.binds_initial bound
  exact List.forall_mem_singleton.mpr rfl

theorem closureFree_storeAfter {calls : List (Limits × Call)} {s : Store}
    (between : closureFree.Between s) (free : ∀ item ∈ calls, item.2.LambdaFree) :
    closureFree.Between (storeAfter calls s) := by
  induction calls generalizing s with
  | nil => exact between
  | cons item calls ih =>
    obtain ⟨limits, call⟩ := item
    have here : call.LambdaFree := free _ List.mem_cons_self
    apply ih
    · exact Invariant.between_call between limits (expr_of_lambdaFree limits here _)
    · intro item member
      exact free item (List.mem_cons_of_mem _ member)

end Call

end Session

open Session

/-- In a new session, after any calls with sources without the symbol and in another such call,
each under limits of its own: no closure is bound or handed out; every evaluation goes down the
expression as it was read, which is nested no deeper than reading allows; and no call is without an
end. -/
theorem lambda_free_sessions_end {calls : List (Limits × Call)}
    (earlier : ∀ item ∈ calls, item.2.LambdaFree) {call : Call} (free : call.LambdaFree)
    (limits : Limits) :
    let s := Call.storeAfter calls Store.initial
    let r := call.run limits s
    (∀ v ∈ handedOut r ++ (finalState r).values, v.ClosureFree) ∧
      (∀ c : Configuration, call.Begins limits s c →
        c.Shrinks ∧ limits.reading.allows c.expr.nesting = true ∧
          ∀ (steps : Nat) (limit : Limit), ∀ u ∈ c.trail steps limit,
            ∀ v ∈ u.store.values, v.ClosureFree) ∧
      ((∀ expr ∈ call.expressions limits, expr.size ≤ limits.steps) →
        ∀ s', r ≠ .error (.halt .outOfSteps) s') := by
  intro s r
  have between : closureFree.Between s :=
    Call.closureFree_storeAfter Call.closureFree_initial earlier
  have ok := Call.expr_of_lambdaFree limits free s.frames.size
  have admitted : closureFree.Admits r := Invariant.admits_call between limits ok
  refine ⟨?_, ?_, ?_⟩
  · intro v member
    rcases List.mem_append.mp member with result | bound
    · exact value_of_mem_handedOut (fun _ _ carried => carried) admitted v result
    · exact admitted.holds.value_of_mem bound
  · intro c begun
    have start : closureFree.At c := Invariant.at_begun between limits ok begun
    refine ⟨start.shrinks, Call.nesting_allowed free begun.mem_expressions, ?_⟩
    intro steps limit u taken v bound
    have here := start.visited (Configuration.visits_of_mem_trail taken)
    exact here.holds.value_of_mem bound
  · intro enough s' stopped
    obtain ⟨c, begun, halted⟩ := Call.begins_of_halt stopped
    have start : closureFree.At c := Invariant.at_begun between limits ok begun
    exact start.not_outOfSteps (enough c.expr begun.mem_expressions) s' halted

/-- The first source defines a list and then fails; the second defines its rest under the same name
and hands out a primitive in a pair. Its sequence is reached through the branch of a conditional. -/
theorem redefinition_without_lambda_ends :
    let limits : Limits := ⟨20, .atMost 4, .atMost 3⟩
    let first : Call := .evalSource "(define x '(1 2)) (car x y)"
    let call : Call := .evalSource "(if (null? x) x (begin (define x (cdr x)) (cons car x)))"
    let s := Call.storeAfter [(limits, first)] Store.initial
    let branch : Value := .ofList [.symbol "begin",
      .ofList [.symbol "define", .symbol "x", .ofList [.symbol "cdr", .symbol "x"]],
      .ofList [.symbol "cons", .symbol "car", .symbol "x"]]
    let expr : Value := .ofList
      [.symbol "if", .ofList [.symbol "null?", .symbol "x"], .symbol "x", branch]
    let c : Configuration := ⟨Store.globalFrame, expr, s⟩
    first.LambdaFree ∧ call.LambdaFree ∧ call.Begins limits s c ∧ c.Shrinks ∧
      (c.trail 20 .unlimited).length = 13 ∧ expr.size = 18 := by
  intro limits first call s branch expr c
  have firstFree : first.LambdaFree := by
    change WithoutLambda _
    decide +kernel
  have callFree : call.LambdaFree := by
    change WithoutLambda _
    decide +kernel
  have read : call.expressions limits = [expr] := by decide +kernel
  have begun : call.Begins limits s c := ⟨rfl, [], [], .unspecified, read, rfl⟩
  have earlier : ∀ item ∈ [(limits, first)], item.2.LambdaFree := by
    intro item member
    rw [List.mem_singleton.mp member]
    exact firstFree
  have shrinks := ((lambda_free_sessions_end earlier callFree limits).2.1 c begun).1
  exact ⟨firstFree, callFree, begun, shrinks, by decide +kernel, by decide +kernel⟩

end Schemelet
