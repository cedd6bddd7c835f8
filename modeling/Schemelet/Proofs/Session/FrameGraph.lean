import Schemelet.Proofs.Evaluation.Agreement
import Schemelet.Proofs.Session.Expressions
import Schemelet.Proofs.Store.Chain

/-! The graph of frames and closures over whole sessions. Links lead to earlier frames, closures
keep frames that exist, and nothing that a session hands out or is given back breaks this. -/

namespace Schemelet

namespace Value

def InOrder (n : Nat) : Value → Prop
  | .closure params _ frame => frame < n ∧ params.Nodup
  | .primitive p => (p.name, .primitive p) ∈ Frame.builtin.bindings
  | _ => True

theorem InOrder.mono {m n : Nat} {p : Value} (le : m ≤ n) (ok : p.InOrder m) : p.InOrder n := by
  cases p with
  | closure params body frame => exact ⟨Nat.lt_of_lt_of_le ok.1 le, ok.2⟩
  | _ => exact ok

theorem inOrder_primitive (n : Nat) (p : Primitive) : (primitive p).InOrder n := by
  change (p.name, primitive p) ∈ Frame.builtin.bindings
  cases p <;> decide

end Value

def frameGraph : Invariant where
  scope n id := id < n
  frame := Frame.Linked
  procedure := Value.InOrder
  code _ _ := True
  error n e := ∀ v ∈ e.values, ∀ p ∈ v.procedures, p.InOrder n
  scope_mono le inScope := Nat.lt_of_lt_of_le inScope le
  scope_new := Nat.lt_succ_self
  frame_define {id f} name v linked := by
    have names := (f.extendedBy_define name v).names.subset
    unfold Frame.Linked at linked ⊢
    change match f.outer with | none => _ | some outer => _
    cases outward : f.outer with
    | none =>
      rw [outward] at linked
      exact ⟨linked.1, fun p => names (linked.2 p)⟩
    | some outer =>
      rw [outward] at linked
      exact linked
  frame_new items inScope := by
    rw [Frame.Linked, Frame.outer_ofBindings]
    exact inScope
  procedure_mono := Value.InOrder.mono
  procedure_closure inScope _ _ _ distinct := ⟨inScope, distinct⟩
  code_mono _ _ := trivial
  code_operator _ _ := trivial
  code_operand _ _ := trivial
  entry ok := ⟨ok.1, trivial⟩
  error_of_faults _ ok demanded fault v carried p inside := by
    rcases mem_procedures_of_faults fault carried inside with found | ⟨w, member, found⟩
    · exact ok p found
    · exact demanded w member p found

theorem frameGraph_reads (n : Nat) (v : Value) (_ : v.isTree = true) : frameGraph.code n v :=
  trivial

theorem frameGraph_initial : frameGraph.Between Store.initial := by
  refine ⟨⟨?_, ?_⟩, Nat.zero_lt_one⟩
  · intro id f found
    obtain ⟨rfl, rfl⟩ := Store.frame_initial found
    exact ⟨rfl, fun p => by cases p <;> decide⟩
  · intro name v bound
    obtain ⟨p, rfl⟩ := Store.binds_initial bound
    exact List.forall_mem_singleton.mpr (Value.inOrder_primitive 1 p)

namespace Session

def handedOut : EStateM.Result Failure Store Value → List Value
  | .ok v _ => [v]
  | .error (.halt (.error e)) _ => e.values
  | .error _ _ => []

theorem value_of_mem_handedOut {I : Invariant} {r : EStateM.Result Failure Store Value}
    (carries : ∀ (n : Nat) (e : EvalError), I.error n e → ∀ v ∈ e.values, I.value n v)
    (admitted : I.Admits r) : ∀ v ∈ handedOut r, I.value (finalState r).frames.size v := by
  intro v member
  cases r with
  | ok w s =>
    rw [List.mem_singleton.mp member]
    exact admitted.2
  | error e s =>
    match e with
    | .halt (.error fault) => exact carries _ fault (admitted.2 fault rfl) v member
    | .halt .tooDeep | .halt .outOfSteps | .read _ | .stackExhausted | .file _ _ | .encoding _ =>
      cases member

/-- A session between two calls, with all values that can have been taken from it so far. -/
structure State where
  store : Store
  seen : List Value

namespace State

def new : State := ⟨Store.initial, Store.initial.values⟩

def after (state : State) (limits : Limits) (call : Call) : State :=
  let r := call.run limits state.store
  ⟨finalState r, state.seen ++ (handedOut r ++ (finalState r).values)⟩

def Permits (state : State) : Call → Prop
  | .evaluate expr => ∀ p ∈ expr.procedures, ∃ v ∈ state.seen, p ∈ v.procedures
  | _ => True

/-- The states that calls lead to, each under limits of its own, failing or not. The files and the
source that precede a session are calls as well. -/
inductive Reached : State → Prop where
  | new : Reached new
  | call {state : State} (before : Reached state) (limits : Limits) {call : Call}
      (permitted : state.Permits call) : Reached (state.after limits call)

structure InOrder (state : State) : Prop where
  between : frameGraph.Between state.store
  seen : ∀ v ∈ state.seen, frameGraph.value state.store.frames.size v

variable {state : State}

theorem InOrder.given (ok : state.InOrder) {call : Call} (permitted : state.Permits call) :
    ∀ expr, call = .evaluate expr → frameGraph.expr state.store.frames.size expr := by
  rintro expr rfl
  refine ⟨trivial, ?_⟩
  intro p member
  obtain ⟨v, taken, inside⟩ := permitted p member
  exact ok.seen v taken p inside

theorem InOrder.after (ok : state.InOrder) (limits : Limits) {call : Call}
    (permitted : state.Permits call) : (state.after limits call).InOrder := by
  have admitted := Invariant.admits_run frameGraph_reads ok.between limits (ok.given permitted)
  have more := (Call.confined_run limits call state.store).size_le
  refine ⟨Invariant.between_run frameGraph_reads ok.between limits (ok.given permitted), ?_⟩
  intro v member
  rcases List.mem_append.mp member with before | new
  · exact Invariant.value_mono more (ok.seen v before)
  · rcases List.mem_append.mp new with result | bound
    · exact value_of_mem_handedOut (fun _ _ carried => carried) admitted v result
    · exact admitted.holds.value_of_mem bound

theorem Reached.inOrder (reached : Reached state) : state.InOrder := by
  induction reached with
  | new =>
    refine ⟨frameGraph_initial, ?_⟩
    intro v member
    exact frameGraph_initial.holds.value_of_mem member
  | call before limits permitted ih => exact ih.after limits permitted

end State

end Session

open Session

/-- In every state of a session, whatever calls led to it: links lead to earlier frames; the way
outward from every frame ends in the global one, and a search along it finds the primitives' names;
all procedures that were ever handed out are in order, the primitives with their own arity. Every
frame that a further call evaluates in can be searched in the same way. -/
theorem frame_graph_stays_well_formed {state : State} (reached : State.Reached state) :
    (∀ (id : FrameId) (f : Frame), state.store.frames[id]? = some f →
      if id = Store.globalFrame then f.outer = none
      else ∃ outer, f.outer = some outer ∧ outer < id) ∧
      (∀ id < state.store.frames.size, state.store.Searchable id) ∧
      (∀ v ∈ state.seen, ∀ p ∈ v.procedures, p.InOrder state.store.frames.size) ∧
      (∀ (p : Primitive) (args : List Value), args.length ≠ p.arity →
        p.run args = .error (.arityMismatch p.name p.arity args.length)) ∧
      ∀ (limits : Limits) (call : Call), state.Permits call →
        ∀ u : Configuration, call.Visits limits state.store u →
          u.env < u.store.frames.size ∧ u.store.Searchable u.env := by
  have ok := reached.inOrder
  have linked := ok.between.holds.frames
  refine ⟨?_, ?_, ok.seen, ?_, ?_⟩
  · intro id f found
    exact Store.outer_of_linked linked found
  · intro id inRange
    exact Store.searchable_of_linked linked inRange
  · intro p args count
    exact Primitive.run_arity count
  · intro limits call permitted u visit
    have visited :=
      Invariant.at_visited frameGraph_reads ok.between limits (ok.given permitted) visit
    exact ⟨visited.scope, Store.searchable_of_linked visited.holds.frames visited.scope⟩

/-- A primitive's name is bound anew, the error of a call carries the closure in a pair, and the
closure is handed in again. -/
theorem rebound_primitive_still_found :
    let limits : Limits := ⟨9, .unlimited, .atMost 3⟩
    let source := "(define car (lambda (x y) (cons y x))) ((cons car #t) #f)"
    let closure : Value := .closure ["x", "y"]
      (.ofList [.symbol "cons", .symbol "y", .symbol "x"]) Store.globalFrame
    let first := State.new.after limits (.evalSource source)
    let call : Call := .evaluate (.ofList [closure, .bool true, .empty])
    let last := first.after limits call
    first.Permits call ∧ State.Reached last ∧ .pair .empty (.bool true) ∈ last.seen ∧
      last.store.Searchable 1 := by
  intro limits source closure first call last
  have permitted : first.Permits call := by
    have known : ∀ p ∈ (Value.ofList [closure, .bool true, .empty]).procedures,
        p ∈ first.seen.flatMap Value.procedures := by decide +kernel
    intro p member
    exact List.mem_flatMap.mp (known p member)
  have text : State.new.Permits (.evalSource source) := trivial
  have reached : State.Reached last := (State.Reached.new.call limits text).call limits permitted
  have answer : .pair .empty (.bool true) ∈ last.seen := by decide +kernel
  have inRange : 1 < last.store.frames.size := by decide +kernel
  exact ⟨permitted, reached, answer, (frame_graph_stays_well_formed reached).2.1 1 inRange⟩

end Schemelet
