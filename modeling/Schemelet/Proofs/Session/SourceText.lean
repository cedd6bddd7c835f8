import Schemelet.Proofs.Session.Expressions
import Schemelet.Session

/-! Sessions driven by source text. Values and expressions are of one type, but only what was read
is ever evaluated: values that programs build stay data. -/

namespace Schemelet

def Value.RunsTree : Value → Prop
  | .closure _ body _ => body.isTree = true
  | _ => True

theorem Value.isTree_closureBody {bodies : List Value} (trees : ∀ v ∈ bodies, v.isTree = true) :
    (Form.closureBody bodies).isTree = true := by
  unfold Form.closureBody
  split
  · exact trees _ List.mem_cons_self
  · refine Value.isTree_pair.mpr ⟨rfl, Value.isTree_ofList trees, ?_⟩
    rw [Value.toList?_ofList]
    rfl

theorem Form.Misshapen.parameters_of_improper {form : Form} {operator operands : Value}
    {what : String} (tree : (Value.pair operator operands).isTree = true)
    (fault : form.Misshapen operands (.malformedForm (.improper what))) :
    what = "parameter list" := by
  cases fault with
  | improper form shape =>
    -- What was read has proper lists for operands.
    rw [Value.proper_of_isTree tree] at shape
    cases shape
  | improperParameters => rfl

/-- Only trees are evaluated, now and whenever a closure is called. -/
def sourceCode : Invariant where
  scope _ _ := True
  frame _ _ := True
  procedure _ := Value.RunsTree
  code _ e := e.isTree = true
  error _ e := ∀ what, e = .malformedForm (.improper what) → what = "parameter list"
  scope_mono _ _ := trivial
  scope_new _ := trivial
  frame_define _ _ _ := trivial
  frame_new _ _ := trivial
  procedure_mono _ ok := ok
  procedure_closure _ tree shape _ _ := by
    apply Value.isTree_closureBody
    intro v member
    apply Value.isTree_of_mem_elements (Value.isTree_pair.mp tree).2.1
    rw [Value.elements_of_toList? shape]
    exact List.mem_cons_of_mem _ member
  code_mono _ ok := ok
  code_operator tree _ := (Value.isTree_pair.mp tree).1
  code_operand tree member := Value.isTree_of_mem_elements (Value.isTree_pair.mp tree).2.1 member
  entry ok := ⟨trivial, ok⟩
  error_of_faults tree _ _ fault := by
    rintro what rfl
    cases fault with
    | misshapen form fault => exact fault.parameters_of_improper tree
    | primitive _ run =>
      rcases Primitive.error_of_run run with impossible | ⟨v, -, impossible⟩ | impossible
      all_goals cases impossible

theorem sourceCode_initial : sourceCode.Between Store.initial := by
  refine ⟨⟨fun _ _ _ => trivial, ?_⟩, trivial⟩
  intro name v bound
  obtain ⟨p, rfl⟩ := Store.binds_initial bound
  exact List.forall_mem_singleton.mpr trivial

namespace Session

inductive Action where
  | prepare (files : Files) (paths : List Path) (source : String)
  | read (source : String)
  | eval (source : String)
  | evalSource (source : String)
  | load (files : Files) (path : Path)
  | loop (prompt input : String)

namespace Action

def storeAfter (limits : Limits) (s : Store) : Action → Store
  | .prepare files paths source => finalState (Session.prepare limits files paths source s)
  | .read source => finalState (Session.read limits source s)
  | .eval source => finalState (Session.eval limits source s)
  | .evalSource source => finalState (Session.evalSource limits source s)
  | .load files path => finalState (Session.load limits files path s)
  | .loop prompt input => (ReadLoop.run limits prompt input s).2

def preparing (limits : Limits) (files : Files) (source : String) : List Path → Store → List Call
  | [], _ => [.evalSource source]
  | path :: paths, s =>
    .load files path :: match Session.load limits files path s with
      | .ok _ s' => preparing limits files source paths s'
      | .error _ _ => []

def looping (lines : List (List Char)) : List Call :=
  (lines.filter fun line => !line.all Text.isBlank).map fun line => .eval (String.ofList line)

def calls (limits : Limits) (s : Store) : Action → List Call
  | .prepare files paths source => preparing limits files source paths s
  | .read source => [.read source]
  | .eval source => [.eval source]
  | .evalSource source => [.evalSource source]
  | .load files path => [.load files path]
  | .loop _ input => looping (Text.lines input.toList)

abbrev after (limits : Limits) (calls : List Call) (s : Store) : Store :=
  Call.storeAfter (calls.map (limits, ·)) s

theorem finalState_prepare (limits : Limits) (files : Files) (source : String) (paths : List Path)
    (s : Store) : finalState (Session.prepare limits files paths source s) =
      after limits (preparing limits files source paths s) s := by
  induction paths generalizing s with
  | nil =>
    change finalState ((Session.evalSource limits source >>= fun _ => pure ()) s) =
      finalState (Session.evalSource limits source s)
    rw [bind_apply]
    cases Session.evalSource limits source s <;> rfl
  | cons path paths ih =>
    have split : Session.prepare limits files (path :: paths) source =
        Session.load limits files path >>= fun _ => Session.prepare limits files paths source := by
      simp only [Session.prepare, Session.loadAll, bind_assoc]
    rw [split]
    cases run : Session.load limits files path s with
    | ok v s' =>
      rw [bind_of_ok run, ih, preparing, run]
      change _ = after limits _ (finalState (Session.load limits files path s))
      rw [run]
      rfl
    | error e s' =>
      rw [bind_of_error run, preparing, run]
      change s' = finalState (Session.load limits files path s)
      rw [run]
      rfl

theorem store_of_runLines (limits : Limits) (prompt : String) (lines : List (List Char))
    (s : Store) :
    (ReadLoop.runLines limits prompt lines s).2 = after limits (looping lines) s := by
  induction lines generalizing s with
  | nil => rfl
  | cons line lines ih =>
    change (ReadLoop.runLines limits prompt lines (ReadLoop.answer limits line s).2).2 = _
    rw [ih]
    unfold ReadLoop.answer looping
    by_cases blank : line.all Text.isBlank = true
    · rw [if_pos blank, List.filter_cons_of_neg (by simp [blank])]
    · rw [if_neg blank, List.filter_cons_of_pos (by simp [blank])]
      change after limits _ _ =
        after limits _ (finalState (Session.eval limits (String.ofList line) s))
      congr 1
      split
      all_goals
        rename_i run
        rw [run]
        rfl

theorem storeAfter_eq (limits : Limits) (s : Store) (action : Action) :
    action.storeAfter limits s = after limits (action.calls limits s) s := by
  cases action with
  | prepare files paths source => exact finalState_prepare limits files source paths s
  | loop prompt input => exact store_of_runLines limits prompt _ s
  | _ => rfl

theorem ne_evaluate_of_mem_calls {limits : Limits} {s : Store} {action : Action} {call : Call}
    (member : call ∈ action.calls limits s) (expr : Value) : call ≠ .evaluate expr := by
  have prepared (files : Files) (source : String) (paths : List Path) (s : Store)
      (member : call ∈ preparing limits files source paths s) : call ≠ .evaluate expr := by
    induction paths generalizing s with
    | nil =>
      rw [List.mem_singleton.mp member]
      simp
    | cons path paths ih =>
      rcases List.mem_cons.mp member with rfl | later
      · simp
      · split at later
        · exact ih _ later
        · cases later
  cases action with
  | prepare files paths source => exact prepared files source paths s member
  | loop prompt input =>
    obtain ⟨line, -, rfl⟩ := List.mem_map.mp member
    simp
  | _ =>
    rw [List.mem_singleton.mp member]
    simp

end Action

inductive Driven : Store → Prop where
  | new : Driven Store.initial
  | action {s : Store} (before : Driven s) (limits : Limits) (action : Action) :
      Driven (action.storeAfter limits s)

theorem between_after {limits : Limits} {calls : List Call} {s : Store}
    (between : sourceCode.Between s) (text : ∀ call ∈ calls, ∀ expr, call ≠ .evaluate expr) :
    sourceCode.Between (Action.after limits calls s) := by
  induction calls generalizing s with
  | nil => exact between
  | cons call calls ih =>
    have first := Invariant.between_run (fun _ _ tree => tree) between limits
      fun expr given => absurd given (text call List.mem_cons_self expr)
    exact ih first fun call member => text call (List.mem_cons_of_mem _ member)

theorem Driven.between {s : Store} (driven : Driven s) : sourceCode.Between s := by
  induction driven with
  | new => exact sourceCode_initial
  | action before limits action ih =>
    rw [Action.storeAfter_eq]
    exact between_after ih fun call member => Action.ne_evaluate_of_mem_calls member

end Session

open Session

/-- In a session driven by text, wherever an action comes to make a call: every expression at which
the call takes a step is a tree, so that the operands of an application are a proper list; and the
only list that the call can find improper is that of parameters. -/
theorem data_is_never_run {s : Store} (driven : Driven s) (limits : Limits) (action : Action) :
    action.storeAfter limits s = Action.after limits (action.calls limits s) s ∧
      ∀ (earlier later : List Call) (call : Call),
        action.calls limits s = earlier ++ call :: later →
          (∀ u : Configuration, call.Visits limits (Action.after limits earlier s) u →
            u.expr.isTree = true ∧ ∀ operator operands, u.expr = .pair operator operands →
              operands.toList? = some operands.elements) ∧
          ∀ (what : String) (s' : Store), call.run limits (Action.after limits earlier s) =
            .error (.halt (.error (.malformedForm (.improper what)))) s' →
              what = "parameter list" := by
  refine ⟨action.storeAfter_eq limits s, ?_⟩
  intro earlier later call made
  have text (other : Call) (member : other ∈ earlier ++ call :: later) (expr : Value) :
      other ≠ .evaluate expr := by
    rw [← made] at member
    exact Action.ne_evaluate_of_mem_calls member expr
  have between : sourceCode.Between (Action.after limits earlier s) :=
    between_after driven.between fun other member => text other (List.mem_append_left _ member)
  have given (expr : Value) (same : call = .evaluate expr) :
      sourceCode.expr (Action.after limits earlier s).frames.size expr :=
    absurd same (text call (List.mem_append_right _ List.mem_cons_self) expr)
  constructor
  · intro u visit
    have visited := Invariant.at_visited (fun _ _ tree => tree) between limits given visit
    refine ⟨visited.expr.1, ?_⟩
    intro operator operands same
    have tree := visited.expr.1
    rw [same] at tree
    exact Value.proper_of_isTree tree
  · intro what s' run
    have admitted := Invariant.admits_run (fun _ _ tree => tree) between limits given
    rw [run] at admitted
    exact admitted.2 _ rfl what rfl

/-- A line binds an improper pair. On the next one the pair is an argument, and a list of parameters
is improper. -/
theorem only_parameters_found_improper :
    let limits : Limits := ⟨9, .unlimited, .atMost 3⟩
    let input := "(define p (cons #t #f))\n((lambda (x) (lambda p x)) p)\n"
    let define : Call := .eval "(define p (cons #t #f))\n"
    let call : Call := .eval "((lambda (x) (lambda p x)) p)\n"
    let s := Action.after limits [define] Store.initial
    Action.calls limits Store.initial (.loop "> " input) = [define, call] ∧
      s.lookup? Store.globalFrame "p" = some (.pair (.bool true) (.bool false)) ∧
      (ReadLoop.run limits "> " input Store.initial).1 =
        "> > error: Expected a proper parameter list\n> \n" ∧
      (∃ u : Configuration, call.Visits limits s u ∧ u.expr.isTree = true) ∧
      ∀ (what : String) (s' : Store), call.run limits s =
        .error (.halt (.error (.malformedForm (.improper what)))) s' → what = "parameter list" := by
  intro limits input define call s
  have made : Action.calls limits Store.initial (.loop "> " input) = [define] ++ call :: [] := by
    have lines : (Text.lines input.toList).filter (fun line => !line.all Text.isBlank) =
        ["(define p (cons #t #f))\n".toList, "((lambda (x) (lambda p x)) p)\n".toList] := by
      decide +kernel
    rw [Action.calls, Action.looping, lines]
    simp only [List.map_cons, List.map_nil, String.ofList_toList, List.cons_append, List.nil_append,
      define, call]
  have bound : s.lookup? Store.globalFrame "p" = some (.pair (.bool true) (.bool false)) := by
    decide +kernel
  have output : (ReadLoop.run limits "> " input Store.initial).1 =
      "> > error: Expected a proper parameter list\n> \n" := by decide +kernel
  have known := (data_is_never_run .new limits (.loop "> " input)).2 [define] [] call made
  obtain ⟨expr, only⟩ : ∃ expr, call.expressions limits = [expr] :=
    List.length_eq_one_iff.mp (by decide +kernel)
  have visit : call.Visits limits s ⟨Store.globalFrame, expr, s⟩ :=
    ⟨[], [], expr, .unspecified, s, only, rfl, .here _ 8 _⟩
  exact ⟨made, bound, output, ⟨_, visit, (known.1 _ visit).1⟩, known.2⟩

end Schemelet
