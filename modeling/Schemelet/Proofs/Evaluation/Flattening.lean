import Schemelet.Proofs.Evaluation.Agreement

/-! Sequences within sequences. The expressions of an inner sequence may stand in the outer one
instead: what is evaluated, in which order, and which value becomes that of the whole stay the
same. The inner sequence or what follows it must not be empty, since the value of an empty sequence
is not that of the expression before it. -/

namespace Schemelet

section

variable {env : FrameId} {expr : Value} {s s₁ s₂ : Store} {o o₁ o₂ : Outcome Value}

theorem EndsWith.unique (first : EndsWith env expr s o₁ s₁) (second : EndsWith env expr s o₂ s₂) :
    o₁ = o₂ ∧ s₁ = s₂ := by
  obtain ⟨m, run⟩ := first
  obtain ⟨n, run'⟩ := second
  have both := (run (max m n) (Nat.le_max_left m n)).symm.trans
    (run' (max m n) (Nat.le_max_right m n))
  cases o₁ with
  | ok v =>
    obtain ⟨rfl, rfl⟩ := Outcome.result_ok both
    exact ⟨rfl, rfl⟩
  | error e =>
    obtain ⟨rfl, e', same, rfl⟩ := Outcome.result_error both
    cases same
    exact ⟨rfl, rfl⟩

theorem Diverges.not_endsWith (diverges : Diverges env expr s) : ¬ EndsWith env expr s o s₁ := by
  rintro ⟨enough, run⟩
  obtain ⟨s', stopped⟩ := diverges enough
  have both := stopped.symm.trans (run enough (Nat.le_refl enough))
  obtain ⟨-, e, impossible, -⟩ := Outcome.result_error both
  cases impossible

theorem Evaluates.unique (first : Evaluates s env expr o₁ s₁)
    (second : Evaluates s env expr o₂ s₂) : o₁ = o₂ ∧ s₁ = s₂ :=
  (endsWith_of_evaluates first).unique (endsWith_of_evaluates second)

end

/-- Both evaluations go on for ever, or both end with one outcome and leave one store. -/
def SameRun (env : FrameId) (expr expr' : Value) (s : Store) : Prop :=
  (Diverges env expr s ∧ Diverges env expr' s) ∨
    ∃ o s', EndsWith env expr s o s' ∧ EndsWith env expr' s o s'

def Interchangeable (expr expr' : Value) : Prop :=
  ∀ (s : Store) (env : FrameId) (o : Outcome Value) (s' : Store),
    Evaluates s env expr o s' ↔ Evaluates s env expr' o s'

theorem sameRun_of_evaluates {env : FrameId} {expr expr' : Value} {s : Store}
    (same : ∀ o s', Evaluates s env expr o s' ↔ Evaluates s env expr' o s') :
    SameRun env expr expr' s := by
  rcases diverges_or_endsWith env expr s with diverges | ⟨o, s', ends⟩
  · rcases diverges_or_endsWith env expr' s with diverges' | ⟨o, s', enough, run⟩
    · exact Or.inl ⟨diverges, diverges'⟩
    · have derived := evaluates_of_evaluate (run enough (Nat.le_refl enough))
      exact absurd (endsWith_of_evaluates ((same o s').mpr derived)) diverges.not_endsWith
  · have ⟨enough, run⟩ := ends
    have derived := evaluates_of_evaluate (run enough (Nat.le_refl enough))
    exact Or.inr ⟨o, s', ends, endsWith_of_evaluates ((same o s').mp derived)⟩

section

variable {env : FrameId} {operator operands : Value} {exprs : List Value} {s s' : Store}
  {o : Outcome Value}

/-- What the rules say of a sequence. The operator is a variable, so that the other rules are
refused by its name. -/
theorem Evaluates.of_sequence (run : Evaluates s env (.pair operator operands) o s')
    (named : operator = .symbol "begin") (shape : operands.toList? = some exprs) :
    EvaluatesSequence s env exprs o s' := by
  cases run with
  | sequence shape' inOrder =>
    cases shape.symm.trans shape'
    exact inOrder
  | constant _ noPair => exact absurd rfl (noPair _ _)
  | misshapen form fault =>
    cases form with
    | sequence =>
      cases fault with
      | improper _ improper => cases shape.symm.trans improper
    | _ => simp [Form.name] at named
  | operatorError plain => exact absurd named (plain .sequence)
  | operandError plain => exact absurd named (plain .sequence)
  | application plain => exact absurd named (plain .sequence)
  | _ => simp at named

theorem evaluates_sequence_iff (exprs : List Value) :
    Evaluates s env (.pair (.symbol "begin") (.ofList exprs)) o s' ↔
      EvaluatesSequence s env exprs o s' := by
  have shape := Value.toList?_ofList exprs
  constructor
  · intro run
    exact run.of_sequence rfl shape
  · intro inOrder
    exact .sequence shape inOrder

theorem Evaluates.of_application (run : Evaluates s env (.pair operator operands) o s')
    (plain : ∀ form : Form, operator ≠ .symbol form.name) :
    (∃ e, o = .error e ∧ Evaluates s env operator (.error e) s') ∨
      ∃ p s₁, Evaluates s env operator (.ok p) s₁ ∧
        ((∃ e, o = .error e ∧ EvaluatesOperands s₁ env operands.elements (.error e) s') ∨
          ∃ args s₂, EvaluatesOperands s₁ env operands.elements (.ok args) s₂ ∧
            Applies s₂ p args o s') := by
  cases run with
  | operatorError _ fails => exact Or.inl ⟨_, rfl, fails⟩
  | operandError _ procedure fails => exact Or.inr ⟨_, _, procedure, Or.inl ⟨_, rfl, fails⟩⟩
  | application _ procedure arguments applied =>
    exact Or.inr ⟨_, _, procedure, Or.inr ⟨_, _, arguments, applied⟩⟩
  | constant _ noPair => exact absurd rfl (noPair _ _)
  | misshapen form => exact absurd rfl (plain form)
  | quotation => exact absurd rfl (plain .quotation)
  | abstraction => exact absurd rfl (plain .abstraction)
  | testError | thenBranch | elseBranch | noBranch => exact absurd rfl (plain .conditional)
  | definitionError | definition => exact absurd rfl (plain .definition)
  | sequence => exact absurd rfl (plain .sequence)

end

section

variable {env : FrameId} {expr : Value} {exprs more : List Value} {s s' : Store}
  {o : Outcome Value} {e : EvalError}

theorem evaluatesSequence_cons (notLast : exprs ≠ []) :
    EvaluatesSequence s env (expr :: exprs) o s' ↔
      (∃ e, o = .error e ∧ Evaluates s env expr (.error e) s') ∨
        ∃ v s₁, Evaluates s env expr (.ok v) s₁ ∧ EvaluatesSequence s₁ env exprs o s' := by
  obtain ⟨next, rest, rfl⟩ := List.exists_cons_of_ne_nil notLast
  constructor
  · intro run
    cases run with
    | cons head tail => exact Or.inr ⟨_, _, head, tail⟩
    | headError fails => exact Or.inl ⟨_, rfl, fails⟩
  · rintro (⟨e, rfl, fails⟩ | ⟨v, s₁, head, tail⟩)
    · exact .headError fails
    · exact .cons head tail

theorem evaluatesSequence_append (nonempty : more ≠ []) :
    EvaluatesSequence s env (exprs ++ more) o s' ↔
      (∃ e, o = .error e ∧ EvaluatesOperands s env exprs (.error e) s') ∨
        ∃ vs s₁, EvaluatesOperands s env exprs (.ok vs) s₁ ∧
          EvaluatesSequence s₁ env more o s' := by
  induction exprs generalizing s with
  | nil =>
    constructor
    · intro run
      exact Or.inr ⟨[], s, .nil, run⟩
    · rintro (⟨e, -, fails⟩ | ⟨vs, s₁, first, rest⟩)
      · cases fails
      · cases first
        exact rest
  | cons expr exprs ih =>
    rw [List.cons_append,
      evaluatesSequence_cons (List.append_ne_nil_of_right_ne_nil exprs nonempty)]
    constructor
    · rintro (⟨e, rfl, fails⟩ | ⟨v, s₁, head, tail⟩)
      · exact Or.inl ⟨e, rfl, .headError fails⟩
      · rcases ih.mp tail with ⟨e, rfl, fails⟩ | ⟨vs, s₂, first, rest⟩
        · exact Or.inl ⟨e, rfl, .tailError head fails⟩
        · exact Or.inr ⟨v :: vs, s₂, .cons head first, rest⟩
    · rintro (⟨e, rfl, fails⟩ | ⟨vs, s₁, first, rest⟩)
      · cases fails with
        | headError fails => exact Or.inl ⟨e, rfl, fails⟩
        | tailError head fails => exact Or.inr ⟨_, _, head, ih.mpr (Or.inl ⟨e, rfl, fails⟩)⟩
      · cases first with
        | cons head tail => exact Or.inr ⟨_, _, head, ih.mpr (Or.inr ⟨_, _, tail, rest⟩)⟩

theorem evaluatesSequence_error_iff :
    EvaluatesSequence s env exprs (.error e) s' ↔ EvaluatesOperands s env exprs (.error e) s' := by
  induction exprs generalizing s with
  | nil =>
    constructor
    · intro run
      cases run
    · intro run
      cases run
  | cons expr exprs ih =>
    constructor
    · intro run
      cases run with
      | last value => exact .headError value
      | cons head tail => exact .tailError head (ih.mp tail)
      | headError fails => exact .headError fails
    · intro run
      cases exprs with
      | nil => exact .last run.error_of_single
      | cons next exprs =>
        cases run with
        | headError fails => exact .headError fails
        | tailError head fails => exact .cons head (ih.mpr fails)

theorem evaluatesSequence_ok_iff :
    (∃ v, EvaluatesSequence s env exprs (.ok v) s') ↔
      ∃ vs, EvaluatesOperands s env exprs (.ok vs) s' := by
  induction exprs generalizing s with
  | nil =>
    constructor
    · rintro ⟨v, run⟩
      cases run
      exact ⟨[], .nil⟩
    · rintro ⟨vs, run⟩
      cases run
      exact ⟨.unspecified, .nil⟩
  | cons expr exprs ih =>
    constructor
    · rintro ⟨v, run⟩
      cases run with
      | last value => exact ⟨[v], .cons value .nil⟩
      | cons head tail =>
        obtain ⟨vs, rest⟩ := ih.mp ⟨v, tail⟩
        exact ⟨_, .cons head rest⟩
    · rintro ⟨vs, run⟩
      cases exprs with
      | nil =>
        obtain ⟨v, -, value⟩ := run.of_single
        exact ⟨v, .last value⟩
      | cons next exprs =>
        cases run with
        | cons head tail =>
          obtain ⟨v, rest⟩ := ih.mpr ⟨_, tail⟩
          exact ⟨v, .cons head rest⟩

end

def sequenceOf (exprs : List Value) : Value := .pair (.symbol "begin") (.ofList exprs)

section

variable {xs ys zs : List Value} {env : FrameId} {s s' : Store} {o : Outcome Value}

theorem evaluatesSequence_inner :
    EvaluatesSequence s env (sequenceOf ys :: zs) o s' ↔
      EvaluatesSequence s env (ys ++ zs) o s' := by
  by_cases isLast : zs = []
  · subst isLast
    rw [List.append_nil]
    constructor
    · intro run
      cases run with
      | last value => exact (evaluates_sequence_iff ys).mp value
    · intro run
      exact .last ((evaluates_sequence_iff ys).mpr run)
  · rw [evaluatesSequence_cons isLast, evaluatesSequence_append isLast]
    constructor
    · rintro (⟨e, rfl, fails⟩ | ⟨v, s₁, head, tail⟩)
      · rw [sequenceOf, evaluates_sequence_iff] at fails
        exact Or.inl ⟨e, rfl, evaluatesSequence_error_iff.mp fails⟩
      · rw [sequenceOf, evaluates_sequence_iff] at head
        obtain ⟨vs, first⟩ := evaluatesSequence_ok_iff.mp ⟨v, head⟩
        exact Or.inr ⟨vs, s₁, first, tail⟩
    · rintro (⟨e, rfl, fails⟩ | ⟨vs, s₁, first, rest⟩)
      · rw [← evaluatesSequence_error_iff, ← evaluates_sequence_iff] at fails
        exact Or.inl ⟨e, rfl, fails⟩
      · obtain ⟨v, head⟩ := evaluatesSequence_ok_iff.mpr ⟨vs, first⟩
        rw [← evaluates_sequence_iff] at head
        exact Or.inr ⟨v, s₁, head, rest⟩

theorem evaluatesSequence_flat (nonempty : ys ++ zs ≠ []) :
    EvaluatesSequence s env (xs ++ sequenceOf ys :: zs) o s' ↔
      EvaluatesSequence s env (xs ++ (ys ++ zs)) o s' := by
  rw [evaluatesSequence_append (List.cons_ne_nil _ zs), evaluatesSequence_append nonempty]
  simp only [evaluatesSequence_inner]

theorem evaluates_closureBody_iff {bodies : List Value} (nonempty : bodies ≠ []) :
    Evaluates s env (Form.closureBody bodies) o s' ↔ EvaluatesSequence s env bodies o s' := by
  cases bodies with
  | nil => exact absurd rfl nonempty
  | cons body bodies =>
    cases bodies with
    | cons next bodies => exact evaluates_sequence_iff (body :: next :: bodies)
    | nil =>
      constructor
      · intro value
        exact .last value
      · intro run
        cases run with
        | last value => exact value

/-- The two bodies that run as the sequence of the given expressions: their sequence, and the body
that a closure makes of them. -/
def bodiesOf (exprs : List Value) : List Value := [sequenceOf exprs, Form.closureBody exprs]

theorem evaluates_body_iff {exprs : List Value} {body : Value} (nonempty : exprs ≠ [])
    (member : body ∈ bodiesOf exprs) :
    Evaluates s env body o s' ↔ EvaluatesSequence s env exprs o s' := by
  simp only [bodiesOf, List.mem_cons, List.not_mem_nil, or_false] at member
  rcases member with rfl | rfl
  · exact evaluates_sequence_iff exprs
  · exact evaluates_closureBody_iff nonempty

theorem interchangeable_flat (xs : List Value) {body body' : Value} (nonempty : ys ++ zs ≠ [])
    (inner : body ∈ bodiesOf (xs ++ sequenceOf ys :: zs))
    (outer : body' ∈ bodiesOf (xs ++ (ys ++ zs))) : Interchangeable body body' := by
  intro s env o s'
  rw [evaluates_body_iff (List.append_ne_nil_of_right_ne_nil xs (List.cons_ne_nil _ zs)) inner,
    evaluates_body_iff (List.append_ne_nil_of_right_ne_nil xs nonempty) outer]
  exact evaluatesSequence_flat nonempty

theorem evaluates_abstraction (s : Store) (env : FrameId) (operands : Value) :
    Evaluates s env (.pair (.symbol "lambda") operands) (Form.closure env operands) s := by
  rcases Form.closure_cases env operands with
    ⟨e, fault⟩ | ⟨list, body, bodies, params, shape, parameters, distinct, made⟩
  · rw [Form.closure_of_misshapen fault]
    exact .misshapen .abstraction fault
  · rw [made]
    exact .abstraction shape parameters distinct

end

section

variable {body body' operator operator' operands p p' : Value} {params : List String}
  {frame env : FrameId} {args : List Value} {s s₁ s' : Store} {o : Outcome Value}

theorem Applies.of_interchangeable (same : Interchangeable body body')
    (applied : Applies s (.closure params body frame) args o s') :
    Applies s (.closure params body' frame) args o s' := by
  cases applied with
  | notAProcedure _ noClosure => exact absurd rfl (noClosure params body frame)
  | closureArity count => exact .closureArity count
  | closure count value => exact .closure count ((same _ _ _ _).mp value)

theorem Evaluates.of_operator (plain : ∀ form : Form, operator ≠ .symbol form.name)
    (plain' : ∀ form : Form, operator' ≠ .symbol form.name)
    (value : Evaluates s env operator (.ok p) s₁) (value' : Evaluates s env operator' (.ok p') s₁)
    (alike : ∀ s args o s', Applies s p args o s' → Applies s p' args o s')
    (run : Evaluates s env (.pair operator operands) o s') :
    Evaluates s env (.pair operator' operands) o s' := by
  rcases run.of_application plain with ⟨e, -, fails⟩ | ⟨q, s₂, procedure, rest⟩
  · cases (value.unique fails).1
  · obtain ⟨known, rfl⟩ := value.unique procedure
    cases known
    rcases rest with ⟨e, rfl, fails⟩ | ⟨args, s₃, arguments, applied⟩
    · exact .operandError plain' value' fails
    · exact .application plain' value' arguments (alike _ _ _ _ applied)

theorem sameRun_calls (same : Interchangeable body body')
    (plain : ∀ form : Form, operator ≠ .symbol form.name)
    (plain' : ∀ form : Form, operator' ≠ .symbol form.name)
    (value : Evaluates s env operator (.ok (.closure params body frame)) s₁)
    (value' : Evaluates s env operator' (.ok (.closure params body' frame)) s₁) :
    SameRun env (.pair operator operands) (.pair operator' operands) s := by
  have back : Interchangeable body' body := fun s env o s' => (same s env o s').symm
  apply sameRun_of_evaluates
  intro o s'
  constructor
  · exact .of_operator plain plain' value value' fun _ _ _ _ => .of_interchangeable same
  · exact .of_operator plain' plain value' value fun _ _ _ _ => .of_interchangeable back

theorem sameRun_abstractions {bodies bodies' : List Value} (nonempty : bodies ≠ [])
    (nonempty' : bodies' ≠ [])
    (same : Interchangeable (Form.closureBody bodies) (Form.closureBody bodies')) (list : Value) :
    SameRun env (.pair (.pair (.symbol "lambda") (.ofList (list :: bodies))) operands)
      (.pair (.pair (.symbol "lambda") (.ofList (list :: bodies'))) operands) s := by
  have made := evaluates_abstraction s env (.ofList (list :: bodies))
  have made' := evaluates_abstraction s env (.ofList (list :: bodies'))
  obtain ⟨body, rest, rfl⟩ := List.exists_cons_of_ne_nil nonempty
  obtain ⟨body', rest', rfl⟩ := List.exists_cons_of_ne_nil nonempty'
  rw [Form.closure_of_shape (Value.toList?_ofList _)] at made made'
  cases names : Form.parameters list with
  | ok params =>
    rw [names] at made made'
    exact sameRun_calls same (by simp) (by simp) made made'
  | error e =>
    rw [names] at made made'
    refine Or.inr ⟨.error e, s, endsWith_of_evaluates ?_, endsWith_of_evaluates ?_⟩
    · exact .operatorError (by simp) made
    · exact .operatorError (by simp) made'

end

/-- An inner sequence may be replaced by its expressions, if it or what follows it is not empty.
Both sequences do the same in every frame and store; so do two closures with the one and the other
as their bodies, wherever they come from and whatever they are applied to; and so do the closures
that are made of the one and of the other list of expressions and called on the spot. -/
theorem nested_sequence_flattened {xs ys zs : List Value} (nonempty : ys ≠ [] ∨ zs ≠ []) :
    let nested := xs ++ sequenceOf ys :: zs
    let flat := xs ++ (ys ++ zs)
    (∀ env s, SameRun env (sequenceOf nested) (sequenceOf flat) s) ∧
      (∀ body ∈ bodiesOf nested, ∀ body' ∈ bodiesOf flat,
        ∀ params frame operator operator' operands env s s₁,
          (∀ form : Form, operator ≠ .symbol form.name ∧ operator' ≠ .symbol form.name) →
          EndsWith env operator s (.ok (.closure params body frame)) s₁ →
          EndsWith env operator' s (.ok (.closure params body' frame)) s₁ →
            SameRun env (.pair operator operands) (.pair operator' operands) s) ∧
      ∀ list operands env s,
        SameRun env (.pair (.pair (.symbol "lambda") (.ofList (list :: nested))) operands)
          (.pair (.pair (.symbol "lambda") (.ofList (list :: flat))) operands) s := by
  intro nested flat
  have some : ys ++ zs ≠ [] := by
    intro nothing
    obtain ⟨noInner, noLater⟩ := List.append_eq_nil_iff.mp nothing
    exact nonempty.elim (· noInner) (· noLater)
  refine ⟨?_, ?_, ?_⟩
  · intro env s
    have same : Interchangeable (sequenceOf nested) (sequenceOf flat) :=
      interchangeable_flat xs some (by simp [bodiesOf, nested]) (by simp [bodiesOf, flat])
    exact sameRun_of_evaluates (same s env)
  · intro body inner body' outer params frame operator operator' operands env s s₁ plain
      ⟨m, run⟩ ⟨n, run'⟩
    have value := evaluates_of_evaluate (run m (Nat.le_refl m))
    have value' := evaluates_of_evaluate (run' n (Nat.le_refl n))
    exact sameRun_calls (interchangeable_flat xs some inner outer) (fun form => (plain form).1)
      (fun form => (plain form).2) value value'
  · intro list operands env s
    have same : Interchangeable (Form.closureBody nested) (Form.closureBody flat) :=
      interchangeable_flat xs some (by simp [bodiesOf, nested]) (by simp [bodiesOf, flat])
    exact sameRun_abstractions (List.append_ne_nil_of_right_ne_nil xs (List.cons_ne_nil _ zs))
      (List.append_ne_nil_of_right_ne_nil xs some) same list

-- Where both are empty, the value of the inner sequence is lost.
example :
    evaluate 3 .unlimited Store.globalFrame (sequenceOf [.bool true, sequenceOf []]) Store.initial =
        .ok .unspecified Store.initial ∧
      evaluate 3 .unlimited Store.globalFrame (sequenceOf [.bool true]) Store.initial =
        .ok (.bool true) Store.initial :=
  ⟨rfl, rfl⟩

theorem empty_inner_sequence_dropped :
    let define : Value := .ofList [.symbol "define", .symbol "x", .empty]
    let closure (bodies : List Value) : Value :=
      .pair (.symbol "lambda") (.ofList (.ofList [.symbol "x"] :: bodies))
    let call (bodies : List Value) : Value := .pair (closure bodies) (.ofList [.bool true])
    ([define, .symbol "x"] : List Value) ≠ [] ∧
      SameRun Store.globalFrame (call [.symbol "x", sequenceOf [], define, .symbol "x"])
        (call [.symbol "x", define, .symbol "x"]) Store.initial := by
  intro define closure call
  have later : [define, .symbol "x"] ≠ [] := List.cons_ne_nil _ _
  have flattened := @nested_sequence_flattened [.symbol "x"] [] [define, .symbol "x"] (Or.inr later)
  exact ⟨later, flattened.2.2 (.ofList [.symbol "x"]) (.ofList [.bool true]) Store.globalFrame
    Store.initial⟩

end Schemelet
