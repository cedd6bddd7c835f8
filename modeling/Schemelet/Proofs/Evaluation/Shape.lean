import Schemelet.Proofs.Evaluation.Demand

/-! The shapes of the special forms. A form of the wrong shape fails before anything is evaluated,
and the second half of a form fails for no other reason. -/

namespace Schemelet

theorem Value.toList_of_some {v : Value} {items : List Value} (what : String)
    (proper : v.toList? = some items) : v.toList what = .ok items := by
  rw [toList, proper]

theorem Value.toList_of_none {v : Value} (what : String) (improper : v.toList? = none) :
    v.toList what = .error (.malformedForm (.improper what)) := by
  rw [toList, improper]

namespace Form

inductive Misshapen : Form → Value → EvalError → Prop where
  | improper {operands : Value} (form : Form) (shape : operands.toList? = none) :
      Misshapen form operands (.malformedForm (.improper (form.name ++ " form")))
  | quoteCount {operands : Value} {items : List Value} (shape : operands.toList? = some items)
      (count : items.length ≠ 1) : Misshapen .quotation operands (.malformedForm .quoteCount)
  | ifCount {operands : Value} {items : List Value} (shape : operands.toList? = some items)
      (count : items.length ≠ 2 ∧ items.length ≠ 3) :
      Misshapen .conditional operands (.malformedForm .ifCount)
  | lambdaCount {operands : Value} {items : List Value} (shape : operands.toList? = some items)
      (count : items.length < 2) : Misshapen .abstraction operands (.malformedForm .lambdaCount)
  | improperParameters {operands list body : Value} {bodies : List Value}
      (shape : operands.toList? = some (list :: body :: bodies)) (improper : list.toList? = none) :
      Misshapen .abstraction operands (.malformedForm (.improper "parameter list"))
  | parameterNotSymbol {operands list body p : Value} {bodies rest : List Value}
      {names : List String} (shape : operands.toList? = some (list :: body :: bodies))
      (parameters : list.toList? = some (names.map .symbol ++ p :: rest))
      (noSymbol : ∀ name, p ≠ .symbol name) :
      Misshapen .abstraction operands (.malformedForm (.parameterNotSymbol p))
  | parametersRepeated {operands list body : Value} {bodies : List Value} {names : List String}
      (shape : operands.toList? = some (list :: body :: bodies))
      (parameters : list.toList? = some (names.map .symbol)) (repeated : ¬ names.Nodup) :
      Misshapen .abstraction operands (.malformedForm .parametersRepeated)
  | defineCount {operands : Value} {items : List Value} (shape : operands.toList? = some items)
      (count : items.length ≠ 2) : Misshapen .definition operands (.malformedForm .defineCount)
  | defineName {operands v expr : Value} (shape : operands.toList? = some [v, expr])
      (noSymbol : ∀ name, v ≠ .symbol name) : Misshapen .definition operands (.invalidName v)

theorem symbols_or_other (items : List Value) :
    (∃ names : List String, items = names.map .symbol) ∨
      ∃ (names : List String) (p : Value) (rest : List Value),
        items = names.map .symbol ++ p :: rest ∧ ∀ name, p ≠ .symbol name := by
  induction items with
  | nil => exact .inl ⟨[], rfl⟩
  | cons item items ih =>
    by_cases symbol : ∃ name, item = .symbol name
    · obtain ⟨name, rfl⟩ := symbol
      rcases ih with ⟨names, rfl⟩ | ⟨names, p, rest, rfl, other⟩
      · exact .inl ⟨name :: names, rfl⟩
      · exact .inr ⟨name :: names, p, rest, rfl, other⟩
    · exact .inr ⟨[], item, items, rfl, fun name same => symbol ⟨name, same⟩⟩

theorem parameterNames_symbols (names : List String) (rest : List Value) :
    parameterNames (names.map .symbol ++ rest) = (names ++ ·) <$> parameterNames rest := by
  induction names with
  | nil => simp
  | cons name names ih => simp [parameterNames, ih, Functor.map_map]

theorem parameters_improper {list : Value} (improper : list.toList? = none) :
    parameters list = .error (.malformedForm (.improper "parameter list")) := by
  rw [parameters, Value.toList_of_none _ improper]
  rfl

theorem parameters_notSymbol {list p : Value} {names : List String} {rest : List Value}
    (proper : list.toList? = some (names.map .symbol ++ p :: rest))
    (other : ∀ name, p ≠ .symbol name) :
    parameters list = .error (.malformedForm (.parameterNotSymbol p)) := by
  have stop : parameterNames (p :: rest) = .error (.malformedForm (.parameterNotSymbol p)) := by
    cases p with
    | symbol name => exact absurd rfl (other name)
    | _ => rfl
  have read : parameterNames (names.map .symbol ++ p :: rest) =
      .error (.malformedForm (.parameterNotSymbol p)) := by
    rw [parameterNames_symbols, stop]
    rfl
  simp only [parameters, Value.toList_of_some _ proper, bind, Except.bind, read]

theorem parameters_symbols {list : Value} {names : List String}
    (proper : list.toList? = some (names.map .symbol)) :
    parameters list =
      if names.Nodup then .ok names else .error (.malformedForm .parametersRepeated) := by
  have read : parameterNames (names.map .symbol) = .ok names := by
    have read := parameterNames_symbols names []
    rw [List.append_nil] at read
    rw [read]
    simp [parameterNames, Functor.map, Except.map]
  simp only [parameters, Value.toList_of_some _ proper, bind, Except.bind, read]

theorem closure_of_shape {operands list body : Value} {bodies : List Value}
    (shape : operands.toList? = some (list :: body :: bodies)) (env : FrameId) :
    closure env operands =
      (parameters list).map fun params => .closure params (closureBody (body :: bodies)) env := by
  simp only [closure, Value.toList_of_some _ shape, bind, Except.bind]
  cases parameters list <;> rfl

theorem closure_of_misshapen {operands : Value} {e : EvalError}
    (fault : Misshapen .abstraction operands e) (env : FrameId) :
    closure env operands = .error e := by
  cases fault with
  | improper _ shape =>
    rw [closure, Value.toList_of_none _ shape]
    rfl
  | @lambdaCount _ items shape count =>
    rw [closure, Value.toList_of_some _ shape]
    match items with
    | [] | [_] => rfl
    | _ :: _ :: _ =>
      simp only [List.length_cons] at count
      omega
  | improperParameters shape improper =>
    rw [closure_of_shape shape, parameters_improper improper]
    rfl
  | parameterNotSymbol shape proper other =>
    rw [closure_of_shape shape, parameters_notSymbol proper other]
    rfl
  | parametersRepeated shape proper repeated =>
    rw [closure_of_shape shape, parameters_symbols proper, if_neg repeated]
    rfl

theorem closure_cases (env : FrameId) (operands : Value) :
    (∃ e, Misshapen .abstraction operands e) ∨
      ∃ list body bodies params, operands.toList? = some (list :: body :: bodies) ∧
        list.toList? = some (params.map .symbol) ∧ params.Nodup ∧
        closure env operands = .ok (.closure params (closureBody (body :: bodies)) env) := by
  cases shape : operands.toList? with
  | none => exact .inl ⟨_, .improper .abstraction shape⟩
  | some items =>
    match items with
    | [] | [_] => exact .inl ⟨_, .lambdaCount shape (by simp)⟩
    | list :: body :: bodies =>
      cases proper : list.toList? with
      | none => exact .inl ⟨_, .improperParameters shape proper⟩
      | some items =>
        rcases symbols_or_other items with ⟨names, rfl⟩ | ⟨names, p, rest, rfl, other⟩
        · by_cases distinct : names.Nodup
          · refine .inr ⟨list, body, bodies, names, rfl, proper, distinct, ?_⟩
            rw [closure_of_shape shape, parameters_symbols proper, if_pos distinct]
            rfl
          · exact .inl ⟨_, .parametersRepeated shape proper distinct⟩
        · exact .inl ⟨_, .parameterNotSymbol shape proper other⟩

theorem demands_of_misshapen {form : Form} {operands : Value} {e : EvalError}
    (fault : Misshapen form operands e) : form.demands operands = [] := by
  cases fault with
  | improper form shape => cases form <;> simp [demands, shape]
  | @ifCount _ items shape count =>
    rcases items with _ | ⟨test, _ | ⟨yes, _ | ⟨no, _ | _⟩⟩⟩
    · simp [demands, shape]
    · simp [demands, shape]
    · simp at count
    · simp at count
    · simp [demands, shape]
  | @defineCount _ items shape count =>
    rcases items with _ | ⟨target, _ | ⟨expr, _ | _⟩⟩
    · simp [demands, shape]
    · simp [demands, shape]
    · simp at count
    · simp [demands, shape]
  | @defineName _ v _ shape noSymbol =>
    cases v with
    | symbol name => exact absurd rfl (noSymbol name)
    | _ => simp [demands, shape]
  | _ => rfl

theorem finish_of_misshapen {form : Form} {operands : Value} {e : EvalError}
    (fault : Misshapen form operands e) (env : FrameId) (vs : List Value) :
    form.finish env operands vs = .fail e := by
  cases form with
  | quotation =>
    cases fault with
    | improper _ shape =>
      rw [finish, Value.toList_of_none _ shape]
      rfl
    | @quoteCount _ items shape count =>
      rw [finish, Value.toList_of_some _ shape]
      rcases items with _ | ⟨v, _ | _⟩
      · rfl
      · simp at count
      · rfl
  | conditional =>
    cases fault with
    | improper _ shape =>
      rw [finish, Value.toList_of_none _ shape]
      rfl
    | @ifCount _ items shape count =>
      rw [finish, Value.toList_of_some _ shape]
      rcases items with _ | ⟨test, _ | ⟨yes, _ | ⟨no, _ | _⟩⟩⟩
      · rfl
      · rfl
      · simp at count
      · simp at count
      · rfl
  | abstraction =>
    rw [finish, closure_of_misshapen fault]
    rfl
  | definition =>
    cases fault with
    | improper _ shape =>
      rw [finish, Value.toList_of_none _ shape]
      rfl
    | @defineCount _ items shape count =>
      rw [finish, Value.toList_of_some _ shape]
      rcases items with _ | ⟨target, _ | ⟨expr, _ | _⟩⟩
      · rfl
      · cases target <;> rfl
      · simp at count
      · cases target <;> rfl
    | @defineName _ v _ shape noSymbol =>
      rw [finish, Value.toList_of_some _ shape]
      cases v with
      | symbol name => exact absurd rfl (noSymbol name)
      | _ => rfl
  | sequence =>
    cases fault with
    | improper _ shape =>
      rw [finish, Value.toList_of_none _ shape]
      rfl

theorem quotation_cases (operands : Value) :
    (∃ e, Misshapen .quotation operands e) ∨ ∃ v, operands.toList? = some [v] := by
  cases shape : operands.toList? with
  | none => exact .inl ⟨_, .improper .quotation shape⟩
  | some items =>
    match items with
    | [v] => exact .inr ⟨v, rfl⟩
    | [] | _ :: _ :: _ => exact .inl ⟨_, .quoteCount shape (by simp)⟩

theorem conditional_cases (operands : Value) :
    (∃ e, Misshapen .conditional operands e) ∨
      ∃ (test yes : Value) (no : Option Value),
        operands.toList? = some (test :: yes :: no.toList) := by
  cases shape : operands.toList? with
  | none => exact .inl ⟨_, .improper .conditional shape⟩
  | some items =>
    match items with
    | [test, yes] => exact .inr ⟨test, yes, none, rfl⟩
    | [test, yes, no] => exact .inr ⟨test, yes, some no, rfl⟩
    | [] | [_] | _ :: _ :: _ :: _ :: _ => exact .inl ⟨_, .ifCount shape (by simp)⟩

theorem definition_cases (operands : Value) :
    (∃ e, Misshapen .definition operands e) ∨
      ∃ name expr, operands.toList? = some [.symbol name, expr] := by
  cases shape : operands.toList? with
  | none => exact .inl ⟨_, .improper .definition shape⟩
  | some items =>
    match items with
    | [target, expr] =>
      by_cases symbol : ∃ name, target = .symbol name
      · obtain ⟨name, rfl⟩ := symbol
        exact .inr ⟨name, expr, rfl⟩
      · exact .inl ⟨_, .defineName shape fun name same => symbol ⟨name, same⟩⟩
    | [] | [_] | _ :: _ :: _ :: _ => exact .inl ⟨_, .defineCount shape (by simp)⟩

theorem sequence_cases (operands : Value) :
    (∃ e, Misshapen .sequence operands e) ∨ ∃ exprs, operands.toList? = some exprs := by
  cases shape : operands.toList? with
  | none => exact .inl ⟨_, .improper .sequence shape⟩
  | some exprs => exact .inr ⟨exprs, rfl⟩

section

variable {operands : Value} (env : FrameId)

theorem finish_quotation {v : Value} (shape : operands.toList? = some [v]) (vs : List Value) :
    finish env operands vs .quotation = pure (.done v) := by
  rw [finish, Value.toList_of_some _ shape]
  rfl

theorem demands_conditional {test yes : Value} {no : Option Value}
    (shape : operands.toList? = some (test :: yes :: no.toList)) :
    demands operands .conditional = [test] := by
  cases no <;> simp_all [demands]

theorem finish_conditional_true {test yes v : Value} {no : Option Value}
    (shape : operands.toList? = some (test :: yes :: no.toList)) (notFalse : v ≠ .bool false) :
    finish env operands [v] .conditional = pure (.tail yes env) := by
  have decided : v.isFalse = false := by simpa [Value.isFalse] using notFalse
  rw [finish, Value.toList_of_some _ shape]
  cases no <;> simp [decided]

theorem finish_conditional_else {test yes no : Value}
    (shape : operands.toList? = some [test, yes, no]) :
    finish env operands [.bool false] .conditional = pure (.tail no env) := by
  rw [finish, Value.toList_of_some _ shape]
  rfl

theorem finish_conditional_none {test yes : Value} (shape : operands.toList? = some [test, yes]) :
    finish env operands [.bool false] .conditional = pure (.done .unspecified) := by
  rw [finish, Value.toList_of_some _ shape]
  rfl

theorem finish_abstraction {list body : Value} {bodies : List Value} {params : List String}
    (shape : operands.toList? = some (list :: body :: bodies))
    (parameters : list.toList? = some (params.map .symbol)) (distinct : params.Nodup)
    (vs : List Value) : finish env operands vs .abstraction =
      pure (.done (.closure params (closureBody (body :: bodies)) env)) := by
  rw [finish, closure_of_shape shape, parameters_symbols parameters, if_pos distinct]
  rfl

theorem demands_definition {name : String} {expr : Value}
    (shape : operands.toList? = some [.symbol name, expr]) :
    demands operands .definition = [expr] := by
  simp [demands, shape]

theorem finish_definition {name : String} {expr : Value}
    (shape : operands.toList? = some [.symbol name, expr]) (v : Value) (s : Store) :
    finish env operands [v] .definition s = .ok (.done .unspecified) (s.define env name v) := by
  rw [finish, Value.toList_of_some _ shape]
  rfl

theorem demands_sequence {exprs : List Value} (shape : operands.toList? = some exprs) :
    demands operands .sequence = exprs.dropLast := by
  simp [demands, shape]

theorem finish_sequence {exprs : List Value} (shape : operands.toList? = some exprs)
    (vs : List Value) : finish env operands vs .sequence =
      match exprs.getLast? with
      | some last => pure (.tail last env)
      | none => pure (.done .unspecified) := by
  rw [finish, Value.toList_of_some _ shape]
  rfl

end

end Form

end Schemelet
