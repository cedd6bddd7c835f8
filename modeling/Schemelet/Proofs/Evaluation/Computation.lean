import Schemelet.Evaluation.Step

/-! What the basic computations do to a store, and an order on computations: one approximates
another when they agree wherever the first is not cut short. -/

namespace Schemelet

section

variable {ε α β : Type}

theorem bind_apply (x : EStateM ε Store α) (f : α → EStateM ε Store β) (s : Store) :
    (x >>= f) s = match x s with
      | .ok a s => f a s
      | .error e s => .error e s := by
  change EStateM.bind x f s = _
  unfold EStateM.bind
  cases x s <;> rfl

theorem bind_of_ok {x : EStateM ε Store α} {a : α} {s s' : Store} (run : x s = .ok a s')
    (f : α → EStateM ε Store β) : (x >>= f) s = f a s' := by
  rw [bind_apply, run]

theorem bind_of_error {x : EStateM ε Store α} {e : ε} {s s' : Store} (run : x s = .error e s')
    (f : α → EStateM ε Store β) : (x >>= f) s = .error e s' := by
  rw [bind_apply, run]

end

namespace EvalM

variable {α β : Type}

@[simp] theorem pure_apply (a : α) (s : Store) : (pure a : EvalM α) s = .ok a s := rfl

@[simp] theorem throw_apply (h : Halt) (s : Store) : (throw h : EvalM α) s = .error h s := rfl

@[simp] theorem fail_apply (e : EvalError) (s : Store) :
    (fail e : EvalM α) s = .error (.error e) s := rfl

@[simp] theorem ofExcept_ok (a : α) : ofExcept (.ok a) = pure a := rfl

@[simp] theorem ofExcept_error (e : EvalError) : (ofExcept (.error e) : EvalM α) = fail e := rfl

@[simp] theorem fail_bind (e : EvalError) (f : α → EvalM β) : fail e >>= f = fail e := rfl

theorem lookup_apply (env : FrameId) (name : String) (s : Store) :
    lookup env name s = match s.lookup? env name with
      | some v => .ok v s
      | none => .error (.error (.undefinedVariable name)) s := by
  change (match s.lookup? env name with
    | some v => pure v
    | none => fail (.undefinedVariable name) : EvalM Value) s = _
  cases s.lookup? env name <;> rfl

@[simp] theorem define_apply (env : FrameId) (name : String) (v : Value) (s : Store) :
    define env name v s = .ok () (s.define env name v) := rfl

@[simp] theorem allocate_apply (f : Frame) (s : Store) :
    allocate f s = .ok s.frames.size (s.allocate f).2 := rfl

/-- Cut short by one of the given causes, or the same. -/
def Approximates (cut : Halt → Prop) (x y : EvalM α) : Prop :=
  ∀ s, (∃ h s', cut h ∧ x s = .error h s') ∨ x s = y s

variable {cut : Halt → Prop}

theorem Approximates.refl (x : EvalM α) : Approximates cut x x := fun _ => .inr rfl

theorem Approximates.trans {x y z : EvalM α} (first : Approximates cut x y)
    (second : Approximates cut y z) : Approximates cut x z := by
  intro s
  rcases first s with stopped | same
  · exact .inl stopped
  · rw [same]
    exact second s

theorem Approximates.bind {x y : EvalM α} {f g : α → EvalM β} (first : Approximates cut x y)
    (next : ∀ a, Approximates cut (f a) (g a)) : Approximates cut (x >>= f) (y >>= g) := by
  intro s
  rcases first s with ⟨h, s', known, run⟩ | same
  · exact .inl ⟨h, s', known, bind_of_error run f⟩
  · rw [bind_apply, bind_apply, ← same]
    cases x s with
    | ok a s' => exact next a s'
    | error h s' => exact .inr rfl

theorem Approximates.eq_of_not_cut {x y : EvalM α} (h : Approximates cut x y) {s : Store}
    (whole : ∀ h s', x s = .error h s' → ¬ cut h) : y s = x s := by
  rcases h s with ⟨h, s', known, run⟩ | same
  · exact absurd known (whole h s' run)
  · exact same.symm

end EvalM

end Schemelet
