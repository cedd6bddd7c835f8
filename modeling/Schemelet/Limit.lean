/-! Limits on nesting, for reading and for evaluation. -/

namespace Schemelet

inductive Limit where
  | unlimited
  | atMost (levels : Nat)
  deriving DecidableEq, Repr

namespace Limit

def allows : Limit → Nat → Bool
  | .unlimited, _ => true
  | .atMost levels, depth => depth ≤ levels

def descend? : Limit → Option Limit
  | .unlimited => some .unlimited
  | .atMost 0 => none
  | .atMost (levels + 1) => some (.atMost levels)

def Le : Limit → Limit → Prop
  | _, .unlimited => True
  | .unlimited, .atMost _ => False
  | .atMost m, .atMost n => m ≤ n

namespace Le

theorem unlimited (limit : Limit) : limit.Le .unlimited := by
  cases limit <;> trivial

theorem allows {limit higher : Limit} (le : limit.Le higher) {depth : Nat}
    (allowed : limit.allows depth = true) : higher.allows depth = true := by
  cases higher with
  | unlimited => rfl
  | atMost n =>
    cases limit with
    | unlimited => exact le.elim
    | atMost m =>
      have below : m ≤ n := le
      simp only [Limit.allows, decide_eq_true_eq] at allowed ⊢
      omega

theorem descend {limit higher lower : Limit} (le : limit.Le higher)
    (down : limit.descend? = some lower) :
    ∃ lower', higher.descend? = some lower' ∧ lower.Le lower' := by
  cases higher with
  | unlimited => exact ⟨.unlimited, rfl, trivial⟩
  | atMost n =>
    cases limit with
    | unlimited => exact le.elim
    | atMost m =>
      have below : m ≤ n := le
      cases m with
      | zero => cases down
      | succ m =>
        cases down
        cases n with
        | zero => omega
        | succ n => exact ⟨.atMost n, rfl, Nat.le_of_succ_le_succ below⟩

end Le

end Limit

/-- The limits of a session. Evaluation ends after `steps` tail steps in a row or `steps` levels
down, which only serves to make it a total function: to run out of steps stands for never coming to
an end. -/
structure Limits where
  steps : Nat
  reading : Limit
  evaluating : Limit
  deriving DecidableEq, Repr

namespace Limits

/-- The limits under a given recursion limit: a level of reading takes one unit of it and a level
of evaluation two. This is an approximation. The test of a conditional, the value of a definition
and all but the last expression of a sequence are evaluated through the function of their form,
which takes a third unit. -/
def ofRecursion (units : Nat) : Limits := ⟨Nat.pow 2 62, .atMost units, .atMost (units / 2)⟩

def standard : Limits := ofRecursion 1000

structure Le (limits higher : Limits) : Prop where
  steps : limits.steps = higher.steps
  reading : limits.reading.Le higher.reading
  evaluating : limits.evaluating.Le higher.evaluating

theorem ofRecursion_le {units more : Nat} (le : units ≤ more) :
    (ofRecursion units).Le (ofRecursion more) :=
  ⟨rfl, le, Nat.div_le_div_right le⟩

end Limits

end Schemelet
