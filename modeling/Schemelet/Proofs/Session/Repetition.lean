import Mathlib.Data.Set.Function
import Mathlib.Order.Interval.Set.Defs
import Schemelet.Proofs.Evaluation.Copy
import Schemelet.Proofs.Session.FrameGraph

/-! Evaluating an expression a second time. An expression without definitions leaves the frames that
it finds as they are, and so these are a copy of themselves among all that it leaves: the second
evaluation goes the same way as the first, with new frames of its own. -/

namespace Schemelet

/-- The numbers from `n` on moved up by a gap, which makes room for the frames of a first run. -/
def FrameId.shift (n gap id : Nat) : Nat := if id < n then id else id + gap

namespace FrameId

variable {n gap : Nat}

theorem shift_of_lt {id : Nat} (below : id < n) : shift n gap id = id := if_pos below

theorem shift_of_le {id : Nat} (above : n ≤ id) : shift n gap id = id + gap :=
  if_neg (Nat.not_lt.mpr above)

theorem shift_lt_iff (id id' : Nat) : shift n gap id < shift n gap id' ↔ id < id' := by
  unfold shift
  split <;> split <;> omega

theorem bijOn_shift (n gap : Nat) :
    Set.BijOn (shift n gap) (Set.Ico n (n + gap)) (Set.Ico (n + gap) (n + gap + gap)) := by
  refine ⟨?_, ?_, ?_⟩
  · rintro id ⟨above, below⟩
    rw [shift_of_le above]
    exact ⟨Nat.add_le_add_right above gap, Nat.add_lt_add_right below gap⟩
  · rintro id ⟨above, -⟩ id' ⟨above', -⟩ same
    rw [shift_of_le above, shift_of_le above'] at same
    exact Nat.add_right_cancel same
  · rintro id ⟨above, below⟩
    obtain ⟨offset, rfl⟩ := Nat.exists_eq_add_of_le above
    refine ⟨n + offset, ⟨Nat.le_add_right n offset, by omega⟩, ?_⟩
    rw [shift_of_le (Nat.le_add_right n offset)]
    omega

end FrameId

open FrameId

section

variable {s s₁ : Store} {n gap : Nat}

theorem rename_shift {v : Value} (ok : frameGraph.value n v) : v.rename (shift n gap) = v := by
  apply Value.rename_of_fixed
  intro params body frame inside
  exact shift_of_lt (ok _ inside).1

theorem rename_shift_frame {id : FrameId} {f : Frame} (holds : frameGraph.Holds s)
    (found : s.frames[id]? = some f) : f.rename (shift s.frames.size gap) = f := by
  have old : id < s.frames.size := (Array.getElem?_eq_some_iff.mp found).1
  apply Frame.rename_of_fixed
  · intro outer outward
    have earlier := holds.frames id f found
    change Frame.Linked id f at earlier
    rw [Frame.Linked, outward] at earlier
    exact shift_of_lt (Nat.lt_trans earlier old)
  · intro item member
    exact rename_shift (holds.values item.1 item.2 ⟨id, f, found, member⟩)

theorem copiedTo_shift (holds : frameGraph.Holds s) (kept : s.Keeps s₁)
    (size : s₁.frames.size = s.frames.size + gap) :
    s.CopiedTo (shift s.frames.size gap) s₁ := by
  refine ⟨shift_lt_iff, ?_, ?_⟩
  · intro id
    rcases Nat.lt_or_ge id s.frames.size with old | new
    · have found := Array.getElem?_eq_getElem old
      rw [shift_of_lt old, kept id _ found, found, Option.map_some,
        rename_shift_frame holds found]
    · have further : s₁.frames.size ≤ id + gap := by
        rw [size]
        exact Nat.add_le_add_right new gap
      rw [shift_of_le new, Array.getElem?_eq_none further, Array.getElem?_eq_none new]
      rfl
  · intro m
    rw [shift_of_le (Nat.le_add_right _ m), size, Nat.add_right_comm]

/-- A second run goes as the one before it, from `s` to `s₁`, has gone: the frames that both find
keep their numbers, and those that the second makes are those that the first has made, under other
numbers. -/
structure Store.Repeats (ρ : FrameId → FrameId) (s s₁ s₂ : Store) : Prop where
  found : ∀ id < s.frames.size, ρ id = id
  made : Set.BijOn ρ (Set.Ico s.frames.size s₁.frames.size) (Set.Ico s₁.frames.size s₂.frames.size)
  frame : ∀ id, s₂.frames[ρ id]? = s₁.frames[id]?.map (·.rename ρ)

theorem repeats_shift {s₂ : Store} (size : s₁.frames.size = s.frames.size + gap)
    (copied : s₁.CopiedTo (shift s.frames.size gap) s₂) :
    s.Repeats (shift s.frames.size gap) s₁ s₂ := by
  have size₂ : s₂.frames.size = s.frames.size + gap + gap := by
    rw [← copied.size, size]
    exact shift_of_le (Nat.le_add_right _ gap)
  refine ⟨fun id => shift_of_lt, ?_, copied.frame⟩
  rw [size₂, size]
  exact bijOn_shift s.frames.size gap

end

/-- Two results of one kind: values that are equal but for the numbers of frames and print
identically, or failures of the same class and message. -/
def SameAnswer (ρ : FrameId → FrameId) :
    EStateM.Result Halt Store Value → EStateM.Result Halt Store Value → Prop
  | .ok v _, .ok v' _ => v' = v.rename ρ ∧ v'.printed = v.printed
  | .error h _, .error h' _ => h' = h.rename ρ ∧ h'.kind = h.kind ∧ h'.message = h.message
  | _, _ => False

namespace CopyOf

variable {ρ : FrameId → FrameId} {r r' : EStateM.Result Halt Store Value}

theorem copied (copy : CopyOf ρ (Value.rename ρ) r r') :
    (finalState r).CopiedTo ρ (finalState r') := by
  cases copy with
  | ok copied => exact copied
  | error copied => exact copied

theorem sameAnswer (copy : CopyOf ρ (Value.rename ρ) r r') : SameAnswer ρ r r' := by
  cases copy with
  | ok => exact ⟨rfl, Value.printed_rename _⟩
  | error => exact ⟨rfl, Halt.kind_rename _, Halt.message_rename _⟩

theorem outcome {o : Outcome Value} {s : Store}
    (copy : CopyOf ρ (Value.rename ρ) (o.result s) r') : ∃ o' s', r' = Outcome.result s' o' := by
  cases o with
  | ok v =>
    cases copy with
    | ok => exact ⟨.ok _, _, rfl⟩
  | error e =>
    cases copy with
    | error => exact ⟨.error _, _, rfl⟩

end CopyOf

theorem Outcome.finalState_result {α : Type} (o : Outcome α) (s : Store) :
    finalState (o.result s) = s := by
  cases o <;> rfl

theorem evaluate_again {env : FrameId} {expr : Value} {s : Store}
    (ok : frameGraph.At ⟨env, expr, s⟩) (free : expr.mentions "define" = false) (steps : Nat)
    (limit : Limit) {r : EStateM.Result Halt Store Value}
    (run : evaluate steps limit env expr s = r) :
    ∃ ρ, s.Repeats ρ (finalState r) (finalState (evaluate steps limit env expr (finalState r))) ∧
      CopyOf ρ (Value.rename ρ) r (evaluate steps limit env expr (finalState r)) := by
  subst run
  -- What the first run finds is unchanged in what it leaves, and so a copy of itself there.
  have kept := evaluate_keeps steps limit env free s
  generalize left : finalState (evaluate steps limit env expr s) = s₁ at kept ⊢
  obtain ⟨gap, size⟩ := Nat.exists_eq_add_of_le (kept.changesOnly env).size_le
  have copy := evaluate_copies steps limit env expr s s₁ (copiedTo_shift ok.holds kept size)
  rw [rename_shift ok.expr.2, shift_of_lt ok.scope] at copy
  have copied := copy.copied
  rw [left] at copied
  exact ⟨_, repeats_shift size copied, copy⟩

/-- Where frames and closures are in order, the second evaluation of an expression without
definitions repeats the first, under all limits; and if the first ends, so does the second. -/
theorem second_evaluation_repeats_first {env : FrameId} {expr : Value} {s : Store}
    (ok : frameGraph.At ⟨env, expr, s⟩) (free : expr.mentions "define" = false) :
    (∀ (steps : Nat) (limit : Limit) (r : EStateM.Result Halt Store Value),
      evaluate steps limit env expr s = r →
        ∃ ρ, s.Repeats ρ (finalState r)
            (finalState (evaluate steps limit env expr (finalState r))) ∧
          SameAnswer ρ r (evaluate steps limit env expr (finalState r))) ∧
      ∀ (o : Outcome Value) (s₁ : Store), EndsWith env expr s o s₁ →
        ∃ o' s₂ ρ, EndsWith env expr s₁ o' s₂ ∧ s.Repeats ρ s₁ s₂ ∧
          SameAnswer ρ (o.result s₁) (Outcome.result s₂ o') := by
  constructor
  · intro steps limit r run
    obtain ⟨ρ, repeats, copy⟩ := evaluate_again ok free steps limit run
    exact ⟨ρ, repeats, copy.sameAnswer⟩
  · rintro o s₁ ⟨enough, run⟩
    obtain ⟨ρ, repeats, copy⟩ := evaluate_again ok free enough .unlimited (run enough le_rfl)
    rw [o.finalState_result s₁] at repeats copy
    obtain ⟨o', s₂, ends⟩ := copy.outcome
    rw [ends] at repeats copy
    rw [o'.finalState_result s₂] at repeats
    exact ⟨o', s₂, ρ, endsWith_of_evaluates (evaluates_of_evaluate ends), repeats, copy.sameAnswer⟩

/-- Each call makes a frame with a definition in it, and a closure that keeps the frame. -/
theorem closures_made_anew :
    let define : Value := .ofList
      [.symbol "define", .symbol "m", .ofList [.symbol "cons", .symbol "n", .symbol "n"]]
    let result : Value := .ofList [.symbol "car", .symbol "m"]
    let body : Value := .ofList
      [.symbol "begin", define, .ofList [.symbol "lambda", .empty, result]]
    let s := Store.initial.define Store.globalFrame "keep"
      (.closure ["n"] body Store.globalFrame)
    let call (b : Bool) : Value := .ofList [.symbol "keep", .bool b]
    let expr : Value := .ofList [.symbol "cons", call true, call false]
    let v : Value := .pair (.closure [] result 1) (.closure [] result 2)
    frameGraph.At ⟨Store.globalFrame, expr, s⟩ ∧ expr.mentions "define" = false ∧
      ∃ s₁, EndsWith Store.globalFrame expr s (.ok v) s₁ ∧
        ∃ o' s₂ ρ, EndsWith Store.globalFrame expr s₁ o' s₂ ∧ s.Repeats ρ s₁ s₂ ∧
          SameAnswer ρ (.ok v s₁) (Outcome.result s₂ o') := by
  intro define result body s call expr v
  have ok : frameGraph.At ⟨Store.globalFrame, expr, s⟩ := by
    have tree : expr.isTree = true := by decide
    have closure : frameGraph.value Store.initial.frames.size
        (.closure ["n"] body Store.globalFrame) :=
      List.forall_mem_singleton.mpr ⟨Nat.zero_lt_one, by decide⟩
    exact ⟨frameGraph_initial.holds.define _ _ closure, Nat.zero_lt_one,
      Invariant.expr_of_isTree frameGraph_reads _ tree⟩
  have free : expr.mentions "define" = false := by decide
  have value : (match evaluate 9 .unlimited Store.globalFrame expr s with
      | .ok w _ => some w
      | .error _ _ => none) = some v := by decide +kernel
  refine ⟨ok, free, ?_⟩
  cases run : evaluate 9 .unlimited Store.globalFrame expr s with
  | ok w s₁ =>
    rw [run] at value
    cases value
    have ends : EndsWith Store.globalFrame expr s (.ok v) s₁ :=
      endsWith_of_evaluates (evaluates_of_evaluate run)
    exact ⟨s₁, ends, (second_evaluation_repeats_first ok free).2 _ s₁ ends⟩
  | error h s₁ =>
    rw [run] at value
    cases value

end Schemelet
