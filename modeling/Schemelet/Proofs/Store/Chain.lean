import Schemelet.Proofs.Evaluation.Computation
import Schemelet.Proofs.Store.Binding

/-! Chains of frames. Where every link leads to an earlier frame and only the global frame has none,
the way outward from any frame ends in the global one, and every name that is bound there is
found. -/

namespace Schemelet

/-- A frame of this number has an outer frame with a smaller one, or it is the global frame and
binds the names of the primitives. -/
def Frame.Linked (id : FrameId) (f : Frame) : Prop :=
  match f.outer with
  | none => id = Store.globalFrame ∧ ∀ p : Primitive, p.name ∈ f.names
  | some outer => outer < id

namespace Store

inductive Ascends (s : Store) : FrameId → List FrameId → Prop where
  | outermost {id : FrameId} {f : Frame} (found : s.frames[id]? = some f) (last : f.outer = none) :
      Ascends s id [id]
  | outward {id outer : FrameId} {f : Frame} {ids : List FrameId} (found : s.frames[id]? = some f)
      (link : f.outer = some outer) (rest : Ascends s outer ids) : Ascends s id (id :: ids)

/-- The way outward ends in the global frame, a search goes this way and no other, and it finds
every name of a primitive. -/
structure Searchable (s : Store) (id : FrameId) : Prop where
  ends : ∃ ids, s.Ascends id ids ∧ ids.getLast? = some globalFrame ∧ (s.chain id).map (·.1) = ids
  lookup : ∀ p : Primitive, ∃ v, EvalM.lookup id p.name s = .ok v s
  find : ∀ p : Primitive, ∃ owner, s.find? id p.name = some owner

section

variable {s : Store} (linked : ∀ (id : FrameId) (f : Frame), s.frames[id]? = some f → f.Linked id)

include linked

theorem outer_of_linked {id : FrameId} {f : Frame} (found : s.frames[id]? = some f) :
    if id = globalFrame then f.outer = none else ∃ outer, f.outer = some outer ∧ outer < id := by
  have link := linked id f found
  unfold Frame.Linked at link
  split
  · rename_i global
    cases outward : f.outer with
    | none => rfl
    | some outer =>
      rw [outward, global] at link
      exact absurd link (Nat.not_lt_zero outer)
  · rename_i other
    cases outward : f.outer with
    | none =>
      rw [outward] at link
      exact absurd link.1 other
    | some outer =>
      rw [outward] at link
      exact ⟨outer, rfl, link⟩

theorem ascends_of_linked {id : FrameId} (inRange : id < s.frames.size) :
    s.Ascends id ((s.chain id).map (·.1)) ∧
      ∃ f, (s.chain id).getLast? = some (globalFrame, f) ∧ ∀ p : Primitive, p.name ∈ f.names := by
  fun_induction s.chain id with
  | case1 id missing =>
    have found : s.frames[id]? = some s.frames[id] := Array.getElem?_eq_getElem inRange
    rw [missing] at found
    cases found
  | case2 id f found last =>
    have link := linked id f found
    rw [Frame.Linked, last] at link
    obtain ⟨rfl, names⟩ := link
    exact ⟨.outermost found last, f, rfl, names⟩
  | case3 id f found outer link earlier ih =>
    obtain ⟨ascends, g, last, names⟩ := ih (Nat.lt_trans earlier inRange)
    refine ⟨.outward found link ascends, g, ?_, names⟩
    rw [List.getLast?_cons, last]
    rfl
  | case4 id f found outer link later =>
    have earlier := linked id f found
    rw [Frame.Linked, link] at earlier
    exact absurd earlier later

theorem searchable_of_linked {id : FrameId} (inRange : id < s.frames.size) : s.Searchable id := by
  obtain ⟨ascends, f, last, names⟩ := ascends_of_linked linked inRange
  have bound (p : Primitive) : (f.get? p.name).isSome = true := Frame.get?_isSome_iff.mpr (names p)
  have member : (globalFrame, f) ∈ s.chain id := List.mem_of_getLast? last
  refine ⟨⟨_, ascends, ?_, rfl⟩, ?_, ?_⟩
  · rw [List.getLast?_map, last]
    rfl
  · intro p
    have known : (s.lookup? id p.name).isSome = true :=
      List.findSome?_isSome_iff.mpr ⟨(globalFrame, f), member, bound p⟩
    obtain ⟨v, found⟩ := Option.isSome_iff_exists.mp known
    refine ⟨v, ?_⟩
    rw [EvalM.lookup_apply, found]
  · intro p
    have known : ((s.chain id).find? fun entry => (entry.2.get? p.name).isSome).isSome = true :=
      List.find?_isSome.mpr ⟨(globalFrame, f), member, bound p⟩
    obtain ⟨entry, found⟩ := Option.isSome_iff_exists.mp known
    exact ⟨entry.1, by rw [find?, found]; rfl⟩

end

end Store

end Schemelet
