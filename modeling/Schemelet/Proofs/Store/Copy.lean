import Schemelet.Proofs.Store.Binding
import Schemelet.Proofs.Value.Renaming

/-! Copies of a store inside another one, which may hold other frames between those of the copy. A
name has the same value in the copy, definitions and new frames are made in both alike, and so a
copy stays one. -/

namespace Schemelet

variable {ρ : FrameId → FrameId}

namespace Frame

def renameItem (ρ : FrameId → FrameId) (item : String × Value) : String × Value :=
  (item.1, item.2.rename ρ)

def rename (ρ : FrameId → FrameId) (f : Frame) : Frame :=
  ⟨f.bindings.map (renameItem ρ), f.outer.map ρ⟩

@[simp] theorem outer_rename (f : Frame) : (f.rename ρ).outer = f.outer.map ρ := rfl

theorem get?_rename (f : Frame) (name : String) :
    (f.rename ρ).get? name = (f.get? name).map (Value.rename ρ) := by
  have agree (items : List (String × Value)) :
      (items.map (renameItem ρ)).lookup name = (items.lookup name).map (Value.rename ρ) := by
    induction items with
    | nil => rfl
    | cons item items ih =>
      rw [List.map_cons, List.lookup_cons, List.lookup_cons, ih, renameItem]
      cases name == item.1 <;> rfl
  exact agree f.bindings

theorem map_bind (name : String) (v : Value) (items : List (String × Value)) :
    (bind name v items).map (renameItem ρ) = bind name (v.rename ρ) (items.map (renameItem ρ)) := by
  induction items with
  | nil => rfl
  | cons item items ih =>
    rw [bind, List.map_cons, renameItem, bind]
    split
    · rfl
    · rw [List.map_cons, ih]
      rfl

theorem rename_define (f : Frame) (name : String) (v : Value) :
    (f.define name v).rename ρ = (f.rename ρ).define name (v.rename ρ) := by
  unfold define rename
  rw [map_bind]

theorem rename_ofBindings (outer : Option FrameId) (items : List (String × Value)) :
    (ofBindings outer items).rename ρ = ofBindings (outer.map ρ) (items.map (renameItem ρ)) := by
  have agree (f : Frame) : (items.foldl (fun f item => f.define item.1 item.2) f).rename ρ =
      (items.map (renameItem ρ)).foldl (fun f item => f.define item.1 item.2) (f.rename ρ) := by
    induction items generalizing f with
    | nil => rfl
    | cons item items ih =>
      rw [List.foldl_cons, List.map_cons, List.foldl_cons, ih, rename_define]
      rfl
  exact agree ⟨[], outer⟩

/-- A renaming that keeps the link and the frames of all closures keeps the frame. -/
theorem rename_of_fixed {f : Frame} (link : ∀ outer, f.outer = some outer → ρ outer = outer)
    (values : ∀ item ∈ f.bindings, item.2.rename ρ = item.2) : f.rename ρ = f := by
  have bindings : f.bindings.map (renameItem ρ) = f.bindings := by
    have kept : ∀ item ∈ f.bindings, renameItem ρ item = item := by
      intro item member
      rw [renameItem, values item member]
    rw [List.map_congr_left kept, List.map_id']
  have outer : f.outer.map ρ = f.outer := by
    cases outward : f.outer with
    | none => rfl
    | some outer => exact congrArg some (link outer outward)
  rw [rename, bindings, outer]

end Frame

namespace Store

/-- Each frame of `s` is a frame of `t` under its other number, in the same order, and what is added
to both goes on so. -/
structure CopiedTo (ρ : FrameId → FrameId) (s t : Store) : Prop where
  order : ∀ id id', ρ id < ρ id' ↔ id < id'
  frame : ∀ id, t.frames[ρ id]? = s.frames[id]?.map (·.rename ρ)
  next : ∀ n, ρ (s.frames.size + n) = t.frames.size + n

namespace CopiedTo

variable {s t : Store}

theorem eq_iff (copied : CopiedTo ρ s t) {id id' : FrameId} : ρ id = ρ id' ↔ id = id' := by
  constructor
  · intro same
    rcases Nat.lt_trichotomy id id' with before | equal | behind
    · have strict := (copied.order id id').mpr before
      exact absurd same (Nat.ne_of_lt strict)
    · exact equal
    · have strict := (copied.order id' id).mpr behind
      exact absurd same.symm (Nat.ne_of_lt strict)
  · rintro rfl
    rfl

theorem size (copied : CopiedTo ρ s t) : ρ s.frames.size = t.frames.size := copied.next 0

theorem chain (copied : CopiedTo ρ s t) (id : FrameId) :
    t.chain (ρ id) = (s.chain id).map fun entry => (ρ entry.1, entry.2.rename ρ) := by
  fun_induction s.chain id with
  | case1 id missing =>
    rw [Store.chain, copied.frame, missing]
    rfl
  | case2 id f found last =>
    rw [Store.chain, copied.frame, found]
    simp only [Option.map_some, Frame.outer_rename, last, Option.map_none, List.map_cons,
      List.map_nil]
  | case3 id f found o linked earlier ih =>
    have before : ρ o < ρ id := (copied.order o id).mpr earlier
    rw [Store.chain, copied.frame, found]
    simp only [Option.map_some, Frame.outer_rename, linked, if_pos before, ih, List.map_cons]
  | case4 id f found o linked later =>
    have after : ¬ ρ o < ρ id := fun before => later ((copied.order o id).mp before)
    rw [Store.chain, copied.frame, found]
    simp only [Option.map_some, Frame.outer_rename, linked, if_neg after, List.map_cons,
      List.map_nil]

theorem lookup? (copied : CopiedTo ρ s t) (id : FrameId) (name : String) :
    t.lookup? (ρ id) name = (s.lookup? id name).map (Value.rename ρ) := by
  unfold Store.lookup?
  rw [copied.chain, List.findSome?_map, List.map_findSome?]
  congr 1
  funext entry
  exact Frame.get?_rename entry.2 name

theorem define (copied : CopiedTo ρ s t) (id : FrameId) (name : String) (v : Value) :
    CopiedTo ρ (s.define id name v) (t.define (ρ id) name (v.rename ρ)) := by
  refine ⟨copied.order, ?_, ?_⟩
  · intro id'
    simp only [Store.define, Array.getElem?_modify, copied.frame, copied.eq_iff]
    split
    · cases s.frames[id']? with
      | none => rfl
      | some f => exact congrArg some (f.rename_define name v).symm
    · rfl
  · intro n
    rw [size_define, size_define]
    exact copied.next n

theorem allocate (copied : CopiedTo ρ s t) (f : Frame) :
    CopiedTo ρ (s.allocate f).2 (t.allocate (f.rename ρ)).2 := by
  refine ⟨copied.order, ?_, ?_⟩
  · intro id
    simp only [Store.allocate, Array.getElem?_push, ← copied.size, copied.eq_iff, copied.frame]
    split
    · rfl
    · rfl
  · intro n
    rw [size_allocate, size_allocate, Nat.add_assoc, Nat.add_assoc]
    exact copied.next (1 + n)

end CopiedTo

end Store

end Schemelet
