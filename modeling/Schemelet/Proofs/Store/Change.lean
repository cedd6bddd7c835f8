import Schemelet.Store.Basic

/-! How one store may follow another: with every frame as it was, or with changes in one frame only,
which loses no name and keeps its names in order. -/

namespace Schemelet

namespace Frame

def names (f : Frame) : List String := f.bindings.map (·.1)

structure ExtendedBy (f g : Frame) : Prop where
  outer : g.outer = f.outer
  names : f.names <+: g.names

namespace ExtendedBy

theorem refl (f : Frame) : f.ExtendedBy f := ⟨rfl, List.prefix_rfl⟩

theorem trans {f g h : Frame} (first : f.ExtendedBy g) (second : g.ExtendedBy h) :
    f.ExtendedBy h :=
  ⟨second.outer.trans first.outer, first.names.trans second.names⟩

end ExtendedBy

theorem names_prefix_bind (name : String) (v : Value) (items : List (String × Value)) :
    items.map (·.1) <+: (bind name v items).map (·.1) := by
  induction items with
  | nil => exact List.nil_prefix
  | cons item items ih =>
    simp only [bind]
    split
    · exact List.prefix_rfl
    · simpa using ih

theorem extendedBy_define (f : Frame) (name : String) (v : Value) :
    f.ExtendedBy (f.define name v) :=
  ⟨rfl, names_prefix_bind name v f.bindings⟩

end Frame

namespace Store

def Keeps (s s' : Store) : Prop :=
  ∀ (id : FrameId) (f : Frame), s.frames[id]? = some f → s'.frames[id]? = some f

structure ChangesOnly (own : FrameId) (s s' : Store) : Prop where
  others : ∀ (id : FrameId) (f : Frame), id ≠ own → s.frames[id]? = some f → s'.frames[id]? = some f
  own : ∀ f : Frame, s.frames[own]? = some f → ∃ g, s'.frames[own]? = some g ∧ f.ExtendedBy g

theorem Keeps.refl (s : Store) : s.Keeps s := fun _ _ found => found

theorem Keeps.trans {s t u : Store} (first : s.Keeps t) (second : t.Keeps u) : s.Keeps u :=
  fun id f found => second id f (first id f found)

theorem Keeps.changesOnly {s s' : Store} (same : s.Keeps s') (own : FrameId) :
    s.ChangesOnly own s' :=
  ⟨fun id f _ found => same id f found, fun f found => ⟨f, same own f found, .refl f⟩⟩

namespace ChangesOnly

variable {own : FrameId} {s t u : Store}

theorem refl (own : FrameId) (s : Store) : s.ChangesOnly own s := (Keeps.refl s).changesOnly own

theorem trans (first : s.ChangesOnly own t) (second : t.ChangesOnly own u) :
    s.ChangesOnly own u := by
  constructor
  · intro id f other found
    exact second.others id f other (first.others id f other found)
  · intro f found
    obtain ⟨g, foundNext, extended⟩ := first.own f found
    obtain ⟨h, foundLast, extendedAgain⟩ := second.own g foundNext
    exact ⟨h, foundLast, extended.trans extendedAgain⟩

theorem keeps_of_new (change : s.ChangesOnly own t) (new : s.frames.size ≤ own) : s.Keeps t := by
  intro id f found
  have old : id < s.frames.size := (Array.getElem?_eq_some_iff.mp found).1
  exact change.others id f (Nat.ne_of_lt (Nat.lt_of_lt_of_le old new)) found

end ChangesOnly

theorem changesOnly_define (s : Store) (own : FrameId) (name : String) (v : Value) :
    s.ChangesOnly own (s.define own name v) := by
  constructor
  · intro id f other found
    simp [define, Array.getElem?_modify, Ne.symm other, found]
  · intro f found
    refine ⟨f.define name v, ?_, f.extendedBy_define name v⟩
    simp [define, Array.getElem?_modify, found]

theorem keeps_allocate (s : Store) (f : Frame) : s.Keeps (s.allocate f).2 := by
  intro id g found
  have old : id < s.frames.size := (Array.getElem?_eq_some_iff.mp found).1
  simp only [allocate, Array.getElem?_push]
  rw [if_neg (Nat.ne_of_lt old)]
  exact found

end Store

end Schemelet
