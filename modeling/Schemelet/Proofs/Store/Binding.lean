import Schemelet.Proofs.Store.Change

/-! The bindings of a store: what definitions and new frames add to them, and that a name is looked
up among them. -/

namespace Schemelet

namespace Frame

theorem mem_bind {name : String} {v : Value} {items : List (String × Value)} {item : String × Value}
    (member : item ∈ bind name v items) : item ∈ items ∨ item = (name, v) := by
  induction items with
  | nil => exact Or.inr (List.mem_singleton.mp member)
  | cons first rest ih =>
    simp only [bind] at member
    split at member
    · rename_i same
      rcases List.mem_cons.mp member with new | old
      · right
        rw [new, same]
      · exact Or.inl (List.mem_cons_of_mem _ old)
    · rcases List.mem_cons.mp member with same | later
      · left
        rw [same]
        exact List.mem_cons_self
      · rcases ih later with old | new
        · exact Or.inl (List.mem_cons_of_mem _ old)
        · exact Or.inr new

theorem mem_foldl_define {f : Frame} {items : List (String × Value)} {item : String × Value}
    (member : item ∈ (items.foldl (fun f item => f.define item.1 item.2) f).bindings) :
    item ∈ f.bindings ∨ item ∈ items := by
  induction items generalizing f with
  | nil => exact Or.inl member
  | cons first rest ih =>
    rcases ih member with earlier | later
    · rcases mem_bind earlier with old | new
      · exact Or.inl old
      · right
        rw [new]
        exact List.mem_cons_self
    · exact Or.inr (List.mem_cons_of_mem _ later)

theorem mem_ofBindings {outer : Option FrameId} {items : List (String × Value)}
    {item : String × Value} (member : item ∈ (ofBindings outer items).bindings) :
    item ∈ items := by
  rcases mem_foldl_define member with impossible | member
  · cases impossible
  · exact member

theorem outer_foldl_define (f : Frame) (items : List (String × Value)) :
    (items.foldl (fun f item => f.define item.1 item.2) f).outer = f.outer := by
  induction items generalizing f with
  | nil => rfl
  | cons first rest ih => exact ih (f.define first.1 first.2)

@[simp] theorem outer_ofBindings (outer : Option FrameId) (items : List (String × Value)) :
    (ofBindings outer items).outer = outer :=
  outer_foldl_define ⟨[], outer⟩ items

theorem mem_of_get? {f : Frame} {name : String} {v : Value} (bound : f.get? name = some v) :
    (name, v) ∈ f.bindings := by
  obtain ⟨before, after, split, -⟩ := List.lookup_eq_some_iff.mp bound
  rw [split]
  exact List.mem_append_right before List.mem_cons_self

theorem get?_isSome_iff {f : Frame} {name : String} : (f.get? name).isSome ↔ name ∈ f.names := by
  rw [get?, List.lookup_isSome_iff, names, List.mem_map]
  constructor
  · rintro ⟨item, member, same⟩
    exact ⟨item, member, (beq_iff_eq.mp same).symm⟩
  · rintro ⟨item, member, same⟩
    exact ⟨item, member, beq_iff_eq.mpr same.symm⟩

end Frame

namespace Store

def Binds (s : Store) (name : String) (v : Value) : Prop :=
  ∃ (id : FrameId) (f : Frame), s.frames[id]? = some f ∧ (name, v) ∈ f.bindings

def values (s : Store) : List Value :=
  s.frames.toList.flatMap fun f => f.bindings.map (·.2)

theorem mem_values_iff {s : Store} {v : Value} : v ∈ s.values ↔ ∃ name, s.Binds name v := by
  simp only [values, List.mem_flatMap, List.mem_map]
  constructor
  · rintro ⟨f, member, ⟨name, w⟩, bound, rfl⟩
    obtain ⟨id, found⟩ := List.mem_iff_getElem?.mp member
    exact ⟨name, id, f, by simpa using found, bound⟩
  · rintro ⟨name, id, f, found, bound⟩
    refine ⟨f, ?_, (name, v), bound, rfl⟩
    exact List.mem_iff_getElem?.mpr ⟨id, by simpa using found⟩

@[simp] theorem size_define (s : Store) (id : FrameId) (name : String) (v : Value) :
    (s.define id name v).frames.size = s.frames.size :=
  Array.size_modify

@[simp] theorem size_allocate (s : Store) (f : Frame) :
    (s.allocate f).2.frames.size = s.frames.size + 1 :=
  Array.size_push f

theorem frame_of_define {s : Store} {own id : FrameId} {name : String} {v : Value} {g : Frame}
    (found : (s.define own name v).frames[id]? = some g) :
    s.frames[id]? = some g ∨ ∃ f, s.frames[id]? = some f ∧ g = f.define name v := by
  simp only [define, Array.getElem?_modify] at found
  split at found
  · obtain ⟨f, old, rfl⟩ := Option.map_eq_some_iff.mp found
    exact Or.inr ⟨f, old, rfl⟩
  · exact Or.inl found

theorem frame_of_allocate {s : Store} {f g : Frame} {id : FrameId}
    (found : (s.allocate f).2.frames[id]? = some g) :
    s.frames[id]? = some g ∨ (id = s.frames.size ∧ g = f) := by
  simp only [allocate, Array.getElem?_push] at found
  split at found
  · rename_i new
    exact Or.inr ⟨new, (Option.some.inj found).symm⟩
  · exact Or.inl found

theorem binds_of_define {s : Store} {own : FrameId} {name word : String} {v w : Value}
    (bound : (s.define own name v).Binds word w) :
    s.Binds word w ∨ (word = name ∧ w = v) := by
  obtain ⟨id, g, found, member⟩ := bound
  rcases frame_of_define found with same | ⟨f, old, rfl⟩
  · exact Or.inl ⟨id, g, same, member⟩
  · rcases Frame.mem_bind member with kept | new
    · exact Or.inl ⟨id, f, old, kept⟩
    · exact Or.inr (Prod.mk.inj new)

theorem binds_of_allocate {s : Store} {f : Frame} {word : String} {w : Value}
    (bound : (s.allocate f).2.Binds word w) : s.Binds word w ∨ (word, w) ∈ f.bindings := by
  obtain ⟨id, g, found, member⟩ := bound
  rcases frame_of_allocate found with same | ⟨-, rfl⟩
  · exact Or.inl ⟨id, g, same, member⟩
  · exact Or.inr member

theorem frame_of_mem_chain {s : Store} {id : FrameId} {entry : FrameId × Frame}
    (member : entry ∈ s.chain id) : s.frames[entry.1]? = some entry.2 := by
  fun_induction s.chain id with
  | case1 id missing => cases member
  | case2 id f found last =>
    rw [List.mem_singleton.mp member]
    exact found
  | case3 id f found o linked earlier ih =>
    rcases List.mem_cons.mp member with rfl | outward
    · exact found
    · exact ih outward
  | case4 id f found o linked later =>
    rw [List.mem_singleton.mp member]
    exact found

theorem binds_of_lookup? {s : Store} {id : FrameId} {name : String} {v : Value}
    (bound : s.lookup? id name = some v) : s.Binds name v := by
  obtain ⟨entry, member, found⟩ := List.exists_of_findSome?_eq_some bound
  exact ⟨entry.1, entry.2, frame_of_mem_chain member, Frame.mem_of_get? found⟩

theorem frame_initial {id : FrameId} {f : Frame} (found : initial.frames[id]? = some f) :
    id = globalFrame ∧ f = Frame.builtin := by
  cases id with
  | zero => exact ⟨rfl, (Option.some.inj found).symm⟩
  | succ id => cases found

theorem binds_initial {name : String} {v : Value} (bound : initial.Binds name v) :
    ∃ p : Primitive, v = .primitive p := by
  obtain ⟨id, f, found, member⟩ := bound
  obtain ⟨-, rfl⟩ := frame_initial found
  obtain ⟨p, -, same⟩ := List.mem_map.mp (Frame.mem_ofBindings member)
  exact ⟨p, (Prod.mk.inj same).2.symm⟩

theorem ChangesOnly.size_le {own : FrameId} {s t : Store} (change : s.ChangesOnly own t) :
    s.frames.size ≤ t.frames.size := by
  apply Nat.le_of_not_lt
  intro fewer
  -- The frame that would be missing is kept or extended, so it is there.
  have found : s.frames[t.frames.size]? = some s.frames[t.frames.size] :=
    Array.getElem?_eq_getElem fewer
  have missing : t.frames[t.frames.size]? = none := Array.getElem?_size
  by_cases same : t.frames.size = own
  · subst same
    obtain ⟨g, there, -⟩ := change.own _ found
    rw [missing] at there
    cases there
  · have there := change.others _ _ same found
    rw [missing] at there
    cases there

end Store

end Schemelet
