import Schemelet.Proofs.Store.Binding

/-! Stores without the bindings of one name. Looking up, defining and binding other names goes on
there as it does in the whole store. -/

namespace Schemelet

namespace Frame

def without (name : String) (f : Frame) : Frame :=
  { f with bindings := f.bindings.filter (·.1 != name) }

@[simp] theorem outer_without (name : String) (f : Frame) : (f.without name).outer = f.outer := rfl

variable {name word : String} (other : word ≠ name)

include other

theorem get?_without (f : Frame) : (f.without name).get? word = f.get? word := by
  have agree (items : List (String × Value)) :
      (items.filter (·.1 != name)).lookup word = items.lookup word := by
    induction items with
    | nil => rfl
    | cons item items ih =>
      by_cases hidden : item.1 = name
      · have unequal : (word == item.1) = false := by
          rw [hidden]
          exact beq_eq_false_iff_ne.mpr other
        rw [List.filter_cons_of_neg (by simp [hidden]), List.lookup_cons, unequal, ih]
      · rw [List.filter_cons_of_pos (by simp [hidden]), List.lookup_cons, List.lookup_cons, ih]
  exact agree f.bindings

theorem filter_bind (v : Value) (items : List (String × Value)) :
    (bind word v items).filter (·.1 != name) = bind word v (items.filter (·.1 != name)) := by
  induction items with
  | nil => simp [bind, other]
  | cons item items ih =>
    by_cases same : item.1 = word
    · simp [bind, same, other]
    · by_cases hidden : item.1 = name
      · have unequal : name ≠ word := other.symm
        simp [bind, hidden, unequal, ih]
      · simp [bind, same, hidden, ih]

theorem without_define (f : Frame) (v : Value) :
    (f.define word v).without name = (f.without name).define word v := by
  unfold define without
  rw [filter_bind other]

omit other

theorem without_ofBindings {items : List (String × Value)} (free : ∀ item ∈ items, item.1 ≠ name)
    (outer : Option FrameId) : (ofBindings outer items).without name = ofBindings outer items := by
  have all : (ofBindings outer items).bindings.filter (·.1 != name) =
      (ofBindings outer items).bindings := by
    apply List.filter_eq_self.mpr
    intro item member
    exact bne_iff_ne.mpr (free item (mem_ofBindings member))
  unfold without
  rw [all]

end Frame

namespace Store

def without (name : String) (s : Store) : Store := ⟨s.frames.map (·.without name)⟩

@[simp] theorem size_without (name : String) (s : Store) :
    (s.without name).frames.size = s.frames.size :=
  Array.size_map

theorem frame_without (name : String) (s : Store) (id : FrameId) :
    (s.without name).frames[id]? = s.frames[id]?.map (·.without name) :=
  Array.getElem?_map

theorem binds_of_without {name word : String} {s : Store} {v : Value}
    (bound : (s.without name).Binds word v) : s.Binds word v ∧ word ≠ name := by
  obtain ⟨id, g, found, member⟩ := bound
  rw [frame_without] at found
  obtain ⟨f, old, rfl⟩ := Option.map_eq_some_iff.mp found
  obtain ⟨kept, other⟩ := List.mem_filter.mp member
  exact ⟨⟨id, f, old, kept⟩, bne_iff_ne.mp other⟩

theorem chain_without (name : String) (s : Store) (id : FrameId) :
    (s.without name).chain id = (s.chain id).map fun entry => (entry.1, entry.2.without name) := by
  fun_induction s.chain id with
  | case1 id missing =>
    rw [chain, frame_without, missing]
    rfl
  | case2 id f found last =>
    rw [chain, frame_without, found]
    simp only [Option.map_some, Frame.outer_without, last, List.map_cons, List.map_nil]
  | case3 id f found o linked earlier ih =>
    rw [chain, frame_without, found]
    simp only [Option.map_some, Frame.outer_without, linked, if_pos earlier, ih, List.map_cons]
  | case4 id f found o linked later =>
    rw [chain, frame_without, found]
    simp only [Option.map_some, Frame.outer_without, linked, if_neg later, List.map_cons,
      List.map_nil]

theorem lookup?_without {name word : String} (other : word ≠ name) (s : Store) (id : FrameId) :
    (s.without name).lookup? id word = s.lookup? id word := by
  unfold lookup?
  rw [chain_without, List.findSome?_map]
  congr 1
  funext entry
  exact Frame.get?_without other entry.2

theorem without_define {name word : String} (other : word ≠ name) (s : Store) (id : FrameId)
    (v : Value) : (s.define id word v).without name = (s.without name).define id word v := by
  unfold define without
  congr 1
  apply Array.ext_getElem?
  intro i
  simp only [Array.getElem?_map, Array.getElem?_modify]
  split
  · cases s.frames[i]? with
    | none => rfl
    | some f => exact congrArg some (Frame.without_define other f v)
  · rfl

theorem without_allocate {name : String} (s : Store) {f : Frame} (free : f.without name = f) :
    (s.allocate f).2.without name = ((s.without name).allocate f).2 := by
  simp only [allocate, without, Array.map_push, free]

end Store

end Schemelet
