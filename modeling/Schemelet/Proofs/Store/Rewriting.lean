import Mathlib.Data.List.Induction
import Mathlib.Data.List.Nodup
import Schemelet.Proofs.Store.Parameters

/-! A frame that is written to again and again. Its names stand in the order in which they were
first written, and each of them has the value that was written last. -/

namespace Schemelet

def lastWritten (writes : List (String × Value)) (name : String) : Option Value :=
  writes.reverse.lookup name

def listing (writes : List (String × Value)) : List (String × Value) :=
  (writes.map (·.1)).eraseDups.filterMap fun name => (lastWritten writes name).map (name, ·)

theorem lookup_cons_eq_ite (item : String × Value) (items : List (String × Value)) (name : String) :
    (item :: items).lookup name = if name = item.1 then some item.2 else items.lookup name := by
  obtain ⟨first, v⟩ := item
  rw [List.lookup_cons]
  by_cases same : name = first
  · rw [if_pos same, beq_iff_eq.mpr same]
  · rw [if_neg same, beq_eq_false_iff_ne.mpr same]

theorem lastWritten_concat (writes : List (String × Value)) (name word : String) (v : Value) :
    lastWritten (writes ++ [(name, v)]) word =
      if word = name then some v else lastWritten writes word := by
  rw [lastWritten, List.reverse_concat, lookup_cons_eq_ite]
  rfl

theorem lastWritten_eq_none_iff {writes : List (String × Value)} {name : String} :
    lastWritten writes name = none ↔ ∀ v, (name, v) ∉ writes := by
  rw [lastWritten, List.lookup_eq_none_iff]
  constructor
  · intro absent v member
    simpa using absent (name, v) (List.mem_reverse.mpr member)
  · rintro absent ⟨word, v⟩ member
    apply bne_iff_ne.mpr
    rintro rfl
    exact absent v (List.mem_reverse.mp member)

namespace Frame

theorem get?_define (f : Frame) (name word : String) (v : Value) :
    (f.define name v).get? word = if word = name then some v else f.get? word := by
  have agree (items : List (String × Value)) :
      (bind name v items).lookup word = if word = name then some v else items.lookup word := by
    induction items with
    | nil => exact lookup_cons_eq_ite (name, v) [] word
    | cons item items ih =>
      by_cases known : item.1 = name
      · by_cases found : word = name <;> simp [bind, lookup_cons_eq_ite, known, found]
      · simp only [bind, if_neg known, lookup_cons_eq_ite, ih]
        by_cases found : word = item.1
        · rw [if_pos found, if_neg (found ▸ known), if_pos found]
        · simp only [if_neg found]
  exact agree f.bindings

theorem names_define (f : Frame) (name : String) (v : Value) :
    (f.define name v).names = if name ∈ f.names then f.names else f.names ++ [name] := by
  have agree (items : List (String × Value)) (known : name ∈ items.map (·.1)) :
      (bind name v items).map (·.1) = items.map (·.1) := by
    induction items with
    | nil => cases known
    | cons item items ih =>
      by_cases same : item.1 = name
      · simp [bind, same]
      · rcases List.mem_cons.mp known with first | later
        · exact absurd first.symm same
        · simp [bind, same, ih later]
  split
  · rename_i known
    exact agree f.bindings known
  · rename_i new
    rw [names, define, bind_of_new new, List.map_append]
    rfl

theorem bindings_of_distinct {f : Frame} (distinct : f.names.Nodup) :
    f.bindings = f.names.filterMap fun name => (f.get? name).map (name, ·) := by
  rw [names, List.filterMap_map]
  have each : ∀ item ∈ f.bindings, (f.get? item.1).map (item.1, ·) = some item := by
    intro item member
    rw [get?_of_mem distinct member]
    rfl
  calc f.bindings
    _ = f.bindings.filterMap some := List.filterMap_some.symm
    _ = _ := List.filterMap_congr fun item member => (each item member).symm

section

variable (outer : Option FrameId)

theorem ofBindings_concat (writes : List (String × Value)) (name : String) (v : Value) :
    ofBindings outer (writes ++ [(name, v)]) = (ofBindings outer writes).define name v :=
  List.foldl_concat ..

theorem get?_ofBindings (writes : List (String × Value)) (name : String) :
    (ofBindings outer writes).get? name = lastWritten writes name := by
  induction writes using List.reverseRecOn with
  | nil => rfl
  | append_singleton writes write ih =>
    rw [ofBindings_concat, get?_define, lastWritten_concat, ih]

theorem names_ofBindings (writes : List (String × Value)) :
    (ofBindings outer writes).names = (writes.map (·.1)).eraseDups := by
  induction writes using List.reverseRecOn with
  | nil => rfl
  | append_singleton writes write ih =>
    rw [ofBindings_concat, names_define, ih, List.map_append, List.eraseDups_append]
    by_cases known : write.1 ∈ writes.map (·.1)
    · simp [List.removeAll, known]
    · simp [List.removeAll, known, List.eraseDups_cons]

theorem distinct_ofBindings (writes : List (String × Value)) :
    (ofBindings outer writes).names.Nodup := by
  induction writes using List.reverseRecOn with
  | nil => exact List.nodup_nil
  | append_singleton writes write ih =>
    rw [ofBindings_concat, names_define]
    split
    · exact ih
    · rename_i new
      rw [← List.concat_eq_append]
      exact List.Nodup.concat new ih

theorem ofBindings_eq_listing (writes : List (String × Value)) :
    ofBindings outer writes = ⟨listing writes, outer⟩ := by
  have values := bindings_of_distinct (distinct_ofBindings outer writes)
  simp only [names_ofBindings, get?_ofBindings] at values
  rw [listing, ← values]
  exact congrArg (Frame.mk _) (outer_ofBindings outer writes)

end

end Frame

end Schemelet
