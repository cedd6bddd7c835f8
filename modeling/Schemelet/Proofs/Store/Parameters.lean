import Schemelet.Proofs.Store.Binding
import Schemelet.Store.Update

/-! New frames for distinct names. Such a frame binds each name once and in order; a name that it
does not bind is looked up in the frame it was made under, where nothing has changed. Making a
table of the names and writing it into an empty frame comes to the same. -/

namespace Schemelet

namespace Frame

theorem bind_of_new {name : String} {items : List (String × Value)}
    (new : name ∉ items.map (·.1)) (v : Value) : bind name v items = items ++ [(name, v)] := by
  induction items with
  | nil => rfl
  | cons item items ih =>
    simp only [List.map_cons, List.mem_cons, not_or] at new
    simp [bind, Ne.symm new.1, ih new.2]

theorem foldl_define_of_distinct (f : Frame) {items : List (String × Value)}
    (distinct : (f.names ++ items.map (·.1)).Nodup) :
    items.foldl (fun f item => f.define item.1 item.2) f = ⟨f.bindings ++ items, f.outer⟩ := by
  induction items generalizing f with
  | nil => simp
  | cons item items ih =>
    have new : item.1 ∉ f.bindings.map (·.1) := by
      intro known
      exact (List.nodup_append.mp distinct).2.2 _ known _ List.mem_cons_self rfl
    have bound : (f.define item.1 item.2).bindings = f.bindings ++ [item] := bind_of_new new item.2
    have rest : ((f.define item.1 item.2).names ++ items.map (·.1)).Nodup := by
      rw [names, bound]
      simpa [names] using distinct
    rw [List.foldl_cons, ih _ rest, bound, List.append_assoc]
    rfl

theorem ofBindings_of_distinct (outer : Option FrameId) {items : List (String × Value)}
    (distinct : (items.map (·.1)).Nodup) : ofBindings outer items = ⟨items, outer⟩ :=
  foldl_define_of_distinct ⟨[], outer⟩ distinct

theorem get?_of_mem {items : List (String × Value)} {outer : Option FrameId} {name : String}
    {v : Value} (distinct : (items.map (·.1)).Nodup) (member : (name, v) ∈ items) :
    get? ⟨items, outer⟩ name = some v := by
  obtain ⟨before, after, rfl⟩ := List.append_of_mem member
  refine List.lookup_eq_some_iff.mpr ⟨before, after, rfl, ?_⟩
  intro item earlier
  rw [List.map_append] at distinct
  have other := (List.nodup_append.mp distinct).2.2 _ (List.mem_map_of_mem earlier) name
    List.mem_cons_self
  simpa using Ne.symm other

end Frame

namespace Store

theorem chain_allocate (s : Store) (f : Frame) {id : FrameId} (old : id < s.frames.size) :
    (s.allocate f).2.chain id = s.chain id := by
  have same {id : FrameId} (old : id < s.frames.size) :
      (s.allocate f).2.frames[id]? = s.frames[id]? := by
    simp [allocate, Array.getElem?_push, Nat.ne_of_lt old]
  fun_induction s.chain id with
  | case1 id missing => rw [chain, same old, missing]
  | case2 id g found last =>
    rw [chain, same old, found]
    simp only [last]
  | case3 id g found outer link earlier ih =>
    rw [chain, same old, found]
    simp only [link, if_pos earlier, ih (Nat.lt_trans earlier old)]
  | case4 id g found outer link later =>
    rw [chain, same old, found]
    simp only [link, if_neg later]

theorem lookup?_new {s : Store} {f : Frame} {outer : FrameId} (link : f.outer = some outer)
    (earlier : outer < s.frames.size) (name : String) :
    (s.allocate f).2.lookup? s.frames.size name = (f.get? name).or (s.lookup? outer name) := by
  have found : (s.allocate f).2.frames[s.frames.size]? = some f := by simp [allocate]
  have way : (s.allocate f).2.chain s.frames.size = (s.frames.size, f) :: s.chain outer := by
    rw [chain, found]
    simp only [link, if_pos earlier, chain_allocate s f earlier]
  rw [lookup?, way, List.findSome?_cons]
  cases f.get? name <;> rfl

theorem define_allocate (s : Store) (f : Frame) (name : String) (v : Value) :
    (s.allocate f).2.define s.frames.size name v = (s.allocate (f.define name v)).2 := by
  simp only [define, allocate, Store.mk.injEq]
  apply Array.ext_getElem?
  intro id
  rw [Array.getElem?_modify]
  by_cases new : id = s.frames.size
  · simp [new]
  · simp [Array.getElem?_push, new, Ne.symm new]

theorem update_symbols (s : Store) (id : FrameId) (items : List (String × Value)) :
    s.update id (items.map fun item => (.symbol item.1, item.2)) =
      (none, items.foldl (fun s item => s.define id item.1 item.2) s) := by
  induction items generalizing s with
  | nil => rfl
  | cons item items ih => exact ih (s.define id item.1 item.2)

theorem foldl_define_allocate (s : Store) (f : Frame) (items : List (String × Value)) :
    items.foldl (fun t item => t.define s.frames.size item.1 item.2) (s.allocate f).2 =
      (s.allocate (items.foldl (fun f item => f.define item.1 item.2) f)).2 := by
  induction items generalizing f with
  | nil => rfl
  | cons item items ih => rw [List.foldl_cons, define_allocate, ih, List.foldl_cons]

end Store

namespace Table

def ofBindings (items : List (String × Value)) : Except TableError Table :=
  items.foldlM (fun table item => table.add (.symbol item.1) item.2) []

theorem add_new {items : List (String × Value)} {name : String} (new : name ∉ items.map (·.1))
    (v : Value) :
    add (items.map fun item => (.symbol item.1, item.2)) (.symbol name) v =
      .ok ((items ++ [(name, v)]).map fun item => (.symbol item.1, item.2)) := by
  have absent : ¬ (items.map fun item => (Value.symbol item.1, item.2)).any
      (fun entry => entry.1.sameKey (.symbol name)) = true := by
    intro present
    simp only [List.any_map, List.any_eq_true, Function.comp, Value.sameKey, beq_iff_eq] at present
    obtain ⟨item, member, rfl⟩ := present
    exact new (List.mem_map_of_mem member)
  simp only [add, Value.isPair, Bool.false_eq_true, if_false, if_neg absent, List.map_append]
  rfl

theorem ofBindings_of_distinct {items : List (String × Value)}
    (distinct : (items.map (·.1)).Nodup) :
    ofBindings items = .ok (items.map fun item => (.symbol item.1, item.2)) := by
  have from_any (before after : List (String × Value))
      (distinct : ((before ++ after).map (·.1)).Nodup) :
      after.foldlM (fun table item => Table.add table (.symbol item.1) item.2)
        (before.map fun item => (Value.symbol item.1, item.2)) =
        .ok ((before ++ after).map fun item => (.symbol item.1, item.2)) := by
    induction after generalizing before with
    | nil => rw [List.append_nil]; rfl
    | cons item after ih =>
      have new : item.1 ∉ before.map (·.1) := by
        intro known
        rw [List.map_append] at distinct
        exact (List.nodup_append.mp distinct).2.2 _ known _ List.mem_cons_self rfl
      have split : before ++ item :: after = before ++ [item] ++ after := by simp
      rw [List.foldlM_cons, add_new new, split]
      rw [split] at distinct
      exact ih (before ++ [item]) distinct
  exact from_any [] items distinct

end Table

end Schemelet
