import Schemelet.Proofs.Evaluation.Computation
import Schemelet.Proofs.Store.Rewriting
import Schemelet.Store.Basic

/-! Stores as their histories tell them. Frames are made and written to in any order, and some of
the writes fail; whatever is asked of the store then is answered from the successful writes and from
the frames that each frame was made under. -/

namespace Schemelet

namespace Table

def named : Table → List (String × Value)
  | (.symbol name, v) :: table => (name, v) :: named table
  | _ => []

end Table

namespace Store

theorem update_symbols_append (s : Store) (id : FrameId) (items : List (String × Value))
    (rest : Table) :
    s.update id (items.map (fun item => (.symbol item.1, item.2)) ++ rest) =
      (items.foldl (fun s item => s.define id item.1 item.2) s).update id rest := by
  induction items generalizing s with
  | nil => rfl
  | cons item items ih => exact ih (s.define id item.1 item.2)

section

variable {key : Value} (unfit : ∀ name, key ≠ .symbol name)

include unfit

theorem defineValue_of_not_symbol (s : Store) (id : FrameId) (v : Value) :
    s.defineValue id key v = .error (.invalidName key) := by
  cases key with
  | symbol name => exact absurd rfl (unfit name)
  | _ => rfl

theorem update_of_not_symbol (s : Store) (id : FrameId) (v : Value) (rest : Table) :
    s.update id ((key, v) :: rest) = (some (.invalidName key), s) := by
  rw [update, defineValue_of_not_symbol unfit]

end

/-- A table that is written to a frame leaves its entries up to the first key that is no symbol. -/
theorem update_eq_foldl_named (s : Store) (id : FrameId) (table : Table) :
    (s.update id table).2 = table.named.foldl (fun s item => s.define id item.1 item.2) s := by
  induction table generalizing s with
  | nil => rfl
  | cons entry table ih =>
    obtain ⟨key, v⟩ := entry
    cases key with
    | symbol name => exact ih (s.define id name v)
    | _ => rfl

theorem size_foldl_define (s : Store) (id : FrameId) (items : List (String × Value)) :
    (items.foldl (fun s item => s.define id item.1 item.2) s).frames.size = s.frames.size := by
  induction items generalizing s with
  | nil => rfl
  | cons item items ih => rw [List.foldl_cons, ih, size_define]

theorem frame_foldl_define {s : Store} {id : FrameId} {outer : Option FrameId}
    {writes : List (String × Value)} (found : s.frames[id]? = some (.ofBindings outer writes))
    (own : FrameId) (items : List (String × Value)) :
    (items.foldl (fun s item => s.define own item.1 item.2) s).frames[id]? =
      some (.ofBindings outer (writes ++ if own = id then items else [])) := by
  induction items generalizing s writes with
  | nil => simpa using found
  | cons item items ih =>
    rw [List.foldl_cons]
    by_cases same : own = id
    · have next : (s.define own item.1 item.2).frames[id]? =
          some (.ofBindings outer (writes ++ [item])) := by
        rw [Frame.ofBindings_concat, define, Array.getElem?_modify, if_pos same, found]
        rfl
      rw [ih next, if_pos same, if_pos same, List.append_assoc]
      rfl
    · have next : (s.define own item.1 item.2).frames[id]? = some (.ofBindings outer writes) := by
        rw [define, Array.getElem?_modify, if_neg same, found]
      rw [ih next, if_neg same, if_neg same]

end Store

/-- What was done to a store that had no frames, and how many it has now. A frame is made under an
earlier one or under none. -/
inductive History : Nat → Type where
  | start : History 0
  | create {count : Nat} (past : History count) (outer : Option (Fin count)) : History (count + 1)
  | define {count : Nat} (past : History count) (id : Fin count) (name v : Value) : History count
  | update {count : Nat} (past : History count) (id : Fin count) (table : Table) : History count

namespace History

def store : {count : Nat} → History count → Store
  | _, .start => .empty
  | _, .create past outer => (past.store.allocate ⟨[], outer.map Fin.val⟩).2
  | _, .define past id name v =>
    match past.store.defineValue id name v with
    | .ok s => s
    | .error _ => past.store
  | _, .update past id table => (past.store.update id table).2

def written : {count : Nat} → History count → FrameId → List (String × Value)
  | _, .start, _ => []
  | _, .create past _, id => past.written id
  | _, .define past own name v, id =>
    past.written id ++ if own = id then Table.named [(name, v)] else []
  | _, .update past own table, id => past.written id ++ if own = id then table.named else []

def outer : {count : Nat} → History count → FrameId → Option FrameId
  | _, .start, _ => none
  | _, @create count past outer, id => if id = count then outer.map Fin.val else past.outer id
  | _, .define past _ _ _, id | _, .update past _ _, id => past.outer id

def way : {count : Nat} → History count → FrameId → List FrameId
  | _, .start, _ => []
  | _, @create count past outer, id =>
    if id = count then id :: outer.elim [] fun outer => past.way outer else past.way id
  | _, .define past _ _ _, id | _, .update past _ _, id => past.way id

variable {count : Nat}

def frame (history : History count) (id : FrameId) : Frame :=
  ⟨listing (history.written id), history.outer id⟩

theorem frame_eq_ofBindings (history : History count) (id : FrameId) :
    history.frame id = .ofBindings (history.outer id) (history.written id) :=
  (Frame.ofBindings_eq_listing ..).symm

theorem get?_frame (history : History count) (id : FrameId) (name : String) :
    (history.frame id).get? name = lastWritten (history.written id) name := by
  rw [frame_eq_ofBindings, Frame.get?_ofBindings]

theorem outer_lt (history : History count) {id outer : FrameId}
    (link : history.outer id = some outer) : outer < id := by
  induction history with
  | start => cases link
  | create past first ih =>
    rw [History.outer] at link
    split at link
    · rename_i new
      obtain ⟨earlier, -, rfl⟩ := Option.map_eq_some_iff.mp link
      rw [new]
      exact earlier.isLt
    · exact ih link
  | define past own name v ih => exact ih link
  | update past own table ih => exact ih link

theorem way_eq (history : History count) {id : FrameId} (made : id < count) :
    history.way id = id :: (history.outer id).elim [] history.way := by
  induction history with
  | start => cases made
  | @create count past first ih =>
    -- A frame that is met on the way was there before the new one.
    have old {id : FrameId} (earlier : id < count) : (create past first).way id = past.way id :=
      if_neg (Nat.ne_of_lt earlier)
    by_cases new : id = count
    · rw [way, outer, if_pos new, if_pos new]
      cases first with
      | none => rfl
      | some outer => exact congrArg (id :: ·) (old outer.isLt).symm
    · have earlier : id < count := Nat.lt_of_le_of_ne (Nat.le_of_lt_succ made) new
      rw [old earlier, ih earlier, outer, if_neg new]
      cases link : past.outer id with
      | none => rfl
      | some outer =>
        exact congrArg (id :: ·) (old (Nat.lt_trans (past.outer_lt link) earlier)).symm
  | define past own name v ih => exact ih made
  | update past own table ih => exact ih made

theorem way_of_absent (history : History count) {id : FrameId} (absent : count ≤ id) :
    history.way id = [] := by
  induction history with
  | start => rfl
  | create past first ih => rw [way, if_neg (Nat.ne_of_gt absent), ih (Nat.le_of_succ_le absent)]
  | define past own name v ih => exact ih absent
  | update past own table ih => exact ih absent

theorem written_of_absent (history : History count) {id : FrameId} (absent : count ≤ id) :
    history.written id = [] := by
  have other {count : Nat} (absent : count ≤ id) (own : Fin count) : ¬ own.val = id :=
    Nat.ne_of_lt (Nat.lt_of_lt_of_le own.isLt absent)
  induction history with
  | start => rfl
  | create past first ih => exact ih (Nat.le_of_succ_le absent)
  | define past own name v ih => rw [written, ih absent, if_neg (other absent own)]; rfl
  | update past own table ih => rw [written, ih absent, if_neg (other absent own)]; rfl

theorem store_define (past : History count) (id : Fin count) (name v : Value) :
    (past.define id name v).store = (past.store.update id [(name, v)]).2 := by
  cases name <;> rfl

theorem size_store (history : History count) : history.store.frames.size = count := by
  induction history with
  | start => rfl
  | create past first ih => rw [store, Store.size_allocate, ih]
  | define past own name v ih =>
    rw [store_define, Store.update_eq_foldl_named, Store.size_foldl_define, ih]
  | update past own table ih =>
    rw [store, Store.update_eq_foldl_named, Store.size_foldl_define, ih]

theorem frame_store (history : History count) {id : FrameId} (made : id < count) :
    history.store.frames[id]? = some (history.frame id) := by
  -- Seen as what its writes make of an empty frame, a frame takes further writes at its end.
  rw [frame_eq_ofBindings]
  induction history with
  | start => cases made
  | @create count past first ih =>
    rw [outer, written]
    by_cases new : id = count
    · have place : id = past.store.frames.size := new.trans past.size_store.symm
      rw [if_pos new, past.written_of_absent (Nat.le_of_eq new.symm), place]
      exact Array.getElem?_push_size
    · rw [if_neg new]
      exact Store.keeps_allocate _ _ _ _ (ih (Nat.lt_of_le_of_ne (Nat.le_of_lt_succ made) new))
  | define past own name v ih =>
    rw [store_define, Store.update_eq_foldl_named]
    exact Store.frame_foldl_define (ih made) own _
  | update past own table ih =>
    rw [store, Store.update_eq_foldl_named]
    exact Store.frame_foldl_define (ih made) own _

theorem frame_store_of_absent (history : History count) {id : FrameId} (absent : count ≤ id) :
    history.store.frames[id]? = none := by
  rw [Array.getElem?_eq_none_iff, history.size_store]
  exact absent

theorem chain_store (history : History count) (id : FrameId) :
    history.store.chain id = (history.way id).map fun id => (id, history.frame id) := by
  induction id using Nat.strongRecOn with
  | ind id ih =>
    rw [Store.chain]
    by_cases made : id < count
    · rw [history.frame_store made, history.way_eq made]
      simp only [frame]
      cases link : history.outer id with
      | none => simp [link]
      | some outer =>
        have earlier := history.outer_lt link
        simp [link, earlier, ih outer earlier, frame]
    · have absent : count ≤ id := Nat.le_of_not_lt made
      rw [history.frame_store_of_absent absent, history.way_of_absent absent]
      rfl

theorem lookup?_store (history : History count) (id : FrameId) (name : String) :
    history.store.lookup? id name =
      (history.way id).findSome? fun frame => lastWritten (history.written frame) name := by
  rw [Store.lookup?, chain_store, List.findSome?_map]
  simp only [Function.comp_def, get?_frame]

theorem find?_store (history : History count) (id : FrameId) (name : String) :
    history.store.find? id name =
      (history.way id).find? fun frame => (lastWritten (history.written frame) name).isSome := by
  rw [Store.find?, chain_store, List.find?_map, Option.map_map]
  simp only [Function.comp_def, get?_frame, Option.map_id']

theorem chainText_store (history : History count) (id : FrameId) :
    history.store.chainText id = "<Environment chain: " ++
      " -> ".intercalate ((history.way id).map fun frame => (history.frame frame).text) ++ ">" := by
  have texts : (history.store.chain id).map (·.2.text) =
      (history.way id).map fun frame => (history.frame frame).text := by
    rw [chain_store, List.map_map]
    rfl
  delta Store.chainText
  rw [texts]

section

-- One frame on the way gets a value; the others keep what they have.
variable {own : FrameId} {value : FrameId → Option Value} {frames : List FrameId} (v : Value)

theorem findSome?_of_shown (shown : ∃ nearer farther, frames = nearer ++ own :: farther ∧
      ∀ frame ∈ nearer, value frame = none) :
    (frames.findSome? fun frame => if frame = own then some v else value frame) = some v := by
  obtain ⟨nearer, farther, rfl, free⟩ := shown
  rw [List.findSome?_append, List.findSome?_cons, if_pos rfl]
  cases before : nearer.findSome? fun frame => if frame = own then some v else value frame with
  | none => rfl
  | some w =>
    obtain ⟨frame, member, found⟩ := List.exists_of_findSome?_eq_some before
    split at found
    · exact found.symm
    · rw [free frame member] at found
      cases found

theorem findSome?_of_hidden (hidden : ¬ ∃ nearer farther, frames = nearer ++ own :: farther ∧
      ∀ frame ∈ nearer, value frame = none) :
    (frames.findSome? fun frame => if frame = own then some v else value frame) =
      frames.findSome? value := by
  induction frames with
  | nil => rfl
  | cons first rest ih =>
    have other : first ≠ own := by
      rintro rfl
      exact hidden ⟨[], rest, rfl, fun _ member => nomatch member⟩
    rw [List.findSome?_cons, List.findSome?_cons, if_neg other]
    cases found : value first with
    | some w => rfl
    | none =>
      apply ih
      rintro ⟨nearer, farther, split, free⟩
      refine hidden ⟨first :: nearer, farther, by rw [split]; rfl, ?_⟩
      exact List.forall_mem_cons.mpr ⟨found, free⟩

end

/-- The way from a frame to another passes no nearer frame that the name was written to. -/
def Sees (history : History count) (id own : FrameId) (name : String) : Prop :=
  ∃ nearer farther, history.way id = nearer ++ own :: farther ∧
    ∀ frame ∈ nearer, lastWritten (history.written frame) name = none

theorem lastWritten_define (past : History count) (own : Fin count) (name word : String) (v : Value)
    (id : FrameId) :
    lastWritten ((past.define own (.symbol name) v).written id) word =
      if word = name ∧ id = own then some v else lastWritten (past.written id) word := by
  rw [written]
  by_cases here : own.val = id
  · simp [here, Table.named, lastWritten_concat]
  · simp [here, Ne.symm here]

theorem lookup?_of_sees (history : History count) {own : Fin count} {id : FrameId} {name : String}
    (sees : history.Sees id own name) (v : Value) :
    (history.define own (.symbol name) v).store.lookup? id name = some v := by
  rw [lookup?_store]
  simp only [lastWritten_define, true_and]
  exact findSome?_of_shown v sees

theorem lookup?_of_not_sees (history : History count) {own : Fin count} {id : FrameId}
    {name word : String} (hidden : ¬ (word = name ∧ history.Sees id own name)) (v : Value) :
    (history.define own (.symbol name) v).store.lookup? id word =
      history.store.lookup? id word := by
  rw [lookup?_store, lookup?_store]
  simp only [lastWritten_define]
  by_cases same : word = name
  · subst same
    simp only [true_and]
    exact findSome?_of_hidden v fun sees => hidden ⟨rfl, sees⟩
  · simp only [same, false_and, if_false]
    rfl

theorem lookup?_eq_none_iff (history : History count) (id : FrameId) (name : String) :
    history.store.lookup? id name = none ↔ history.store.find? id name = none := by
  simp [lookup?_store, find?_store]

theorem find?_eq_none_iff (history : History count) (id : FrameId) (name : String) :
    history.store.find? id name = none ↔
      ∀ frame ∈ history.way id, ∀ v, (name, v) ∉ history.written frame := by
  simp [find?_store, lastWritten_eq_none_iff]

/-- What the history of a store says of every question to it and of every further write. -/
structure Tells (history : History count) : Prop where
  lookup : ∀ id name, EvalM.lookup id name history.store =
    match (history.way id).findSome? fun frame => lastWritten (history.written frame) name with
    | some v => .ok v history.store
    | none => .error (.error (.undefinedVariable name)) history.store
  find : ∀ id name, history.store.find? id name =
    (history.way id).find? fun frame => (lastWritten (history.written frame) name).isSome
  undefined : ∀ id name,
    EvalM.lookup id name history.store = .error (.error (.undefinedVariable name)) history.store ↔
      history.store.find? id name = none
  unfound : ∀ id name, history.store.find? id name = none ↔
    ∀ frame ∈ history.way id, ∀ v, (name, v) ∉ history.written frame
  -- A definition that fails changes nothing, and a table keeps what stands before its fault.
  notSymbol : ∀ (id : Fin count) (key v : Value), (∀ name, key ≠ .symbol name) →
    history.store.defineValue id key v = .error (.invalidName key) ∧
      (history.define id key v).store = history.store
  cutShort : ∀ (id : Fin count) (items : List (String × Value)) (key v : Value) (rest : Table),
    (∀ name, key ≠ .symbol name) →
    let entries : Table := items.map fun item => (.symbol item.1, item.2)
    let kept := items.foldl (fun s item => s.define id item.1 item.2) history.store
    history.store.update id entries = (none, kept) ∧
      history.store.update id (entries ++ (key, v) :: rest) = (some (.invalidName key), kept)
  -- A write is seen where its frame is the nearest one to bind the name, and nowhere else.
  seen : ∀ (own : Fin count) id name v, history.Sees id own name →
    (history.store.define own name v).lookup? id name = some v
  unseen : ∀ (own : Fin count) id name word v, ¬ (word = name ∧ history.Sees id own name) →
    (history.store.define own name v).lookup? id word = history.store.lookup? id word
  frames : history.store.frames = Array.ofFn fun id : Fin count => history.frame id
  frameText : ∀ id : Fin count, history.store.frameText id =
    (history.frame id).text ++ if (history.outer id).isSome then " -> ..." else ""
  chainText : ∀ id : Fin count, history.store.chainText id =
    "<Environment chain: " ++
      " -> ".intercalate ((history.way id).map fun frame => (history.frame frame).text) ++ ">"

theorem store_told_by_history (history : History count) : history.Tells where
  lookup id name := by
    have answer := EvalM.lookup_apply id name history.store
    rw [lookup?_store] at answer
    exact answer
  find := history.find?_store
  undefined id name := by
    rw [EvalM.lookup_apply, ← lookup?_eq_none_iff]
    cases history.store.lookup? id name <;> simp
  unfound := history.find?_eq_none_iff
  notSymbol id key v unfit := by
    have failed := history.store.defineValue_of_not_symbol unfit id v
    exact ⟨failed, by rw [store, failed]⟩
  cutShort id items key v rest unfit :=
    ⟨Store.update_symbols .., by rw [Store.update_symbols_append, Store.update_of_not_symbol unfit]⟩
  seen own id name v sees := history.lookup?_of_sees sees v
  unseen own id name word v hidden := history.lookup?_of_not_sees hidden v
  frames := by
    apply Array.ext_getElem?
    intro id
    rw [Array.getElem?_ofFn]
    split
    · rename_i made
      exact history.frame_store made
    · rename_i absent
      exact history.frame_store_of_absent (Nat.le_of_not_lt absent)
  frameText id := by
    rw [Store.frameText, history.frame_store id.isLt]
    rfl
  chainText id := history.chainText_store id

-- The inner frame hides the outer value, and the table is cut short before its last entry.
example :
    let table : Table := [(.symbol "x", .bool true), (.text "y", .empty), (.symbol "z", .empty)]
    let history := ((start.create none).create (some 0)).update 0 table
    let store := (history.define 1 (.symbol "x") (.bool false)).store
    store.lookup? 1 "x" = some (.bool false) ∧ store.lookup? 0 "x" = some (.bool true) ∧
      store.lookup? 1 "z" = none := by
  decide +kernel

end History

end Schemelet
