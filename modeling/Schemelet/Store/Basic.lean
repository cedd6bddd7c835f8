import Schemelet.Value.Basic
import Schemelet.Value.Printer

/-! Frames of bindings and the store that holds them, with their written forms. A frame may have an
outer frame, which was made before it; a name means the nearest binding on the way outward. -/

namespace Schemelet

/-- The bindings of a frame stand in the order in which their names were first bound. -/
structure Frame where
  bindings : List (String × Value)
  outer : Option FrameId
  deriving DecidableEq, Repr

namespace Frame

/-- Rebinding a name keeps its place; a new name goes to the end. -/
def bind (name : String) (v : Value) : List (String × Value) → List (String × Value)
  | [] => [(name, v)]
  | (n, w) :: rest => if n = name then (n, v) :: rest else (n, w) :: bind name v rest

def define (f : Frame) (name : String) (v : Value) : Frame :=
  { f with bindings := bind name v f.bindings }

def get? (f : Frame) (name : String) : Option Value := f.bindings.lookup name

def ofBindings (outer : Option FrameId) (items : List (String × Value)) : Frame :=
  items.foldl (fun f item => f.define item.1 item.2) ⟨[], outer⟩

def builtin : Frame := ofBindings none (Primitive.all.map fun p => (p.name, .primitive p))

def text (f : Frame) : String :=
  let items := f.bindings.map fun item => item.1 ++ ": " ++ item.2.inspected
  "\x7b" ++ ", ".intercalate items ++ "\x7d"

end Frame

structure Store where
  frames : Array Frame
  deriving DecidableEq, Repr

namespace Store

def empty : Store := ⟨#[]⟩

def globalFrame : FrameId := 0

def initial : Store := ⟨#[Frame.builtin]⟩

def allocate (s : Store) (f : Frame) : FrameId × Store := (s.frames.size, ⟨s.frames.push f⟩)

def define (s : Store) (id : FrameId) (name : String) (v : Value) : Store :=
  ⟨s.frames.modify id (·.define name v)⟩

/-- The frames from the given one outward. Links lead to earlier frames only, so this ends. -/
def chain (s : Store) (id : FrameId) : List (FrameId × Frame) :=
  match s.frames[id]? with
  | none => []
  | some f =>
    match f.outer with
    | none => [(id, f)]
    | some o => if o < id then (id, f) :: chain s o else [(id, f)]
termination_by id

def lookup? (s : Store) (id : FrameId) (name : String) : Option Value :=
  (s.chain id).findSome? fun entry => entry.2.get? name

def find? (s : Store) (id : FrameId) (name : String) : Option FrameId :=
  ((s.chain id).find? fun entry => (entry.2.get? name).isSome).map (·.1)

def depth (s : Store) (id : FrameId) : Nat := (s.chain id).length - 1

def frameText (s : Store) (id : FrameId) : String :=
  match s.frames[id]? with
  | none => ""
  | some f => f.text ++ (if f.outer.isSome then " -> ..." else "")

def label (s : Store) (id : FrameId) : String :=
  if id = globalFrame then "global" else s.frameText id

def chainText (s : Store) (id : FrameId) : String :=
  "<Environment chain: " ++ " -> ".intercalate ((s.chain id).map (·.2.text)) ++ ">"

end Store

end Schemelet
