import Schemelet.Text.Basic

/-! File paths in normal form: empty parts and single dots are dropped, double dots stay, and two
slashes at the start mean another root than one. -/

namespace Schemelet

inductive PathRoot where
  | relative
  | single
  | double
  deriving DecidableEq, Repr

structure Path where
  root : PathRoot
  parts : List String
  deriving DecidableEq, Repr

namespace Path

def rootOf : List Char → PathRoot
  | '/' :: '/' :: '/' :: _ => .single
  | '/' :: '/' :: _ => .double
  | '/' :: _ => .single
  | _ => .relative

def ofText (s : String) : Path :=
  let parts := (Text.split '/' s.toList).map String.ofList
  ⟨rootOf s.toList, parts.filter fun part => part != "" && part != "."⟩

def rootText : PathRoot → String
  | .relative => ""
  | .single => "/"
  | .double => "//"

/-- The path with no parts and no root is the working directory. -/
def text (p : Path) : String :=
  if p.root = .relative ∧ p.parts = [] then "." else rootText p.root ++ "/".intercalate p.parts

end Path

end Schemelet
