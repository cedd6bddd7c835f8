import Schemelet.File.Path
import Schemelet.Text.Basic
import Schemelet.Text.Quoted

/-! Files and directories below a working directory, and the opening of files in it. -/

namespace Schemelet

inductive FileFault where
  | missing
  | isDirectory
  | notDirectory
  | nameTooLong
  | nullCharacter
  deriving DecidableEq, Repr

namespace FileFault

def describe : FileFault → String
  | .missing => "[Errno 2] No such file or directory: "
  | .isDirectory => "[Errno 21] Is a directory: "
  | .notDirectory => "[Errno 20] Not a directory: "
  | .nameTooLong => "[Errno 36] File name too long: "
  | .nullCharacter => ""

def message (fault : FileFault) (path : Path) : String :=
  if fault = .nullCharacter then "embedded null byte" else fault.describe ++ Text.quoted path.text

end FileFault

abbrev Files := Path → Except FileFault (List UInt8)

inductive FileEntry where
  | file (bytes : List UInt8)
  | directory
  deriving DecidableEq, Repr

/-- Entries by their parts, from the working directory down. The directories on the way to an
entry need no entry of their own. -/
structure FileTree where
  entries : List (List String × FileEntry)
  deriving DecidableEq, Repr

namespace FileTree

inductive Place where
  | inside (parts : List String)
  | outside
  deriving DecidableEq, Repr

def entry? (t : FileTree) (parts : List String) : Option FileEntry :=
  match t.entries.lookup parts with
  | some e => some e
  | none => if t.entries.any fun e => parts.isPrefixOf e.1 then some .directory else none

/-- What stands at a place; the working directory itself and all places outside it that a walk
can reach are directories. -/
def at? (t : FileTree) : Place → Option FileEntry
  | .inside [] => some .directory
  | .inside parts => t.entry? parts
  | .outside => some .directory

def enter (t : FileTree) (place : Place) (part : String) : Except FileFault Place :=
  if part.utf8ByteSize > 255 then .error .nameTooLong
  else match place with
    | .outside => if part = ".." then .ok .outside else .error .missing
    | .inside parts =>
      if part = ".." then .ok (if parts = [] then .outside else .inside parts.dropLast)
      else match t.entry? (parts ++ [part]) with
        | some _ => .ok (.inside (parts ++ [part]))
        | none => .error .missing

def walk (t : FileTree) : Place → List String → Except FileFault Place
  | place, [] => .ok place
  | place, part :: parts =>
    match t.at? place with
    | some (.file _) => .error .notDirectory
    | _ => do walk t (← t.enter place part) parts

def read (t : FileTree) : Files := fun path =>
  if path.text.toList.contains '\x00' then .error .nullCharacter
  else if path.text.utf8ByteSize > 4095 then .error .nameTooLong
  else do
    let start := if path.root = .relative then .inside [] else .outside
    match t.at? (← t.walk start path.parts) with
    | some (.file bytes) => .ok bytes
    | some .directory => .error .isDirectory
    | none => .error .missing

end FileTree

end Schemelet
