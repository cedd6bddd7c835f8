import Schemelet.CommandLine.Run

/-! The command line: gathers arguments, variables and files, and writes what the run reports. -/

namespace Schemelet.Main

open CommandLine

def variableNames : List String :=
  ["TRAMP_PROMPT", "TRAMP_RECURSION_LIMIT", "TRAMP_LOG_LEVEL", "TRAMP_PRELUDE_PATH"]

def readVariables : IO Variables := do
  let pairs ← variableNames.mapM fun name => do
    return (← IO.getEnv name).toList.map fun v => (name, v)
  return pairs.flatten

/-- A part of a path that is no directory shows when the file is opened, a directory in place of
the file only when it is read. -/
def faultOf : IO.Error → FileFault
  | .inappropriateType (some _) _ _ => .notDirectory
  | .inappropriateType none _ _ => .isDirectory
  | .invalidArgument _ _ _ => .nameTooLong
  | _ => .missing

def readContents (path : Path) : IO (Except FileFault (List UInt8)) := do
  if path.text.toList.contains '\x00' then return .error .nullCharacter
  try
    let bytes ← IO.FS.readBinFile path.text
    return .ok bytes.toList
  catch e => return .error (faultOf e)

def readFiles (paths : List Path) : IO Files := do
  let contents ← paths.mapM fun path => return (path, ← readContents path)
  return fun path => (contents.lookup path).getD (.error .missing)

partial def runLoop (vars : Variables) (loop : Loop) (s : Store) : IO Unit := do
  let stdout ← IO.getStdout
  stdout.putStr loop.prompt
  stdout.flush
  let line ← (← IO.getStdin).getLine
  if line.isEmpty then stdout.putStr "\n"
  else
    (← IO.getStderr).putStr (writeNotes vars (loopNotes loop.limits line))
    let (text, s) := ReadLoop.answer loop.limits line.toList s
    stdout.putStr text
    runLoop vars loop s

def write (report : Report) : IO UInt32 := do
  (← IO.getStdout).putStr report.output
  (← IO.getStderr).putStr report.errors
  match report.outcome with
  | .exit status => return status.toUInt32
  | .unusable cause =>
    (← IO.getStderr).putStr (cause.message ++ "\n")
    return 1

end Schemelet.Main

open Schemelet Schemelet.CommandLine Schemelet.Main in
def main (arguments : List String) : IO UInt32 := do
  let vars ← readVariables
  let files ← readFiles (paths ⟨arguments, vars, fun _ => .error .missing⟩)
  match start ⟨arguments, vars, files⟩ with
  | .finished report => write report
  | .looping loop =>
    (← IO.getStdout).putStr loop.output
    (← IO.getStderr).putStr loop.errors
    runLoop vars loop loop.store
    return 0
