import Schemelet.Evaluation.Step
import Schemelet.File.Tree
import Schemelet.Reader.Expression
import Schemelet.Text.Basic
import Schemelet.Text.Utf8

/-! Sessions: reading and evaluating in a global frame that outlives the single calls. What a
failing call defined before its failure stays defined. A read loop makes one call a line, and only
the end of its input stops it. -/

namespace Schemelet

/-- Why a call fails. That the stack is exhausted is an error with a kind of its own wherever
something is to be evaluated, but not where a text is only read. -/
inductive Failure where
  | read (e : ReadError)
  | stackExhausted
  | halt (h : Halt)
  | file (path : Path) (fault : FileFault)
  | encoding (fault : Utf8.Fault)
  deriving DecidableEq, Repr

namespace Failure

def message : Failure → String
  | .read e => e.message
  | .stackExhausted => "maximum recursion depth exceeded"
  | .halt h => h.message
  | .file path fault => fault.message path
  | .encoding fault => fault.message

def ofReading : ReadError → Failure
  | .tooDeep => .stackExhausted
  | e => .read e

end Failure

abbrev SessionM := EStateM Failure Store

namespace Session

def read (limits : Limits) (source : String) : SessionM Value :=
  match readOne limits.reading source with
  | .ok expr => pure expr
  | .error e => throw (.ofReading e)

def evaluate (limits : Limits) (expr : Value) : SessionM Value :=
  EStateM.adaptExcept .halt
    (Schemelet.evaluate limits.steps limits.evaluating Store.globalFrame expr)

def eval (limits : Limits) (source : String) : SessionM Value :=
  match readOne limits.reading source with
  | .ok expr => evaluate limits expr
  | .error e => throw (.read e)

def evaluateAll (limits : Limits) : Value → List Value → SessionM Value
  | last, [] => pure last
  | _, expr :: exprs => do
    let v ← evaluate limits expr
    evaluateAll limits v exprs

/-- Evaluates every expression of a source in order. Those before a fault of reading are
evaluated. -/
def evalSource (limits : Limits) (source : String) : SessionM Value := do
  let reading := readAll limits.reading source
  let v ← evaluateAll limits .unspecified reading.values
  match reading.fault with
  | none => pure v
  | some e => throw (.read e)

def readText (files : Files) (path : Path) : Except Failure String :=
  match files path with
  | .error fault => .error (.file path fault)
  | .ok bytes =>
    match Utf8.decode bytes with
    | .error fault => .error (.encoding fault)
    | .ok cs => .ok (String.ofList (Utf8.unifyNewlines cs))

def load (limits : Limits) (files : Files) (path : Path) : SessionM Value :=
  match readText files path with
  | .ok source => evalSource limits source
  | .error e => throw e

def loadAll (limits : Limits) (files : Files) : List Path → SessionM Unit
  | [] => pure ()
  | path :: paths => do
    let _ ← load limits files path
    loadAll limits files paths

def prepare (limits : Limits) (files : Files) (paths : List Path) (source : String) :
    SessionM Unit := do
  loadAll limits files paths
  let _ ← evalSource limits source

end Session

namespace ReadLoop

def answer (limits : Limits) (line : List Char) (s : Store) : String × Store :=
  if line.all Text.isBlank then ("", s)
  else match Session.eval limits (String.ofList line) s with
    | .ok .unspecified s => ("", s)
    | .ok v s => (v.printed ++ "\n", s)
    | .error e s => ("error: " ++ e.message ++ "\n", s)

def runLines (limits : Limits) (prompt : String) : List (List Char) → Store → String × Store
  | [], s => (prompt ++ "\n", s)
  | line :: rest, s =>
    let (text, s) := answer limits line s
    let (output, s) := runLines limits prompt rest s
    (prompt ++ text ++ output, s)

def run (limits : Limits) (prompt input : String) (s : Store) : String × Store :=
  runLines limits prompt (Text.lines input.toList) s

end ReadLoop

end Schemelet
