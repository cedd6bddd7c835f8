import Schemelet.CommandLine.Options
import Schemelet.Session
import Schemelet.Settings

/-! A run of the command line, as a function of what it is given. Prelude files, files and the
expression are evaluated in this order in one session; the first failure ends the run. The read
loop follows when it is asked for, or when there is nothing else to do. -/

namespace Schemelet.CommandLine

structure Invocation where
  arguments : List String
  vars : Variables
  files : Files

inductive Unusable where
  | setting (e : SettingError)
  | limitTooLarge
  | limitTooSmall
  | nullCharacter (path : Path)
  deriving DecidableEq, Repr

def Unusable.message : Unusable → String
  | .setting e => e.message
  | .limitTooLarge => "Python int too large to convert to C int"
  | .limitTooSmall => "maximum recursion depth exceeded"
  | .nullCharacter path => FileFault.nullCharacter.message path

/-- How a run ends: with an exit status, or with something from outside that cannot be used. -/
inductive Outcome where
  | exit (status : Nat)
  | unusable (cause : Unusable)
  deriving DecidableEq, Repr

structure Report where
  outcome : Outcome
  output : String
  errors : String
  deriving DecidableEq, Repr

structure Loop where
  limits : Limits
  prompt : String
  store : Store
  output : String
  errors : String

inductive Stage where
  | finished (report : Report)
  | looping (loop : Loop)

def usage : String := "usage: tramp [-h] [-e EXPR] [-i] [files ...]\n"

def helpText : String :=
  usage ++ "\n" ++
  "A small Scheme-like interpreter with proper tail calls.\n" ++
  "\n" ++
  "positional arguments:\n" ++
  "  files                 source files to evaluate in order\n" ++
  "\n" ++
  "options:\n" ++
  "  -h, --help            show this help message and exit\n" ++
  "  -e EXPR, --eval EXPR  evaluate one expression and print its value\n" ++
  "  -i, --interactive     start the read loop after evaluating files\n"

/-- What a run writes about itself when the log level asks for it. -/
inductive Note where
  | limitSet (limit : Nat)
  | preludeFile (path : Path)
  | sourceFile (name : String)
  | parsed (expr : Value)
  deriving DecidableEq, Repr

def Note.line : Note → String
  | .limitSet limit => "DEBUG tramp: setting recursion limit to " ++ Numeral.text limit ++ "\n"
  | .preludeFile path => "DEBUG tramp.interpreter: loading prelude file " ++ path.text ++ "\n"
  | .sourceFile name => "DEBUG tramp: loading " ++ name ++ "\n"
  | .parsed expr => "DEBUG tramp.interpreter: parsed " ++ expr.inspected ++ "\n"

def noteLevel : Nat := 10

def writeNotes (vars : Variables) (notes : List Note) : String :=
  if Settings.logLevel vars ≤ noteLevel then String.join (notes.map Note.line) else ""

def parsedNotes (limits : Limits) (source : String) : List Note :=
  match readOne limits.reading source with
  | .ok expr => [.parsed expr]
  | .error _ => []

def loopNotes (limits : Limits) (input : String) : List Note :=
  ((Text.lines input.toList).filter fun line => !line.all Text.isBlank).flatMap fun line =>
    parsedNotes limits (String.ofList line)

inductive Item where
  | preludeFile (path : Path)
  | sourceFile (name : String)
  | expression (source : String)
  deriving DecidableEq, Repr

def items (preludes : List Path) (options : Options) : List Item :=
  preludes.map .preludeFile ++ options.files.map .sourceFile ++
    options.expr.toList.map .expression

namespace Item

def evaluate (limits : Limits) (files : Files) : Item → SessionM Value
  | .preludeFile path => Session.load limits files path
  | .sourceFile name => Session.load limits files (.ofText name)
  | .expression source => Session.eval limits source

def printed : Item → Value → String
  | .expression _, .unspecified => ""
  | .expression _, v => v.printed ++ "\n"
  | _, _ => ""

def notes (limits : Limits) : Item → List Note
  | .preludeFile path => [.preludeFile path]
  | .sourceFile name => [.sourceFile name]
  | .expression source => parsedNotes limits source

end Item

/-- What is left after the items: the store, what was written, the notes, and the failure of the
last item that was tried, if it failed. -/
structure Progress where
  store : Store
  output : String
  notes : List Note
  failure : Option Failure

def runItems (limits : Limits) (files : Files) : List Item → Store → Progress
  | [], s => ⟨s, "", [], none⟩
  | item :: rest, s =>
    match item.evaluate limits files s with
    | .error e s => ⟨s, "", item.notes limits, some e⟩
    | .ok v s =>
      let p := runItems limits files rest s
      { p with output := item.printed v ++ p.output, notes := item.notes limits ++ p.notes }

def startsLoop (options : Options) : Bool :=
  options.interactive || (options.files.isEmpty && options.expr.isNone)

def failed (output notes : String) : Failure → Report
  | .file path .nullCharacter => ⟨.unusable (.nullCharacter path), output, notes⟩
  | .stackExhausted => ⟨.unusable .limitTooSmall, output, notes⟩
  | e => ⟨.exit 1, output, notes ++ "error: " ++ e.message ++ "\n"⟩

def maxLimit : Nat := 2147483647

/-- What a run takes of its recursion limit before it reads anything. -/
def ownUnits : Nat := 10

def unusableLimit? (limit : Nat) : Option Unusable :=
  if maxLimit < limit then some .limitTooLarge
  else if limit ≤ ownUnits then some .limitTooSmall
  else none

def startOptions (invocation : Invocation) (options : Options) (limit : Option Nat) : Stage :=
  let vars := invocation.vars
  let limits := (limit.map Limits.ofRecursion).getD .standard
  let p := runItems limits invocation.files (items (Settings.preludeFiles vars) options) .initial
  let notes := writeNotes vars (limit.toList.map .limitSet ++ p.notes)
  match p.failure with
  | some e => .finished (failed p.output notes e)
  | none =>
    if startsLoop options then .looping ⟨limits, Settings.prompt vars, p.store, p.output, notes⟩
    else .finished ⟨.exit 0, p.output, notes⟩

def start (invocation : Invocation) : Stage :=
  match request invocation.arguments with
  | .help => .finished ⟨.exit 0, helpText, ""⟩
  | .refuse e => .finished ⟨.exit 2, "", usage ++ "tramp: error: " ++ e.message ++ "\n"⟩
  | .run options =>
    match Settings.recursionLimit invocation.vars with
    | .error e => .finished ⟨.unusable (.setting e), "", ""⟩
    | .ok limit =>
      match limit.bind unusableLimit? with
      | some cause =>
        .finished ⟨.unusable cause, "", writeNotes invocation.vars (limit.toList.map .limitSet)⟩
      | none => startOptions invocation options limit

def Loop.finish (loop : Loop) (vars : Variables) (input : String) : Report :=
  let (text, _) := ReadLoop.run loop.limits loop.prompt input loop.store
  ⟨.exit 0, loop.output ++ text, loop.errors ++ writeNotes vars (loopNotes loop.limits input)⟩

def run (invocation : Invocation) (input : String) : Report :=
  match start invocation with
  | .finished report => report
  | .looping loop => loop.finish invocation.vars input

def paths (invocation : Invocation) : List Path :=
  match request invocation.arguments with
  | .run options => Settings.preludeFiles invocation.vars ++ options.files.map .ofText
  | _ => []

end Schemelet.CommandLine
