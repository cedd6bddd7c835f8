import Schemelet.CommandLine.Argument
import Schemelet.Text.Quoted

/-! The options of a run, from all its arguments. -/

namespace Schemelet.CommandLine

structure Options where
  files : List String
  expr : Option String
  interactive : Bool
  deriving DecidableEq, Repr

inductive UsageError where
  | ambiguous (text : String)
  | valueRefused (flag : Flag) (value : String)
  | valueMissing
  | unrecognized (texts : List String)
  deriving DecidableEq, Repr

def Flag.text : Flag → String
  | .help => "-h/--help"
  | .interactive => "-i/--interactive"

def UsageError.message : UsageError → String
  | .ambiguous text =>
    "ambiguous option: " ++ text ++ " could match --help, --eval, --interactive"
  | .valueRefused flag value =>
    "argument " ++ flag.text ++ ": ignored explicit argument " ++ Text.quoted value
  | .valueMissing => "argument -e/--eval: expected one argument"
  | .unrecognized texts => "unrecognized arguments: " ++ " ".intercalate texts

inductive Request where
  | help
  | run (options : Options)
  | refuse (e : UsageError)
  deriving DecidableEq, Repr

/-- Files are one run of positional arguments: not begun, being collected, or over. -/
inductive Run where
  | waiting
  | collecting
  | closed
  deriving DecidableEq, Repr

structure Gathered where
  files : List String
  run : Run
  expr : Option String
  interactive : Bool
  extras : List String
  deriving DecidableEq, Repr

namespace Gathered

def initial : Gathered := ⟨[], .waiting, none, false, []⟩

def addPositional (g : Gathered) (text : String) : Gathered :=
  if g.run = .closed then { g with extras := g.extras ++ [text] }
  else { g with files := g.files ++ [text], run := .collecting }

/-- The separator belongs to the run it stands in and is no file. -/
def addSeparator (g : Gathered) : Gathered :=
  if g.run = .closed then { g with extras := g.extras ++ ["--"] } else { g with run := .collecting }

def endRun (g : Gathered) : Gathered :=
  if g.run = .collecting then { g with run := .closed } else g

def addFlags (g : Gathered) (flags : List Flag) : Gathered :=
  { g with interactive := g.interactive || flags.contains .interactive }

def addExtra (g : Gathered) (text : String) : Gathered := { g with extras := g.extras ++ [text] }

def request (g : Gathered) : Request :=
  if g.extras = [] then .run ⟨g.files, g.expr, g.interactive⟩ else .refuse (.unrecognized g.extras)

end Gathered

/-- Goes through the arguments in order. A call for help counts as soon as the argument that holds
it is complete. -/
def gather (g : Gathered) : List Argument → Request
  | [] => g.request
  | .positional text :: rest => gather (g.addPositional text) rest
  | .separator :: rest => gather g.addSeparator rest
  | .unknown text :: rest => gather (g.endRun.addExtra text) rest
  | .ambiguous text :: _ => .refuse (.ambiguous text)
  | .valueRefused flag value :: _ => .refuse (.valueRefused flag value)
  | .options flags .valueFollows :: .positional text :: rest =>
    if flags.contains .help then .help
    else gather { g.endRun.addFlags flags with expr := some text } rest
  | .options _ .valueFollows :: _ => .refuse .valueMissing
  | .options flags (.value text) :: rest =>
    if flags.contains .help then .help
    else gather { g.endRun.addFlags flags with expr := some text } rest
  | .options flags .complete :: rest =>
    if flags.contains .help then .help else gather (g.endRun.addFlags flags) rest

def ambiguous? (arguments : List Argument) : Option String :=
  arguments.findSome? fun
    | .ambiguous text => some text
    | _ => none

def request (texts : List String) : Request :=
  let arguments := Argument.ofTexts texts
  match ambiguous? arguments with
  | some text => .refuse (.ambiguous text)
  | none => gather .initial arguments

end Schemelet.CommandLine
