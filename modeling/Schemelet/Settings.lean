import Schemelet.File.Path
import Schemelet.Text.Basic
import Schemelet.Text.Quoted

/-! Settings taken from environment variables. -/

namespace Schemelet

abbrev Variables := List (String × String)

inductive SettingError where
  | notAnInteger (text : String)
  | notPositive (n : Int)
  deriving DecidableEq, Repr

def SettingError.message : SettingError → String
  | .notAnInteger text => "TRAMP_RECURSION_LIMIT must be an integer, got " ++ Text.quoted text
  | .notPositive n => "TRAMP_RECURSION_LIMIT must be positive, got " ++ Numeral.integerText n

namespace Settings

def prompt (vars : Variables) : String := (vars.lookup "TRAMP_PROMPT").getD "scheme> "

/-- The digits of a numeral, of any script; a single underscore may stand between two of them. -/
def digitValues : List Char → Option (List Nat)
  | [] => none
  | [c] => (Text.decimalDigit? c).map ([·])
  | c :: '_' :: cs => do
    let d ← Text.decimalDigit? c
    let ds ← digitValues cs
    pure (d :: ds)
  | c :: cs => do
    let d ← Text.decimalDigit? c
    let ds ← digitValues cs
    pure (d :: ds)

def maxDigits : Nat := 4300

def natural? (cs : List Char) : Option Nat := do
  let ds ← digitValues cs
  if ds.length ≤ maxDigits then some (ds.foldl (fun n d => 10 * n + d) 0) else none

def integer? : List Char → Option Int
  | '-' :: cs => (natural? cs).map fun n => -(n : Int)
  | '+' :: cs => (natural? cs).map Int.ofNat
  | cs => (natural? cs).map Int.ofNat

def recursionLimit (vars : Variables) : Except SettingError (Option Nat) :=
  let text := Text.trimText ((vars.lookup "TRAMP_RECURSION_LIMIT").getD "")
  if text = "" then .ok none
  else match integer? text.toList with
    | none => .error (.notAnInteger text)
    | some n => if 0 < n then .ok (some n.toNat) else .error (.notPositive n)

/-- Letters in upper case; of the letters outside ASCII, only those that become one inside. -/
def upperLetter (c : Char) : Char :=
  if c = '\u0131' then 'I' else if c = '\u017F' then 'S' else c.toUpper

def levels : List (String × Nat) :=
  [("CRITICAL", 50), ("FATAL", 50), ("ERROR", 40), ("WARNING", 30), ("WARN", 30), ("INFO", 20),
   ("DEBUG", 10), ("NOTSET", 0)]

def logLevel (vars : Variables) : Nat :=
  let name := Text.trimText ((vars.lookup "TRAMP_LOG_LEVEL").getD "WARNING")
  (levels.lookup (name.map upperLetter)).getD 30

/-- Paths separated by colons; blank ones are left out. Without a text the defaults are taken. -/
def paths (raw : Option String) (defaults : List String) : List Path :=
  match raw with
  | none | some "" => defaults.map Path.ofText
  | some text =>
    let parts := (Text.split ':' text.toList).map fun part => String.ofList (Text.trim part)
    (parts.filter (· != "")).map Path.ofText

def preludeFiles (vars : Variables) : List Path := paths (vars.lookup "TRAMP_PRELUDE_PATH") []

end Settings

end Schemelet
