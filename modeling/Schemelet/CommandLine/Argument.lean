import Schemelet.Text.Basic

/-! What a single command-line argument says, before its neighbours are looked at. -/

namespace Schemelet.CommandLine

inductive Flag where
  | help
  | interactive
  deriving DecidableEq, Repr

/-- How an argument with options ends: with the last flag, with the value of the option for an
expression, or with that option, whose value is to follow. -/
inductive Ending where
  | complete
  | value (text : String)
  | valueFollows
  deriving DecidableEq, Repr

inductive Argument where
  | positional (text : String)
  | separator
  | options (flags : List Flag) (ending : Ending)
  | unknown (text : String)
  | valueRefused (flag : Flag) (value : String)
  | ambiguous (text : String)
  deriving DecidableEq, Repr

namespace Argument

/-- A value within the argument of its option. The separator does not count as text, so that a
value of nothing else is empty. -/
def ownValue (cs : List Char) : Ending :=
  .value (if cs = ['-', '-'] then "" else String.ofList cs)

def ofLetters (flags : List Flag) (flag : Flag) : List Char → Argument
  | [] => .options (flags ++ [flag]) .complete
  | 'h' :: rest => ofLetters (flags ++ [flag]) .help rest
  | 'i' :: rest => ofLetters (flags ++ [flag]) .interactive rest
  | ['e'] => .options (flags ++ [flag]) .valueFollows
  | 'e' :: value => .options (flags ++ [flag]) (ownValue value)
  | rest => .valueRefused flag (String.ofList rest)

def ofFlag (flag : Flag) : List Char → Argument
  | ['='] => .valueRefused flag ""
  | '=' :: rest => ofLetters [] flag rest
  | rest => ofLetters [] flag rest

def ofExpression : List Char → Argument
  | [] => .options [] .valueFollows
  | '=' :: value => .options [] (ownValue value)
  | value => .options [] (ownValue value)

def splitValue : List Char → List Char × Option (List Char)
  | [] => ([], none)
  | '=' :: value => ([], some value)
  | c :: cs => ((c :: (splitValue cs).1), (splitValue cs).2)

def longFlag (flag : Flag) : Option (List Char) → Argument
  | none => .options [flag] .complete
  | some value => .valueRefused flag (String.ofList value)

/-- An option behind two dashes may be cut short as long as only one option starts so. -/
def ofLong? (text : String) (cs : List Char) : Option Argument :=
  let (name, value) := splitValue cs
  if name = [] then some (.ambiguous text)
  else if name.isPrefixOf "help".toList then some (longFlag .help value)
  else if name.isPrefixOf "interactive".toList then some (longFlag .interactive value)
  else if name.isPrefixOf "eval".toList then
    some (.options [] (match value with
      | none => .valueFollows
      | some value => ownValue value))
  else none

def dropLineFeed (cs : List Char) : List Char :=
  if cs.getLast? = some '\n' then cs.dropLast else cs

/-- Digits behind a dash, possibly with a point before the last of them, are no option. -/
def isNegativeNumber (cs : List Char) : Bool :=
  let isDigit (c : Char) : Bool := (Text.decimalDigit? c).isSome
  let body := dropLineFeed cs
  match body.dropWhile isDigit with
  | [] => body != []
  | '.' :: fraction => fraction != [] && fraction.all isDigit
  | _ => false

def ofUnknown (text : String) (cs : List Char) : Argument :=
  if isNegativeNumber cs || cs.contains ' ' then .positional text else .unknown text

def ofText (text : String) : Argument :=
  match text.toList with
  | ['-', '-'] => .separator
  | '-' :: '-' :: cs => (ofLong? text cs).getD (ofUnknown text ('-' :: cs))
  | '-' :: 'h' :: cs => ofFlag .help cs
  | '-' :: 'i' :: cs => ofFlag .interactive cs
  | '-' :: 'e' :: cs => ofExpression cs
  | '-' :: c :: cs => ofUnknown text (c :: cs)
  | _ => .positional text

def ofTexts : List String → List Argument
  | [] => []
  | text :: texts =>
    match ofText text with
    | .separator => .separator :: texts.map .positional
    | argument => argument :: ofTexts texts

end Argument

end Schemelet.CommandLine
