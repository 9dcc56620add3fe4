import Scriptlet.Text.Digit
import Scriptlet.Text.Quoted

/-! # Command line arguments

An argument is a switch if it names one, or if it starts like exactly one long switch; anything
else that starts with a dash is unknown, unless it is a lone dash, looks like a negative number or
has a space in it. Behind `--` every argument is a source. Only the first run of sources is
taken; a source behind a later switch is as unknown as an unknown switch.
-/

namespace Scriptlet.CommandLine

inductive Switch where
  | help
  | debug
deriving DecidableEq

/-- What the arguments ask for. -/
inductive Request where
  /-- The files to run, and whether the log is to be shown. -/
  | start (debug : Bool) (sources : List String)
  | help
  | invalid (message : String)

/-- One argument in front of `--`. -/
inductive Argument where
  | source (text : String)
  /-- A long switch, with the value that was attached to it. -/
  | long (switch : Switch) (value : Option String)
  /-- The short help switch, with the characters that were attached to it. -/
  | short (value : Option String)
  | unknown (text : String)

def Switch.name : Switch → String
  | help => "--help"
  | debug => "--debug"

/-- All names of a switch, as messages show them. -/
def Switch.names : Switch → String
  | help => "-h/--help"
  | debug => "--debug"

/-- The long switches that start with given characters. -/
def longMatches (cs : List Char) : List Switch :=
  [Switch.help, .debug].filter fun s => cs.isPrefixOf s.name.toList

/-- Whether characters are digits with a minus before them and at most one point before or between
them. One line feed behind them does not count. -/
def isNegativeNumber (cs : List Char) : Bool :=
  match cs with
  | '-' :: cs =>
    let rest := cs.dropWhile Text.isDigit
    let ends (cs : List Char) : Bool := cs = [] || cs = ['\n']
    match rest with
    | '.' :: rest => !(rest.takeWhile Text.isDigit).isEmpty && ends (rest.dropWhile Text.isDigit)
    | rest => !(cs.takeWhile Text.isDigit).isEmpty && ends rest
  | _ => false

/-- A name and the value that an equals sign attaches to it. -/
def splitValue (cs : List Char) : List Char × Option String :=
  match cs.dropWhile (· != '=') with
  | [] => (cs, none)
  | _ :: value => (cs.takeWhile (· != '='), some (.ofList value))

/-- An argument that starts with a dash but names no switch. -/
def ofOther (text : String) : Argument :=
  if isNegativeNumber text.toList || text.toList.contains ' ' then .source text else .unknown text

def ambiguityMessage (text : String) (switches : List Switch) : String :=
  "ambiguous option: " ++ text ++ " could match "
    ++ String.intercalate ", " (switches.map Switch.name)

/-- Reads an argument in front of `--`. No long switch starts with another one, so a full name is
never ambiguous. -/
def Argument.ofText (text : String) : Except String Argument :=
  let (name, value) := splitValue text.toList
  match text.toList with
  | '-' :: '-' :: _ =>
    match longMatches name with
    | [s] => .ok (.long s value)
    | [] => .ok (ofOther text)
    | switches => .error (ambiguityMessage text switches)
  | ['-', 'h'] => .ok (.short none)
  | '-' :: 'h' :: attached =>
    .ok (.short (if name = ['-', 'h'] then value else some (.ofList attached)))
  | ['-'] => .ok (.source text)
  | '-' :: _ => .ok (ofOther text)
  | _ => .ok (.source text)

/-- What has been understood of the arguments so far. -/
structure Understood where
  debug : Bool
  /-- The first run of sources. -/
  sources : Option (List String)
  /-- What is unknown, in order. -/
  extras : List String

def valueMessage (s : Switch) (value : String) : String :=
  "argument " ++ s.names ++ ": ignored explicit argument " ++ Text.quote value

/-- Takes a run of sources, if it is not empty. -/
def Understood.take (u : Understood) (run : List String) : Understood :=
  match run, u.sources with
  | [], _ => u
  | run, none => { u with sources := some (run.erase "--") }
  | run, some _ => { u with extras := u.extras ++ run }

def Understood.finish (u : Understood) : Request :=
  match u.extras with
  | [] => .start u.debug (u.sources.getD [])
  | extras => .invalid ("unrecognized arguments: " ++ String.intercalate " " extras)

/-- The request for help that a value attached to the short help switch makes: more short help
switches. -/
def ofShortValue (value : String) : Request :=
  match value.toList, value.toList.dropWhile (· == 'h') with
  | _ :: _, [] => .help
  | _, attached => .invalid (valueMessage .help (.ofList attached))

/-- Understands arguments one after the other; `run` is the run of sources in front of them. -/
def understand (u : Understood) (run : List String) : List Argument → Request
  | [] => (u.take run).finish
  | .source text :: rest => understand u (run ++ [text]) rest
  | .unknown text :: rest =>
    let u := u.take run
    understand { u with extras := u.extras ++ [text] } [] rest
  | .long .debug none :: rest => understand { u.take run with debug := true } [] rest
  | .long .help none :: _ => .help
  | .long s (some value) :: _ => .invalid (valueMessage s value)
  | .short none :: _ => .help
  | .short (some value) :: _ => ofShortValue value

def Request.ofArguments (args : List String) : Request :=
  match (args.takeWhile (· != "--")).mapM Argument.ofText with
  | .error message => .invalid message
  | .ok before =>
    understand ⟨false, none, []⟩ [] (before ++ (args.dropWhile (· != "--")).map .source)

def usageText : String := "usage: tilde [-h] [--debug] [sources ...]\n"

def helpText : String :=
  usageText ++ "\nEvaluate tilde programs.\n\npositional arguments:\n"
    ++ "  sources     Program files, evaluated in order. Starts a REPL when omitted.\n"
    ++ "\noptions:\n  -h, --help  show this help message and exit\n"
    ++ "  --debug     Log parse trees, calls and scopes at DEBUG level.\n"

/-- The text that is shown for arguments that cannot be understood. -/
def invalidText (message : String) : String := usageText ++ "tilde: error: " ++ message ++ "\n"

end Scriptlet.CommandLine
