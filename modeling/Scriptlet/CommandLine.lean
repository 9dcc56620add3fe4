import Scriptlet.CommandLine.Arguments
import Scriptlet.CommandLine.Folder
import Scriptlet.Log
import Scriptlet.Repl

/-! # The program

Runs files in order as scripts of one session and shows the value of each; the first one that fails
ends the run. Without files the lines of the standard input are answered one by one.
-/

namespace Scriptlet.CommandLine

/-- How the program ends. -/
inductive Ending where
  /-- The work was done, or a script failed; with the exit code. -/
  | done (code : Nat)
  /-- The arguments ended the program, with the exit code. -/
  | refused (code : Nat)
  | unreadable (reason : Unreadable)

/-- All that is seen of a run of the program. -/
structure Report where
  ending : Ending
  output : String
  errors : String

/-- The script in the bytes of a file, every line end in it a line feed. -/
def scriptOf (content : ByteArray) : Except Unreadable String :=
  match String.fromUTF8? content with
  | some text => .ok (.ofList (Text.unifyLineEnds text.toList))
  | none => .error .notText

/-- What a file leaves behind. -/
inductive FileEnd where
  | completed
  | failed (failure : Failure)
  | unreadable (reason : Unreadable)

/-- Runs the script in a file, if it can be read. -/
def runFile (s : Session) (content : Except Unreadable ByteArray) : FileEnd × Session :=
  match content.bind scriptOf with
  | .error reason => (.unreadable reason, s)
  | .ok source =>
    match s.run source with
    | (.ok v, s) => (.completed, s.writeLine v.display)
    | (.error f, s) => (.failed f, s)

/-- The line about a file whose script fails. -/
def failureLine (path : String) (f : Failure) : String :=
  "error: " ++ path ++ ": " ++ f.report ++ "\n"

/-- Runs files in order until one cannot be read or fails. -/
def runFiles (files : String → Except Unreadable ByteArray) (s : Session) :
    List String → Ending × Session × String
  | [] => (.done 0, s, "")
  | path :: paths =>
    match runFile s (files path) with
    | (.completed, s) => runFiles files s paths
    | (.failed f, s) => (.done 1, s, failureLine path f)
    | (.unreadable reason, s) => (.unreadable reason, s, "")

/-- The session that the program starts with. It keeps a log if that is to be shown. -/
def startSession (debug : Bool) : Session :=
  Session.withBuiltins { Session.initial with log := if debug then some #[] else none }

def prompt : String := "> "

/-- What the program does with its sources, or with the lines of its input if it has none. -/
def work (debug : Bool) (files : String → Except Unreadable ByteArray) (input : String)
    (sources : List String) : Ending × Session × String :=
  match sources with
  | [] =>
    let lines := (Text.inputLines input.toList).map String.ofList
    let (_, r) := (Repl.start (startSession debug)).run prompt lines
    (.done 0, r.session, "")
  | paths => runFiles files (startSession debug) paths

/-- Runs the program with given arguments, files and standard input. -/
def run (files : String → Except Unreadable ByteArray) (input : String) (args : List String) : Report :=
  match Request.ofArguments args with
  | .help => ⟨.refused 0, helpText, ""⟩
  | .invalid message => ⟨.refused 2, "", invalidText message⟩
  | .start debug sources =>
    let (ending, s, errors) := work debug files input sources
    ⟨ending, s.output, s.logText ++ errors⟩

end Scriptlet.CommandLine
