import Scriptlet.Form.Page
import Scriptlet.Program

/-! # The interactive loop

Reads lines until the input ends or a line is empty. Every other line is run as a script of its own
in one session, and is answered by its value or by its failure; the line `#pretty` only switches the
dump of the trees on and off.
-/

namespace Scriptlet

/-- An interactive loop between two lines. -/
structure Repl where
  session : Session
  /-- Whether each tree is shown before it is evaluated. -/
  pretty : Bool

namespace Repl

/-- The line that switches the dump of the trees. -/
def prettyLine : String := "#pretty"

/-- Prints the value or the failure of a script. -/
def report : Except Failure Value × Session → Session
  | (.ok v, s) => s.writeLine v.display
  | (.error f, s) => s.writeLine ("error: " ++ f.report)

def answer (pretty : Bool) (s : Session) (line : String) : Session :=
  match Expr.parse line with
  | .error e => report (.error (.parse e), s)
  | .ok e => report ((if pretty then s.writeLine e.form.onPage else s).evaluate e)

/-- Takes a line that is not empty. -/
def step (r : Repl) (line : String) : Repl :=
  if line = prettyLine then { r with pretty := !r.pretty }
  else { r with session := answer r.pretty r.session line }

/-- Takes lines until one is empty or there are no more, each after a prompt. The number is that of
the attempts to read a line. -/
def run (prompt : String) (r : Repl) : List String → Nat × Repl
  | [] => (1, { r with session := r.session.write prompt })
  | line :: lines =>
    let r := { r with session := r.session.write prompt }
    if line = "" then (1, r)
    else
      let (reads, r) := run prompt (r.step line) lines
      (reads + 1, r)

def start (s : Session) : Repl := ⟨s, false⟩

end Repl

end Scriptlet
