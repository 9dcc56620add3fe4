import Scriptlet.Form
import Scriptlet.Session

/-! # The log as text

One line for each event in the log of a session, marked as a debug line of the program.
-/

namespace Scriptlet

def Event.message : Event → String
  | entered depth => "Entered scope, depth " ++ toString depth
  | left depth => "Left scope, depth " ++ toString depth
  | called parameter argument => "Calling function(" ++ parameter ++ ") with " ++ argument.display
  | parsed source tree => "Parsed " ++ Text.quote source ++ " into " ++ tree.form.oneLine

def Event.line (e : Event) : String := "DEBUG tilde: " ++ e.message ++ "\n"

def Session.logText (s : Session) : String :=
  String.join ((s.log.getD #[]).toList.map Event.line)

end Scriptlet
