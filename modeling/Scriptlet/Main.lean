import Scriptlet.CommandLine

/-! # The executable

Carries the files, lines and texts of `CommandLine` in and out. Output and log are written as they
arise, so the loop can be used at a terminal.
-/

namespace Scriptlet.CommandLine

/-- Writes what a session has printed and its log, and clears both. -/
def emit (s : Session) : IO Session := do
  (← IO.getStdout).putStr s.output
  (← IO.getStdout).flush
  (← IO.getStderr).putStr s.logText
  return { s with output := "", log := s.log.map fun _ => #[] }

def contentOf (path : String) : IO (Except Unreadable ByteArray) :=
  try
    return .ok (← IO.FS.readBinFile path)
  catch _ => return .error .missing

/-- Runs files in order until one cannot be read or fails. -/
def serveFiles (s : Session) : List String → IO UInt32
  | [] => return 0
  | path :: paths => do
    let (fileEnd, s) := runFile s (← contentOf path)
    let s ← emit s
    match fileEnd with
    | .completed => serveFiles s paths
    | .failed f =>
      (← IO.getStderr).putStr (failureLine path f)
      return 1
    | .unreadable .notText =>
      (← IO.getStderr).putStrLn ("tilde: not UTF-8: " ++ path)
      return 1
    | .unreadable _ =>
      (← IO.getStderr).putStrLn ("tilde: cannot open " ++ path)
      return 1

/-- Answers lines until one is empty or there are no more. -/
partial def serveLines (r : Repl) : IO UInt32 := do
  let s ← emit (r.session.write prompt)
  let line ← (← IO.getStdin).getLine
  let text : String := .ofList (line.toList.takeWhile (· != '\n'))
  if text = "" then return 0
  serveLines ({ r with session := s }.step text)

/-- Does what the arguments ask for; the result is the exit code. -/
def serve (args : List String) : IO UInt32 := do
  match Request.ofArguments args with
  | .help =>
    (← IO.getStdout).putStr helpText
    return 0
  | .invalid message =>
    (← IO.getStderr).putStr (invalidText message)
    return 2
  | .start debug [] => serveLines (Repl.start (startSession debug))
  | .start debug paths => serveFiles (startSession debug) paths

end Scriptlet.CommandLine

def main (args : List String) : IO UInt32 := Scriptlet.CommandLine.serve args
