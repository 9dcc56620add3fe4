import Scriptlet.Eval
import Scriptlet.Parse

/-! # Programs

A script is parsed and evaluated in a session. Whether it comes to a value or fails, the session it
leaves is the one that the next script runs in.
-/

namespace Scriptlet

/-- How far an evaluation may go. -/
structure Limits where
  depth : Nat
  rounds : Nat

/-- The limits of an ordinary session. No loop comes to the end of its rounds in practice. -/
def Limits.standard : Limits := ⟨6000, 1000000000000000000⟩

/-- Why a program comes to no value. -/
inductive Failure where
  | parse (error : ParseError)
  | eval (error : EvalError)
  | defect (defect : Defect)
  | unfinished

def Failure.message : Failure → String
  | parse e => e.message
  | eval e => e.message
  | defect d => d.message
  | unfinished => "Loop was cut off"

/-- The wording of a failure, with its place if it has one. -/
def Failure.report : Failure → String
  | parse e => e.report
  | f => f.message

namespace Session

/-- Evaluates a tree. An escape that nothing stops ends the evaluation with its value; one that
nests too deeply leaves no frame behind. -/
def evaluateWithin (limits : Limits) (s : Session) (e : Expr) : Except Failure Value × Session :=
  match eval limits.rounds limits.depth e s with
  | .ok v t => (.ok v, t)
  | .error .stop t => (.ok .null, t)
  | .error (.result v) t => (.ok v, t)
  | .error (.error .tooDeep) t => (.error (.eval .tooDeep), t.restore s.scope.depth)
  | .error (.error e) t => (.error (.eval e), t)
  | .error (.defect d) t => (.error (.defect d), t)
  | .error .unfinished t => (.error .unfinished, t)

def evaluate (s : Session) (e : Expr) : Except Failure Value × Session :=
  s.evaluateWithin .standard e

def run (s : Session) (source : String) : Except Failure Value × Session :=
  match Expr.parse source with
  | .error e => (.error (.parse e), s)
  | .ok e => (s.record (.parsed source e)).evaluate e

end Session

end Scriptlet
