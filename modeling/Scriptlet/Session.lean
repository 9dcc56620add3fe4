import Scriptlet.Scope
import Scriptlet.Store

/-! # Sessions

What lasts from one program to the next: the variables, the containers, what was printed, and a log
of frames and calls, if one is kept.
-/

namespace Scriptlet

/-- Something worth a line in the log. -/
inductive Event where
  /-- A frame was put on top; then there were this many. -/
  | entered (depth : Nat)
  /-- The newest frame was taken off; then there were this many. -/
  | left (depth : Nat)
  /-- A function with a given parameter is called with a value. -/
  | called (parameter : String) (argument : Value)
  | parsed (source : String) (tree : Expr)

structure Session where
  scope : Scope
  store : Store
  /-- Everything printed so far. -/
  output : String
  /-- The events so far, oldest first; nothing if no log is kept. -/
  log : Option (Array Event)

namespace Session

def initial : Session := ⟨.initial, .empty, "", none⟩

def write (s : Session) (text : String) : Session := { s with output := s.output ++ text }

def writeLine (s : Session) (text : String) : Session := s.write (text ++ "\n")

def record (s : Session) (e : Event) : Session := { s with log := s.log.map (·.push e) }

def set (s : Session) (name : String) (v : Value) : Session :=
  { s with scope := s.scope.set name v }

def enter (s : Session) : Session :=
  let scope := s.scope.enter
  { s with scope }.record (.entered scope.depth)

/-- Takes the newest frame off, unless it is the last one. -/
@[inline] def leave? (s : Session) : Option Session :=
  match s.scope.leave? with
  | some scope => some ({ s with scope }.record (.left scope.depth))
  | none => none

/-- Drops all but a number of the oldest frames. -/
def restore (s : Session) (depth : Int) : Session := { s with scope := s.scope.restore depth }

/-- Binds the builtins in the newest frame and puts an empty frame on top of it. -/
def withBuiltins (s : Session) : Session :=
  (((s.set Scope.builtinsMark .null).set "print" (.builtin .print)).set "len" (.builtin .len)).enter

/-- Binds a name to a deep copy of the value of another; nothing if that value contains itself. -/
def copyInto? (s : Session) (source target : String) : Option (Value × Session) :=
  match s.store.copy? (s.scope.get source) with
  | some (v, store) => some (v, { s with store }.set target v)
  | none => none

end Session

end Scriptlet
