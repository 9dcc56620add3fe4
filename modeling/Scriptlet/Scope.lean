import Scriptlet.Bindings
import Scriptlet.Value

/-! # Scopes

A stack of frames that is never empty. A name is looked up from the newest frame to the oldest and
bound in the newest one only.
-/

namespace Scriptlet

/-- The variables of one function call, of the global level, or of the builtins. -/
abbrev Frame := Bindings Value

/-- A stack of frames. -/
structure Scope where
  /-- The newest frame. -/
  top : Frame
  /-- The older frames, newest first. -/
  below : List Frame

namespace Scope

/-- The one empty frame that a session starts with. -/
def initial : Scope := ⟨[], []⟩

def frames (s : Scope) : List Frame := s.top :: s.below

def depth (s : Scope) : Nat := s.below.length + 1

/-- What a name is bound to in the newest frame that binds it. -/
def get? (s : Scope) (name : String) : Option Value := s.frames.findSome? (·.get? name)

/-- The value of a name; null if it is not bound. -/
def get (s : Scope) (name : String) : Value := (s.get? name).getD .null

def set (s : Scope) (name : String) (v : Value) : Scope := { s with top := s.top.set name v }

def enter (s : Scope) : Scope := ⟨[], s.frames⟩

/-- Takes the newest frame off, unless it is the last one. -/
def leave? (s : Scope) : Option Scope :=
  match s.below with
  | [] => none
  | top :: below => some ⟨top, below⟩

/-- Keeps a number of the oldest frames, at least one, and drops the rest. -/
def restore (s : Scope) (depth : Int) : Scope :=
  match s.frames.drop (s.depth - (max depth 1).toNat) with
  | [] => s
  | top :: below => ⟨top, below⟩

@[simp] theorem leave?_enter (s : Scope) : s.enter.leave? = some s := rfl

@[simp] theorem restore_depth (s : Scope) : s.restore s.depth = s := by
  have h : (max (s.depth : Int) 1).toNat = s.depth := by
    unfold depth
    omega
  simp only [restore, h, Nat.sub_self, List.drop_zero, frames]

/-- The name that marks the frame of the builtins. -/
def builtinsMark : String := "__builtins__"

/-- The names of a frame in brackets; the frame of the builtins is shown by its mark alone. -/
def frameText (f : Frame) : String :=
  if f.binds builtinsMark then "[" ++ builtinsMark ++ "]"
  else "[" ++ String.intercalate ", " f.names ++ "]"

/-- The frames of a scope, newest first. -/
def text (s : Scope) : String := String.intercalate " < " (s.frames.map frameText)

end Scope

end Scriptlet
