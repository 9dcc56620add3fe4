import Scriptlet.Text.Quoted
import Scriptlet.Value

/-! # Evaluation errors

Why the evaluation of a tree fails, and how each cause is worded.
-/

namespace Scriptlet

/-- A value of a kind that is of no use where it stands. -/
inductive Mismatch where
  /-- A text that writes no number, where a number is needed. -/
  | notNumeric (text : String)
  | noDouble (kind : Kind)
  | noText (kind : Kind)
  | noLength (kind : Kind)
  /-- A container and an index that do not go together. -/
  | notIndexed (container index : Kind)
  /-- An operator, given by its text, whose left operand is of a kind without operators. -/
  | noOperator (op : String) (left : Kind)
  /-- A member of something that is no dictionary. -/
  | noMember (kind : Kind)
  /-- A member of a dictionary that is not given by a name. -/
  | memberNotNamed

/-- A left side that nothing can be assigned to. -/
inductive BadTarget where
  /-- A function definition whose parameter is not a name. -/
  | parameter (function : String)
  | notAssignable

/-- Why an evaluation fails. -/
inductive EvalError where
  | mismatch (mismatch : Mismatch)
  | badTarget (target : BadTarget)
  /-- An alternative without a conditional on its left. -/
  | unboundElse
  | indexOutOfRange (index : Float)
  | keyNotFound (key : String)
  | notCallable (kind : Kind) (name : String)
  | tooDeep

def Mismatch.message : Mismatch → String
  | notNumeric s => "Cannot convert " ++ Text.quote s ++ " to Double"
  | noDouble k => k.name ++ " has no Double value"
  | noText k => k.name ++ " has no String value"
  | noLength k => k.name ++ " has no length"
  | notIndexed c i => "Unable to dereference " ++ c.name ++ " by " ++ i.name
  | noOperator op k => "Unknown operator `" ++ op ++ "` for " ++ k.name
  | noMember k => "Unable to access a member of " ++ k.name
  | memberNotNamed => "Member name must be an identifier"

def BadTarget.message : BadTarget → String
  | parameter f => "Parameter of `" ++ f ++ "` must be an identifier"
  | notAssignable => "Cannot assign to non-identifier"

/-- An index as it is reported: without its fraction if it is finite. -/
def indexText (index : Float) : String :=
  match Double.truncate? index with
  | some n => toString n
  | none => Double.display index

def EvalError.message : EvalError → String
  | mismatch m => m.message
  | badTarget t => t.message
  | unboundElse => "Unbalanced else"
  | indexOutOfRange i => "Index out of range: " ++ indexText i
  | keyNotFound k => "Key not found: " ++ Text.quote k
  | notCallable k name => "Unable to invoke " ++ k.name ++ " `" ++ name ++ "`"
  | tooDeep => "Maximum recursion depth exceeded"

end Scriptlet
