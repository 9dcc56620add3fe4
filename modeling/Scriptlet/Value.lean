import Scriptlet.Double.Layout
import Scriptlet.Expr

/-! # Values

What a script computes with. Arrays and dictionaries are references into a store, so a value is
shared when it is bound twice; everything else is its own content. The three projections of a value
are its truth, its number and its text.
-/

namespace Scriptlet

/-- The functions that every session starts with. -/
inductive Builtin where
  | print
  | len
deriving DecidableEq

/-- A value of a script. -/
inductive Value where
  | null
  | number (value : Float)
  | text (value : String)
  | array (address : Nat)
  | dictionary (address : Nat)
  | function (parameter : String) (body : Expr)
  | builtin (builtin : Builtin)

/-- The kinds of values that a script can tell apart. -/
inductive Kind where
  | null
  | double
  | string
  | array
  | dictionary
  | function
deriving DecidableEq

def Kind.name : Kind → String
  | null => "Null"
  | double => "Double"
  | string => "String"
  | array => "Array"
  | dictionary => "Dictionary"
  | function => "Function"

namespace Value

def kind : Value → Kind
  | null => .null
  | number _ => .double
  | text _ => .string
  | array _ => .array
  | dictionary _ => .dictionary
  | function _ _ => .function
  | builtin _ => .function

/-- The number of a truth value. -/
def ofBool (b : Bool) : Value := number (if b then 1 else 0)

/-- Whether a value counts as true: all but null, zero and the empty text. -/
def isTrue : Value → Bool
  | null => false
  | number x => x != 0
  | text s => s != ""
  | _ => true

/-- The text of a value as a script shows it. -/
def display : Value → String
  | null => "null"
  | number x => Double.display x
  | text s => s
  | array _ => "[Array]"
  | dictionary _ => "[Dictionary]"
  | function _ _ => "[Function]"
  | builtin _ => "[Function]"

end Value

end Scriptlet
