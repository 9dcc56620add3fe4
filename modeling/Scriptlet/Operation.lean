import Scriptlet.Double.Arithmetic
import Scriptlet.EvalError

/-! # Operations on values

The numbers and texts that values stand for, and the operators that combine two values. The left
operand decides: a number or null makes the operation numeric, a text is joined or compared as a
text and computed with as a number, and no other value has operators.
-/

namespace Scriptlet

namespace Value

/-- The number that a value stands for. Null stands for no number. -/
def toDouble : Value → Except EvalError Float
  | number x => .ok x
  | null => .ok Double.notANumber
  | text s =>
    match Double.read? s.toList with
    | some x => .ok x
    | none => .error (.mismatch (.notNumeric s))
  | v => .error (.mismatch (.noDouble v.kind))

/-- The text that a value stands for. Null stands for the empty text. -/
def toText : Value → Except EvalError String
  | number x => .ok (Double.display x)
  | text s => .ok s
  | null => .ok ""
  | v => .error (.mismatch (.noText v.kind))

end Value

def Arithmetic.compute : Arithmetic → Float → Float → Float
  | add, a, b => a + b
  | subtract, a, b => a - b
  | multiply, a, b => a * b
  | divide, a, b => a / b
  | remainder, a, b => Double.remainder a b
  | power, a, b => Double.power a b

/-- Compares two numbers. No number is unequal to everything. -/
def Comparison.ofDoubles : Comparison → Float → Float → Bool
  | equal, a, b => a == b
  | unequal, a, b => a != b
  | greater, a, b => b < a
  | less, a, b => a < b
  | greaterEqual, a, b => b ≤ a
  | lessEqual, a, b => a ≤ b

/-- Compares two texts, character by character in the order of the code points. -/
def Comparison.ofTexts : Comparison → String → String → Bool
  | equal, s, t => s == t
  | unequal, s, t => s != t
  | greater, s, t => t < s
  | less, s, t => s < t
  | greaterEqual, s, t => !(s < t)
  | lessEqual, s, t => !(t < s)

namespace Operator

def onDoubles : Operator → Float → Float → Value
  | arithmetic op, a, b => .number (op.compute a b)
  | comparison op, a, b => .ofBool (op.ofDoubles a b)

/-- Applies an operator to what two values stand for as numbers. -/
def numeric (op : Operator) (left right : Value) : Except EvalError Value := do
  let a ← left.toDouble
  let b ← right.toDouble
  return op.onDoubles a b

def apply (op : Operator) (left right : Value) : Except EvalError Value :=
  match left with
  | .number _ | .null => op.numeric left right
  | .text s =>
    match op with
    | arithmetic .add => do return .text (s ++ (← right.toText))
    | comparison c => do return .ofBool (c.ofTexts s (← right.toText))
    | arithmetic _ => op.numeric left right
  | v => .error (.mismatch (.noOperator op.text v.kind))

end Operator

end Scriptlet
