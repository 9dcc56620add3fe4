import Scriptlet.Double.Basic

/-! # Remainders and powers

Sum, difference, product and quotient are the machine's. The remainder is exact and has the sign of
the dividend. A power is the machine's too, where the machine has one; what stands for the others is
decided here. A power that is too large is infinite, with the sign of the base if the exponent is
odd; a negative power of a zero is infinite, without a sign; and a negative number to a fraction is
no number.
-/

namespace Scriptlet.Double

/-- The remainder of a division truncated toward zero. -/
def remainder (a b : Float) : Float :=
  if !isFinite a || infinityCode < code b || code b = 0 then notANumber
  else if isInfinite b then a
  else ofCode (isNegative a) (nearestCode (units (code a) % units (code b)) 1)

def isWhole (x : Float) : Bool := isFinite x && units (code x) % one = 0

def isOdd (x : Float) : Bool := isWhole x && units (code x) / one % 2 = 1

/-- Why two finite numbers have no power that is a finite number. -/
inductive NoPower where
  /-- It would be too large. -/
  | tooLarge
  /-- A zero would have a negative power, or a negative number one with a fraction. -/
  | undefined

/-- The power of two finite numbers. Its sign is that of the base if the exponent is odd. -/
def finitePower (a b : Float) : Except NoPower Float :=
  let negative := isNegative a && isOdd b
  if code a = 0 then
    if code b = 0 then .ok 1
    else if isNegative b then .error .undefined
    else .ok (ofCode negative 0)
  else if isNegative a && !isWhole b then .error .undefined
  else
    let p := Float.pow (magnitude a) b
    if isFinite p then .ok (ofCode negative (code p)) else .error .tooLarge

def power (a b : Float) : Float :=
  if isFinite a && isFinite b then
    match finitePower a b with
    | .ok p => p
    | .error .tooLarge => if isNegative a && isOdd b then -infinity else infinity
    | .error .undefined => if code a = 0 then infinity else notANumber
  else Float.pow a b

end Scriptlet.Double
