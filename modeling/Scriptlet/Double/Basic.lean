/-! # Doubles as whole numbers

Below its sign bit a double is a *code*: 0 is zero, `infinityCode` is infinity, larger codes are
NaN, and codes are in the order of the values. The value of a finite code is a whole number of
*units*, the smallest positive double, and `2 ^ 1074` units make one. Everything exact about
doubles (reading, writing, remainders, truncation) is arithmetic on these two natural numbers.
-/

namespace Scriptlet.Double

def infinityCode : Nat := 2047 * Nat.pow 2 52

/-- The code of a double: its bits without the sign. -/
def code (x : Float) : Nat := x.toBits.toNat % Nat.pow 2 63

def isNegative (x : Float) : Bool := Nat.pow 2 63 ≤ x.toBits.toNat

def ofCode (negative : Bool) (code : Nat) : Float :=
  .ofBits (.ofNat (if negative then code + Nat.pow 2 63 else code))

def isFinite (x : Float) : Bool := code x < infinityCode

def isInfinite (x : Float) : Bool := code x = infinityCode

def magnitude (x : Float) : Float := ofCode false (code x)

def infinity : Float := ofCode false infinityCode

/-- The double that is no number. -/
def notANumber : Float := ofCode false (infinityCode + Nat.pow 2 51)

/-- The number of units in one. -/
def one : Nat := Nat.pow 2 1074

/-- The spacing of the doubles at a code is 2 to this power, in units. -/
def scale (code : Nat) : Nat := code / Nat.pow 2 52 - 1

/-- The value of a finite code in units. -/
def units (code : Nat) : Nat := (code - scale code * Nat.pow 2 52) * Nat.pow 2 (scale code)

/-- The whole number nearest to a quotient; a half goes to the even neighbour. -/
def roundDiv (num den : Nat) : Nat :=
  let q := num / den
  let r := num % den
  if 2 * r < den ∨ 2 * r = den ∧ q % 2 = 0 then q else q + 1

/-- The code of the double nearest to `num / den` units; what is too large becomes infinite. -/
def nearestCode (num den : Nat) : Nat :=
  let s := (num / den).log2 - 52
  min (s * Nat.pow 2 52 + roundDiv num (den * Nat.pow 2 s)) infinityCode

def ofNat (n : Nat) : Float := ofCode false (nearestCode (n * one) 1)

/-- The whole part of a finite double, its fraction dropped. -/
def truncate? (x : Float) : Option Int :=
  if isFinite x then
    let n : Int := units (code x) / one
    some (if isNegative x then -n else n)
  else none

end Scriptlet.Double
