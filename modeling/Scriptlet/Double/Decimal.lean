import Scriptlet.Double.Basic
import Scriptlet.Text.Digit

/-! # Decimal texts of doubles

A decimal is a natural number of steps of a power of ten; `Decimal.code` rounds it to a double.
Two readers share it: `Numeral.toFloat` for a run of digits of any script with at most one point,
and `read?` for a text in which a whole number is expected, with a sign, an exponent and blanks
around it, all in ASCII.
-/

namespace Scriptlet.Double

/-- The number `digits * 10 ^ exponent`. -/
structure Decimal where
  /-- The number of steps. -/
  digits : Nat
  /-- The power of ten that is one step. -/
  exponent : Int
deriving DecidableEq

/-- The code of the double nearest to a decimal. Beyond the first two bounds every decimal is
infinite or zero as a double, and its power of ten is not formed. -/
def Decimal.code (d : Decimal) : Nat :=
  if d.digits = 0 then 0
  else if 400 < d.exponent then infinityCode
  else if d.exponent < -(400 + d.digits.log2) then 0
  else if 0 ≤ d.exponent then nearestCode (d.digits * Nat.pow 10 d.exponent.toNat * one) 1
  else nearestCode (d.digits * one) (Nat.pow 10 (-d.exponent).toNat)

/-! ## Numbers of many digits -/

/-- Joins the digits of a base, lowest first, in pairs to the digits of its square. -/
def joinPairs (base : Nat) : List Nat → List Nat
  | low :: high :: ds => (low + base * high) :: joinPairs base ds
  | ds => ds

/-- The number with given digits in a base, lowest first, after some rounds of joining them. The
factors of each product are then alike in length, so a long number takes few long products. -/
def joinDigits : Nat → Nat → List Nat → Nat
  | 0, base, ds => ds.foldr (fun d n => d + base * n) 0
  | rounds + 1, base, ds => joinDigits rounds (base * base) (joinPairs base ds)

/-- The number that a list of decimal digits writes. The rounds leave one or two
digits. -/
def ofDigits (ds : List Nat) : Nat := joinDigits ds.length.log2 10 ds.reverse

theorem foldr_joinPairs (base : Nat) (ds : List Nat) :
    (joinPairs base ds).foldr (fun d n => d + base * base * n) 0
      = ds.foldr (fun d n => d + base * n) 0 := by
  fun_induction joinPairs base ds with
  | case1 low high ds ih =>
    simp only [List.foldr_cons, ih]
    grind
  | case2 ds h =>
    match ds with
    | [] => rfl
    | [d] => simp
    | low :: high :: ds => exact absurd rfl (h low high ds)

theorem joinDigits_eq_foldr (rounds base : Nat) (ds : List Nat) :
    joinDigits rounds base ds = ds.foldr (fun d n => d + base * n) 0 := by
  induction rounds generalizing base ds with
  | zero => rfl
  | succ rounds ih => rw [joinDigits, ih, foldr_joinPairs]

/-- Reading digits from the left, each one adds itself to ten times the number before it. -/
theorem ofDigits_eq_foldl (ds : List Nat) : ofDigits ds = ds.foldl (fun n d => 10 * n + d) 0 := by
  rw [ofDigits, joinDigits_eq_foldr, List.foldr_reverse]
  simp only [Nat.add_comm]

/-! ## Numerals -/

/-- The digits before and after the point of an unsigned number. -/
structure Numeral where
  whole : List Nat
  fraction : List Nat

namespace Numeral

/-- The longest run of digits that starts a text, and what follows it. -/
def takeDigits (digit? : Char → Option Nat) : List Char → List Nat × List Char
  | [] => ([], [])
  | c :: cs =>
    match digit? c with
    | some d => let (ds, rest) := takeDigits digit? cs; (d :: ds, rest)
    | none => ([], c :: cs)

/-- The longest numeral that starts a text, and what follows it. -/
def take (digit? : Char → Option Nat) (cs : List Char) : Numeral × List Char :=
  let (whole, rest) := takeDigits digit? cs
  match rest with
  | '.' :: rest => let (fraction, rest) := takeDigits digit? rest; (⟨whole, fraction⟩, rest)
  | _ => (⟨whole, []⟩, rest)

def hasDigit (n : Numeral) : Bool := !(n.whole.isEmpty && n.fraction.isEmpty)

/-- The decimal that a numeral with a power of ten behind it stands for. -/
def toDecimal (n : Numeral) (exponent : Int) : Decimal :=
  ⟨ofDigits (n.whole ++ n.fraction), exponent - n.fraction.length⟩

def toFloat (n : Numeral) : Float := ofCode false (n.toDecimal 0).code

end Numeral

/-- The blanks that may stand around a number text. -/
def isNumberBlank (c : Char) : Bool :=
  c == ' ' || c == '\t' || c == '\n' || c == '\r' || c == '\x0b' || c == '\x0c'

/-- An optional sign, with whether it is a minus, and what follows it. -/
def takeSign : List Char → Bool × List Char
  | '+' :: cs => (false, cs)
  | '-' :: cs => (true, cs)
  | cs => (false, cs)

/-- An optional exponent and what follows it; nothing if its mark has no digits behind it. -/
def takeExponent? : List Char → Option (Int × List Char)
  | [] => some (0, [])
  | c :: cs =>
    if c = 'e' ∨ c = 'E' then
      let (negative, cs) := takeSign cs
      match Numeral.takeDigits Text.asciiDigit? cs with
      | ([], _) => none
      | (ds, rest) => some (if negative then -(ofDigits ds : Int) else ofDigits ds, rest)
    else some (0, c :: cs)

/-- The double that a text writes: blanks, an optional sign, digits with an optional point, an
optional exponent, blanks, and nothing else. -/
def read? (cs : List Char) : Option Float :=
  let (negative, cs) := takeSign (cs.dropWhile isNumberBlank)
  let (numeral, cs) := Numeral.take Text.asciiDigit? cs
  if numeral.hasDigit then
    match takeExponent? cs with
    | some (exponent, rest) =>
      if rest.all isNumberBlank then some (ofCode negative (numeral.toDecimal exponent).code)
      else none
    | none => none
  else none

end Scriptlet.Double
