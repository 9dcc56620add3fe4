import Scriptlet.Double.Shortest

/-! # Writing a double

The digits are the shortest ones that read back. Numbers from `10 ^ -4` up to `10 ^ 16` are written
positionally, all others with one digit before the point and a signed exponent of at least two
digits. A `Layout` holds what differs between the two texts of a number: the one a script sees and
the one in the written form of an expression.
-/

namespace Scriptlet.Double

/-- What two number texts may differ in. -/
structure Layout where
  /-- Whether a whole number written positionally ends in a point and a zero. -/
  keepsPoint : Bool
  mark : Char

/-- Numbers as a script shows them: `3`, `1.5`, `1E+16`. -/
def Layout.display : Layout := ⟨false, 'E'⟩

/-- Numbers inside the written form of an expression: `3.0`, `1.5`, `1e+16`. -/
def Layout.literal : Layout := ⟨true, 'e'⟩

/-- The significant digits of a decimal, without trailing zeros, and the power of ten of the first
one. Zero has the one digit 0. -/
def Decimal.significant (d : Decimal) : List Char × Int :=
  let ds := Nat.toDigits 10 d.digits
  match (ds.reverse.dropWhile (· == '0')).reverse with
  | [] => (['0'], 0)
  | kept => (kept, d.exponent + ds.length - 1)

/-- Digits with the point where the power of ten of the first one puts it. -/
def positional (keepsPoint : Bool) (ds : List Char) (lead : Int) : List Char :=
  if lead < 0 then
    '0' :: '.' :: (List.replicate (-lead - 1).toNat '0' ++ ds)
  else
    let whole := lead.toNat + 1
    if whole < ds.length then ds.take whole ++ '.' :: ds.drop whole
    else ds ++ List.replicate (whole - ds.length) '0' ++ (if keepsPoint then ['.', '0'] else [])

/-- A power of ten with its sign and at least two digits. -/
def exponentText (e : Int) : List Char :=
  let ds := Nat.toDigits 10 e.natAbs
  (if e < 0 then '-' else '+') :: (if ds.length < 2 then '0' :: ds else ds)

/-- Digits with a point after the first one, if there are more, and the exponent behind them. -/
def exponential (mark : Char) (ds : List Char) (lead : Int) : List Char :=
  match ds with
  | d :: d' :: ds => d :: '.' :: d' :: ds ++ mark :: exponentText lead
  | ds => ds ++ mark :: exponentText lead

def Layout.finiteText (l : Layout) (code : Nat) : List Char :=
  let (ds, lead) := (shortest code).significant
  if -4 ≤ lead ∧ lead < 16 then positional l.keepsPoint ds lead else exponential l.mark ds lead

def Layout.text (l : Layout) (x : Float) : List Char :=
  if infinityCode < code x then ['n', 'a', 'n']
  else
    let body := if isFinite x then l.finiteText (code x) else ['i', 'n', 'f']
    if isNegative x then '-' :: body else body

/-- The text of a double as a script shows it. -/
def display (x : Float) : String := .ofList (Layout.display.text x)

end Scriptlet.Double
