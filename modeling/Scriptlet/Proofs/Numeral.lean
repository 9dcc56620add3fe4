import Scriptlet.Double.Shortest
import Scriptlet.Proofs.Rounding
import Scriptlet.Proofs.WellFormed

/-!
# Plain numerals

A plain numeral is ASCII digits with at most one point among or behind them. It denotes the double
nearest to its number (`PlainNumeral.Denotes`), and its text is scanned as one number with that
value (`PlainNumeral.isWhole`). Every finite double without a sign is denoted by a numeral that is
exactly its value (`PlainNumeral.exact`): the unit is a half to the power 1074, so 1074 places are
enough.
-/

namespace Scriptlet

open Double

/-- Decimal digits with at most one point. There is a digit in front of the point. -/
structure PlainNumeral where
  first : Fin 10
  /-- The digits between the first one and the point. -/
  whole : List (Fin 10)
  /-- The digits behind the point, if there is one. -/
  fraction : Option (List (Fin 10))

namespace PlainNumeral

def digitChar (d : Fin 10) : Char := Char.ofNat (48 + d)

/-- The point with the digits behind it. -/
def pointChars : Option (List (Fin 10)) → List Char
  | none => []
  | some ds => '.' :: ds.map digitChar

def chars (n : PlainNumeral) : List Char :=
  (n.first :: n.whole).map digitChar ++ pointChars n.fraction

def text (n : PlainNumeral) : String := .ofList n.chars

/-- The number that digits write, the first one the highest. -/
def number (ds : List (Fin 10)) : Nat := ds.foldl (fun v d => 10 * v + d.val) 0

theorem ofDigits_map_val (ds : List (Fin 10)) : ofDigits (ds.map Fin.val) = number ds := by
  rw [ofDigits_eq_foldl, List.foldl_map, number]

/-- The number without its point. -/
def value (n : PlainNumeral) : Nat := number (n.first :: n.whole ++ n.fraction.getD [])

/-- The number of digits behind the point. -/
def places (n : PlainNumeral) : Nat := (n.fraction.getD []).length

/-- The double has no sign and is nearest to the number. -/
structure Denotes (n : PlainNumeral) (x : Float) : Prop where
  unsigned : isNegative x = false
  nearest : IsNearest (n.value * one) (10 ^ n.places) (code x)

/-! ## Scanning -/

theorem digit?_digitChar : ∀ d, Text.digit? (digitChar d) = some d.val := by decide

theorem isDigit_digitChar (d : Fin 10) : Text.isDigit (digitChar d) = true := by
  rw [Text.isDigit, digit?_digitChar]
  rfl

theorem isDigit_of_mem_map {ds : List (Fin 10)} :
    ∀ c ∈ ds.map digitChar, Text.isDigit c = true := by
  intro c hc
  obtain ⟨d, -, rfl⟩ := List.mem_map.1 hc
  exact isDigit_digitChar d

theorem next_digitChar (d : Fin 10) (cs : List Char) :
    Lexeme.next (digitChar d) cs =
      (.number (.ofList (Lexeme.numberChars (digitChar d :: cs)).1)
        (Lexeme.numberValue (Lexeme.numberChars (digitChar d :: cs)).1),
      (Lexeme.numberChars (digitChar d :: cs)).2) := by
  have hc : ∀ d, Text.isBlank (digitChar d) = false ∧ digitChar d ≠ '/' ∧
      digitChar d ≠ '"' ∧ Text.isLetter (digitChar d) = false := by decide +kernel
  obtain ⟨hb, hs, hq, hl⟩ := hc d
  rw [Lexeme.next, if_neg (by simp [hb]), if_neg hs, if_neg hq, if_neg (by simp [hl]),
    if_pos (isDigit_digitChar d)]

/-- A run of digits ends where no digit follows. -/
theorem span_digits (ds : List (Fin 10)) (rest : List Char)
    (h : ∀ c ∈ rest.head?, Text.isDigit c = false) :
    (ds.map digitChar ++ rest).takeWhile Text.isDigit = ds.map digitChar ∧
      (ds.map digitChar ++ rest).dropWhile Text.isDigit = rest := by
  rw [List.takeWhile_append_of_pos isDigit_of_mem_map,
    List.dropWhile_append_of_pos isDigit_of_mem_map]
  cases rest with
  | nil => simp
  | cons c rest => simp [h c rfl]

theorem isDigit_of_head?_pointChars (fraction : Option (List (Fin 10))) :
    ∀ c ∈ (pointChars fraction).head?, Text.isDigit c = false := by
  cases fraction with
  | none => exact nofun
  | some ds =>
    rintro c ⟨⟩
    decide

theorem numberChars_chars (n : PlainNumeral) : Lexeme.numberChars n.chars = (n.chars, []) := by
  obtain ⟨ht, hd⟩ := span_digits (n.first :: n.whole) _ (isDigit_of_head?_pointChars n.fraction)
  rw [Lexeme.numberChars, chars, ht, hd]
  cases n.fraction with
  | none => simp [pointChars]
  | some ds =>
    obtain ⟨ht', hd'⟩ := span_digits ds [] nofun
    rw [List.append_nil] at ht' hd'
    simp [pointChars, ht', hd']

section
variable {digit? : Char → Option Nat} (hd : ∀ d, digit? (digitChar d) = some d.val)
include hd

/-- A reader of digits takes a run of them up to what is no digit. -/
theorem takeDigits_append (ds : List (Fin 10)) {rest : List Char}
    (h : ∀ c ∈ rest.head?, digit? c = none) :
    Numeral.takeDigits digit? (ds.map digitChar ++ rest) = (ds.map Fin.val, rest) := by
  induction ds with
  | nil =>
    cases rest with
    | nil => rfl
    | cons c rest => simp [Numeral.takeDigits, h c rfl]
  | cons d ds ih =>
    rw [List.map_cons, List.cons_append, Numeral.takeDigits, hd, ih]
    rfl

/-- A reader of numerals takes the digits on both sides of a point, up to what is no digit and, if
there was no point yet, no point. -/
theorem take_append (hp : digit? '.' = none) (whole : List (Fin 10))
    (fraction : Option (List (Fin 10))) {rest : List Char} (h : ∀ c ∈ rest.head?, digit? c = none)
    (hpoint : fraction = none → '.' ∉ rest.head?) :
    Numeral.take digit? (whole.map digitChar ++ pointChars fraction ++ rest) =
      (⟨whole.map Fin.val, (fraction.getD []).map Fin.val⟩, rest) := by
  cases fraction with
  | none =>
    have ht := takeDigits_append hd whole h
    rw [Numeral.take, pointChars, List.append_nil, ht]
    dsimp only
    split
    · exact absurd rfl (hpoint rfl)
    · rfl
  | some ds =>
    have hdot : ∀ c ∈ ('.' :: (ds.map digitChar ++ rest)).head?, digit? c = none := by
      rintro c ⟨⟩
      exact hp
    have ht := takeDigits_append hd whole hdot
    have hf := takeDigits_append hd ds h
    rw [Numeral.take, pointChars, List.append_assoc, List.cons_append, ht]
    simp only [hf, Option.getD_some]

end

theorem take_chars (n : PlainNumeral) :
    (Numeral.take Text.digit? n.chars).1 =
      ⟨(n.first :: n.whole).map Fin.val, (n.fraction.getD []).map Fin.val⟩ := by
  have h : Numeral.take Text.digit? (n.chars ++ []) = _ :=
    take_append digit?_digitChar (by decide) (n.first :: n.whole) n.fraction nofun nofun
  rw [List.append_nil] at h
  rw [h]

theorem toDecimal_chars (n : PlainNumeral) :
    (Numeral.take Text.digit? n.chars).1.toDecimal 0 = ⟨n.value, 0 - n.places⟩ := by
  rw [take_chars, Numeral.toDecimal, ← List.map_append, ofDigits_map_val, List.length_map]
  rfl

theorem isNearest_decimal_iff (n : PlainNumeral) {k : Nat} :
    Decimal.IsNearest ⟨n.value, 0 - n.places⟩ k ↔ IsNearest (n.value * one) (10 ^ n.places) k := by
  have he : (0 - (n.places : Int)).toNat = 0 := by omega
  have hp : (-(0 - (n.places : Int))).toNat = n.places := by omega
  simp only [Decimal.IsNearest, he, hp, Nat.pow_zero, Nat.mul_one]

/-- The value of the scanned text is the double that the numeral denotes. -/
theorem numberValue_chars {n : PlainNumeral} {x : Float} (h : n.Denotes x) :
    Lexeme.numberValue n.chars = x := by
  have hn := n.isNearest_decimal_iff.1 (Decimal.isNearest_code _)
  have hc := hn.unique (ten_pow_pos _) h.nearest
  have hx := ofCode_code x
  rw [h.unsigned] at hx
  rw [Lexeme.numberValue, Numeral.toFloat, toDecimal_chars, hc, hx]

/-- The text of a numeral is one number. -/
theorem isWhole {n : PlainNumeral} {x : Float} (h : n.Denotes x) (b : Char) :
    Token.IsWhole b (.number n.text x) where
  significant := rfl
  endsBefore := rfl
  read := by
    refine ⟨digitChar n.first, n.whole.map digitChar ++ pointChars n.fraction, ?_, ?_⟩
    · exact String.toList_ofList
    · have hc := numberChars_chars n
      have hv := numberValue_chars h
      rw [chars, List.map_cons, List.cons_append] at hc hv
      rw [next_digitChar, hc, hv]
      rfl

/-! ## Exact numerals -/

/-- The last digits of a number, with zeros in front if it has fewer. -/
def lastDigits : Nat → Nat → List (Fin 10)
  | 0, _ => []
  | width + 1, v => lastDigits width (v / 10) ++ [Fin.ofNat 10 v]

theorem length_lastDigits (width v : Nat) : (lastDigits width v).length = width := by
  induction width generalizing v with
  | zero => rfl
  | succ width ih => rw [lastDigits, List.length_append, ih, List.length_singleton]

theorem lastDigits_append (m n v : Nat) :
    lastDigits m (v / 10 ^ n) ++ lastDigits n v = lastDigits (m + n) v := by
  induction n generalizing v with
  | zero => simp [lastDigits]
  | succ n ih =>
    rw [lastDigits, ← List.append_assoc, Nat.pow_succ', ← Nat.div_div_eq_div_mul, ih]
    rfl

theorem number_append_singleton (ds : List (Fin 10)) (d : Fin 10) :
    number (ds ++ [d]) = 10 * number ds + d := by
  rw [number, List.foldl_append]
  rfl

theorem number_lastDigits {width v : Nat} (h : v < 10 ^ width) :
    number (lastDigits width v) = v := by
  induction width generalizing v with
  | zero => exact (Nat.lt_one_iff.1 h).symm
  | succ width ih =>
    rw [lastDigits, number_append_singleton, ih (by omega), Fin.val_ofNat]
    omega

/-- The numeral with some places of a number, a zero in front. -/
def ofPlaces (width places v : Nat) : PlainNumeral :=
  ⟨0, lastDigits width (v / 10 ^ places), some (lastDigits places v)⟩

theorem value_ofPlaces {width places v : Nat} (h : v < 10 ^ (width + places)) :
    (ofPlaces width places v).value = v := by
  have hv : (ofPlaces width places v).value = number (0 :: lastDigits (width + places) v) := by
    rw [← lastDigits_append]
    rfl
  rw [hv]
  exact number_lastDigits h

theorem places_ofPlaces (width places v : Nat) : (ofPlaces width places v).places = places :=
  length_lastDigits places v

/-- The exact decimal of a double. -/
def exact (x : Float) : PlainNumeral := ofPlaces 309 1074 (exactDecimal (code x)).digits

/-- Every finite double without a sign is denoted by the numeral that is exactly its value. -/
theorem denotes_exact {x : Float} (h : IsFiniteUnsigned x) :
    (exact x).value * one = units (code x) * 10 ^ (exact x).places ∧ (exact x).Denotes x := by
  obtain ⟨p, hp, hone⟩ := exists_one_eq
  obtain ⟨m, hm, hinf⟩ := exists_units_infinityCode_eq
  have hten : 10 ^ p = 2 ^ p * 5 ^ p := Nat.mul_pow 2 5 p
  obtain ⟨w, hw⟩ : ∃ w, w = 309 := ⟨_, rfl⟩
  have hmax : 2 ^ (m - p) ≤ 10 ^ w := by
    subst hm hp hw
    decide +kernel
  have he : exact x = ofPlaces w p (units (code x) * 5 ^ p) := by
    simp only [exact, exactDecimal, Nat.pow_eq, ← hp, ← hw]
  have hlt : units (code x) * 5 ^ p < 10 ^ (w + p) :=
    calc units (code x) * 5 ^ p < 2 ^ m * 5 ^ p :=
          Nat.mul_lt_mul_of_pos_right (hinf ▸ units_strictMono h.2) (Nat.pow_pos (by decide))
      _ = 2 ^ (m - p) * 10 ^ p := by
          rw [hten, ← Nat.mul_assoc, ← Nat.pow_add, Nat.sub_add_cancel (by omega)]
      _ ≤ 10 ^ w * 10 ^ p := Nat.mul_le_mul_right _ hmax
      _ = 10 ^ (w + p) := (Nat.pow_add 10 w p).symm
  have hv : (exact x).value * one = units (code x) * 10 ^ (exact x).places := by
    rw [he, value_ofPlaces hlt, places_ofPlaces, hone, hten, Nat.mul_assoc, Nat.mul_comm (5 ^ p)]
  exact ⟨hv, h.1, .of_eq (ten_pow_pos _) h.2.le hv⟩

/-- A number with too many digits denotes infinity. -/
theorem denotes_infinity {w : Nat} (hw : 1024 ≤ 3 * w) :
    (ofPlaces (w + 1) 0 (10 ^ w)).Denotes infinity := by
  obtain ⟨p, hp, hone⟩ := exists_one_eq
  obtain ⟨m, hm, hinf⟩ := exists_units_infinityCode_eq
  have hv : (ofPlaces (w + 1) 0 (10 ^ w)).value = 10 ^ w :=
    value_ofPlaces (Nat.pow_lt_pow_right (by decide) (Nat.lt_succ_self w))
  have hle : units infinityCode ≤ 10 ^ w * one :=
    calc units infinityCode = 2 ^ (m - p) * 2 ^ p := by
          rw [hinf, ← Nat.pow_add, Nat.sub_add_cancel (by omega)]
      _ ≤ 10 ^ w * one := hone ▸ Nat.mul_le_mul_right _ (two_pow_le_ten_pow (by omega))
  refine ⟨isNegative_ofCode false (Nat.le_refl _), ?_⟩
  rw [infinity, code_ofCode false (Nat.le_refl _), hv, places_ofPlaces]
  exact .infinityCode_of_le (by decide) (by rwa [Nat.pow_zero, Nat.mul_one])

end PlainNumeral

end Scriptlet
