import Scriptlet.Operation
import Scriptlet.Proofs.Extent
import Scriptlet.Proofs.Numeral

/-!
# Number texts

A number text is an optional sign, digits with an optional point among, behind or in front of them,
and an optional exponent (`NumberText`). It denotes the double nearest to its decimal
(`NumberText.Denotes`), and of every number text there is exactly one (`existsUnique_denotes`).

* `read?_eq_some_iff`: a text is read as a double exactly if it is a number text that denotes the
  double, with blanks around it.
* `texts_as_numbers`: so it is known which texts have a number, and a script reads its own numbers
  as it reads such texts.
-/

namespace Scriptlet

open Double PlainNumeral

/-! ## The grammar -/

inductive NumberSign where
  | plus
  | minus

/-- The digits of a number text with the point, if there is one. -/
inductive Mantissa where
  /-- Digits, with a point behind them or among them or without one. -/
  | numeral (numeral : PlainNumeral)
  /-- A point with a digit behind it and then any others. -/
  | fraction (first : Fin 10) (later : List (Fin 10))

/-- A mark, an optional sign and at least one digit. -/
structure DecimalExponent where
  /-- Whether the mark is a capital letter. -/
  capital : Bool
  sign : Option NumberSign
  first : Fin 10
  later : List (Fin 10)

/-- A number text without the blanks around it. -/
structure NumberText where
  sign : Option NumberSign
  mantissa : Mantissa
  exponent : Option DecimalExponent

namespace NumberSign

def chars : Option NumberSign → List Char
  | none => []
  | some plus => ['+']
  | some minus => ['-']

def isMinus : Option NumberSign → Bool
  | some minus => true
  | _ => false

end NumberSign

namespace Mantissa

/-- The digits in front of the point. -/
def whole : Mantissa → List (Fin 10)
  | numeral n => n.first :: n.whole
  | fraction _ _ => []

/-- The digits behind the point, if there is one. -/
def behind : Mantissa → Option (List (Fin 10))
  | numeral n => n.fraction
  | fraction d ds => some (d :: ds)

def chars (m : Mantissa) : List Char := m.whole.map digitChar ++ pointChars m.behind

/-- The number without its point. -/
def value (m : Mantissa) : Nat := number (m.whole ++ m.behind.getD [])

def places (m : Mantissa) : Nat := (m.behind.getD []).length

end Mantissa

namespace DecimalExponent

def digits (e : DecimalExponent) : List (Fin 10) := e.first :: e.later

def mark (e : DecimalExponent) : Char := if e.capital then 'E' else 'e'

def chars : Option DecimalExponent → List Char
  | none => []
  | some e => e.mark :: (NumberSign.chars e.sign ++ e.digits.map digitChar)

/-- The power of ten; zero if there is no exponent. -/
def value : Option DecimalExponent → Int
  | none => 0
  | some e => if NumberSign.isMinus e.sign then -(number e.digits : Int) else number e.digits

end DecimalExponent

namespace NumberText

def chars (n : NumberText) : List Char :=
  NumberSign.chars n.sign ++ (n.mantissa.chars ++ DecimalExponent.chars n.exponent)

/-- The number without its sign. -/
def decimal (n : NumberText) : Decimal :=
  ⟨n.mantissa.value, DecimalExponent.value n.exponent - n.mantissa.places⟩

/-- The double has the sign of the number text and is nearest to its number. -/
structure Denotes (n : NumberText) (x : Float) : Prop where
  sign : isNegative x = NumberSign.isMinus n.sign
  nearest : n.decimal.IsNearest (code x)

/-- The text is the number text with blanks around it, or without. -/
def Fills (n : NumberText) (s : String) : Prop :=
  ∃ before after, s.toList = before ++ (n.chars ++ after) ∧
    (∀ c ∈ before, isNumberBlank c = true) ∧ ∀ c ∈ after, isNumberBlank c = true

end NumberText

/-! ## Parts of a number text

Each part is read off the front of a text that does not go on with more of it, and whatever is read
is such a part. -/

theorem asciiDigit?_digitChar : ∀ d, Text.asciiDigit? (digitChar d) = some d.val := by decide

theorem exists_of_asciiDigit? {c : Char} {v : Nat} (h : Text.asciiDigit? c = some v) :
    ∃ d, c = digitChar d ∧ v = d.val := by
  unfold Text.asciiDigit? at h
  split at h
  · rename_i hc
    obtain rfl := Option.some.inj h
    have hl : '0'.toNat ≤ c.toNat := hc.1
    have hu : c.toNat ≤ '9'.toNat := hc.2
    have h0 : '0'.toNat = 48 := rfl
    have h9 : '9'.toNat = 57 := rfl
    refine ⟨⟨c.toNat - '0'.toNat, by omega⟩, ?_, rfl⟩
    have hn : 48 + (c.toNat - '0'.toNat) = c.toNat := by omega
    exact ((congrArg Char.ofNat hn).trans (Char.ofNat_toNat c)).symm
  · cases h

/-- The characters that no part of a number text goes on with. -/
def NoDigit (rest : List Char) : Prop := ∀ c ∈ rest.head?, Text.asciiDigit? c = none

theorem exists_takeDigits (cs : List Char) :
    ∃ (ds : List (Fin 10)) (rest : List Char), cs = ds.map digitChar ++ rest ∧
      Numeral.takeDigits Text.asciiDigit? cs = (ds.map Fin.val, rest) := by
  induction cs with
  | nil => exact ⟨[], [], rfl, rfl⟩
  | cons c cs ih =>
    cases hc : Text.asciiDigit? c with
    | none => exact ⟨[], c :: cs, rfl, by simp [Numeral.takeDigits, hc]⟩
    | some v =>
      obtain ⟨d, rfl, rfl⟩ := exists_of_asciiDigit? hc
      obtain ⟨ds, rest, rfl, ht⟩ := ih
      exact ⟨d :: ds, rest, rfl, by simp [Numeral.takeDigits, hc, ht]⟩

/-! ### Signs -/

namespace NumberSign

theorem takeSign_append (sign : Option NumberSign) {cs : List Char}
    (h : ∀ c ∈ cs.head?, c ≠ '+' ∧ c ≠ '-') :
    takeSign (chars sign ++ cs) = (isMinus sign, cs) := by
  match sign with
  | some plus => rfl
  | some minus => rfl
  | none =>
    rw [chars, List.nil_append]
    unfold takeSign
    split
    · exact absurd rfl (h _ rfl).1
    · exact absurd rfl (h _ rfl).2
    · rfl

theorem exists_takeSign {cs rest : List Char} {negative : Bool}
    (h : takeSign cs = (negative, rest)) : ∃ sign, cs = chars sign ++ rest := by
  unfold takeSign at h
  split at h <;> cases h
  · exact ⟨some plus, rfl⟩
  · exact ⟨some minus, rfl⟩
  · exact ⟨none, rfl⟩

end NumberSign

/-! ### Digits with a point -/

namespace Mantissa

/-- What the digits are read as. -/
def toNumeral (m : Mantissa) : Numeral := ⟨m.whole.map Fin.val, (m.behind.getD []).map Fin.val⟩

theorem hasDigit_toNumeral (m : Mantissa) : m.toNumeral.hasDigit = true := by
  cases m <;> simp [toNumeral, whole, behind, Numeral.hasDigit]

theorem toDecimal_toNumeral (m : Mantissa) (e : Int) :
    m.toNumeral.toDecimal e = ⟨m.value, e - m.places⟩ := by
  rw [toNumeral, Numeral.toDecimal, ← List.map_append, ofDigits_map_val, List.length_map]
  rfl

theorem take_append (m : Mantissa) {rest : List Char} (h : NoDigit rest)
    (hp : '.' ∉ rest.head?) :
    Numeral.take Text.asciiDigit? (m.chars ++ rest) = (m.toNumeral, rest) :=
  PlainNumeral.take_append asciiDigit?_digitChar (by decide) m.whole m.behind h fun _ => hp

theorem exists_take (cs : List Char) (h : (Numeral.take Text.asciiDigit? cs).1.hasDigit = true) :
    ∃ m : Mantissa, cs = m.chars ++ (Numeral.take Text.asciiDigit? cs).2 := by
  obtain ⟨ds, rest, rfl, ht⟩ := exists_takeDigits cs
  unfold Numeral.take at h ⊢
  rw [ht] at h ⊢
  dsimp only at h ⊢
  split at h
  · rename_i rest
    obtain ⟨fs, rest, rfl, hf⟩ := exists_takeDigits rest
    rw [hf] at h ⊢
    cases ds with
    | cons d ds => exact ⟨numeral ⟨d, ds, some fs⟩, by simp [chars, whole, behind, pointChars]⟩
    | nil =>
      cases fs with
      | nil => cases h
      | cons f fs => exact ⟨fraction f fs, by simp [chars, whole, behind, pointChars]⟩
  · cases ds with
    | cons d ds => exact ⟨numeral ⟨d, ds, none⟩, by simp [chars, whole, behind, pointChars]⟩
    | nil => cases h

/-- Digits with a point start with a digit or the point. -/
theorem head_chars (m : Mantissa) :
    ∃ c cs, m.chars = c :: cs ∧ (c = '.' ∨ ∃ d, c = digitChar d) := by
  cases m with
  | numeral n => exact ⟨_, _, rfl, .inr ⟨_, rfl⟩⟩
  | fraction d ds => exact ⟨_, _, rfl, .inl rfl⟩

end Mantissa

/-! ### Exponents -/

/-- Neither a mark nor a digit follows. -/
def NoExponent (rest : List Char) : Prop := NoDigit rest ∧ 'e' ∉ rest.head? ∧ 'E' ∉ rest.head?

namespace DecimalExponent

theorem takeExponent?_append (e : Option DecimalExponent) {rest : List Char}
    (h : NoExponent rest) : takeExponent? (chars e ++ rest) = some (value e, rest) := by
  cases e with
  | none =>
    rw [chars, List.nil_append]
    cases rest with
    | nil => rfl
    | cons c rest =>
      have hc : ¬(c = 'e' ∨ c = 'E') := by
        rintro (rfl | rfl)
        · exact h.2.1 rfl
        · exact h.2.2 rfl
      rw [takeExponent?, if_neg hc, value]
  | some e =>
    have hm : e.mark = 'e' ∨ e.mark = 'E' := by
      unfold mark
      split
      · exact .inr rfl
      · exact .inl rfl
    have hsign : ∀ c ∈ (e.digits.map digitChar ++ rest).head?, c ≠ '+' ∧ c ≠ '-' := by
      have hd : ∀ d, digitChar d ≠ '+' ∧ digitChar d ≠ '-' := by decide
      rintro c ⟨⟩
      exact hd e.first
    have ht := takeDigits_append asciiDigit?_digitChar e.digits h.1
    rw [chars, List.cons_append, List.append_assoc, takeExponent?, if_pos hm,
      NumberSign.takeSign_append e.sign hsign]
    simp only [ht]
    rw [value, ← ofDigits_map_val]
    rfl

theorem exists_takeExponent? {cs rest : List Char} {v : Int}
    (h : takeExponent? cs = some (v, rest)) : ∃ e, cs = chars e ++ rest := by
  unfold takeExponent? at h
  split at h
  · cases h
    exact ⟨none, rfl⟩
  rename_i c cs
  split at h
  · rename_i hm
    rcases hs : takeSign cs with ⟨negative, us⟩
    rw [hs] at h
    dsimp only at h
    obtain ⟨sign, rfl⟩ := NumberSign.exists_takeSign hs
    obtain ⟨ds, us, rfl, ht⟩ := exists_takeDigits us
    rw [ht] at h
    cases ds with
    | nil => cases h
    | cons d ds =>
      simp only [List.map_cons, Option.some.injEq, Prod.mk.injEq] at h
      obtain ⟨-, rfl⟩ := h
      refine ⟨some ⟨c == 'E', sign, d, ds⟩, ?_⟩
      rw [chars, List.cons_append, List.append_assoc, digits, mark]
      rcases hm with rfl | rfl <;> rfl
  · cases h
    exact ⟨none, rfl⟩

/-- An exponent starts with its mark. -/
theorem head_chars (e : Option DecimalExponent) {c : Char} (h : c ∈ (chars e).head?) :
    c = 'e' ∨ c = 'E' := by
  cases e with
  | none => cases h
  | some e =>
    obtain rfl := Option.some.inj h
    unfold mark
    split
    · exact .inr rfl
    · exact .inl rfl

end DecimalExponent

/-! ## Reading -/

namespace NumberText

/-- Blanks go on with no part of a number text. -/
theorem of_isNumberBlank {c : Char} (h : isNumberBlank c = true) :
    Text.asciiDigit? c = none ∧ c ≠ '.' ∧ c ≠ 'e' ∧ c ≠ 'E' := by
  simp only [isNumberBlank, Bool.or_eq_true, beq_iff_eq] at h
  rcases h with ((((rfl | rfl) | rfl) | rfl) | rfl) | rfl <;> decide

theorem noExponent_of_blanks {after : List Char} (h : ∀ c ∈ after, isNumberBlank c = true) :
    NoExponent after ∧ '.' ∉ after.head? := by
  have hc : ∀ c ∈ after.head?, Text.asciiDigit? c = none ∧ c ≠ '.' ∧ c ≠ 'e' ∧ c ≠ 'E' :=
    fun c hc => of_isNumberBlank (h c (List.mem_of_mem_head? hc))
  exact ⟨⟨fun c hm => (hc c hm).1, fun hm => (hc _ hm).2.2.1 rfl, fun hm => (hc _ hm).2.2.2 rfl⟩,
    fun hm => (hc _ hm).2.1 rfl⟩

/-- Digits end in front of an exponent as they do in front of blanks. -/
theorem noDigit_exponent (e : Option DecimalExponent) {after : List Char}
    (h : ∀ c ∈ after, isNumberBlank c = true) :
    NoDigit (DecimalExponent.chars e ++ after) ∧
      '.' ∉ (DecimalExponent.chars e ++ after).head? := by
  cases e with
  | none => exact ⟨(noExponent_of_blanks h).1.1, (noExponent_of_blanks h).2⟩
  | some e =>
    have hm : Text.asciiDigit? e.mark = none ∧ e.mark ≠ '.' := by
      rcases DecimalExponent.head_chars (some e) rfl with hc | hc <;> rw [hc] <;> decide
    refine ⟨?_, fun hp => hm.2 (Option.some.inj hp)⟩
    rintro c ⟨⟩
    exact hm.1

/-- A number text starts with a sign, a digit or a point. -/
theorem head_chars (n : NumberText) :
    ∃ c cs, n.chars = c :: cs ∧ isNumberBlank c = false := by
  obtain ⟨c, cs, hm, hc⟩ := n.mantissa.head_chars
  rw [chars, hm]
  match n.sign with
  | some .plus => exact ⟨_, _, rfl, by decide⟩
  | some .minus => exact ⟨_, _, rfl, by decide⟩
  | none =>
    refine ⟨c, _, rfl, ?_⟩
    have hd : ∀ d, isNumberBlank (digitChar d) = false := by decide
    obtain rfl | ⟨d, rfl⟩ := hc
    · decide
    · exact hd d

/-- The double that a number text denotes, with blanks around the text. -/
theorem read?_append (n : NumberText) {before after : List Char}
    (hb : ∀ c ∈ before, isNumberBlank c = true) (ha : ∀ c ∈ after, isNumberBlank c = true) :
    read? (before ++ (n.chars ++ after)) =
      some (ofCode (NumberSign.isMinus n.sign) n.decimal.code) := by
  have hdrop : (before ++ (n.chars ++ after)).dropWhile isNumberBlank = n.chars ++ after := by
    obtain ⟨c, cs, hc, hn⟩ := n.head_chars
    rw [List.dropWhile_append_of_pos hb, hc, List.cons_append, List.dropWhile_cons_of_neg]
    simp [hn]
  have hsign : ∀ c ∈ (n.mantissa.chars ++ (DecimalExponent.chars n.exponent ++ after)).head?,
      c ≠ '+' ∧ c ≠ '-' := by
    have hd : ∀ d, digitChar d ≠ '+' ∧ digitChar d ≠ '-' := by decide
    obtain ⟨c, cs, hm, hc⟩ := n.mantissa.head_chars
    rw [hm]
    rintro c ⟨⟩
    obtain rfl | ⟨d, rfl⟩ := hc
    · decide
    · exact hd d
  have htake := n.mantissa.take_append (noDigit_exponent n.exponent ha).1
    (noDigit_exponent n.exponent ha).2
  have hexp := DecimalExponent.takeExponent?_append n.exponent (noExponent_of_blanks ha).1
  have hall : after.all isNumberBlank = true := List.all_eq_true.2 ha
  rw [read?, hdrop, chars, List.append_assoc, List.append_assoc,
    NumberSign.takeSign_append n.sign hsign]
  simp only [htake, Mantissa.hasDigit_toNumeral, if_true, hexp, hall,
    Mantissa.toDecimal_toNumeral, decimal]

/-- Whatever is read is a number text with blanks around it. -/
theorem exists_of_read? {cs : List Char} {x : Float} (h : read? cs = some x) :
    ∃ (n : NumberText) (before after : List Char), cs = before ++ (n.chars ++ after) ∧
      (∀ c ∈ before, isNumberBlank c = true) ∧ ∀ c ∈ after, isNumberBlank c = true := by
  have hcs := List.takeWhile_append_dropWhile (p := isNumberBlank) (l := cs)
  unfold read? at h
  rcases hs : takeSign (cs.dropWhile isNumberBlank) with ⟨negative, us⟩
  rw [hs] at h
  dsimp only at h
  split at h
  · rename_i hd
    obtain ⟨m, hm⟩ := Mantissa.exists_take us hd
    split at h
    · rename_i v rest he
      obtain ⟨e, hr⟩ := DecimalExponent.exists_takeExponent? he
      obtain ⟨sign, hsign⟩ := NumberSign.exists_takeSign hs
      split at h
      · rename_i hall
        refine ⟨⟨sign, m, e⟩, cs.takeWhile isNumberBlank, rest, ?_,
          fun c => List.mem_takeWhile_imp, List.all_eq_true.1 hall⟩
        rw [chars, List.append_assoc, List.append_assoc, ← hr, ← hm, ← hsign, hcs]
      · cases h
    · cases h
  · cases h

/-! ### Denotation -/

theorem denotes_iff {n : NumberText} {x : Float} :
    n.Denotes x ↔ x = ofCode (NumberSign.isMinus n.sign) n.decimal.code := by
  constructor
  · intro h
    have hc := (Decimal.isNearest_code n.decimal).unique (ten_pow_pos _) h.nearest
    rw [← h.sign, hc, ofCode_code]
  · rintro rfl
    refine ⟨isNegative_ofCode _ (Decimal.code_le _), ?_⟩
    rw [code_ofCode _ (Decimal.code_le _)]
    exact Decimal.isNearest_code n.decimal

/-- A number text denotes exactly one double. -/
theorem existsUnique_denotes (n : NumberText) : ∃! x, n.Denotes x :=
  ⟨_, denotes_iff.2 rfl, fun _ h => denotes_iff.1 h⟩

/-- What is read is what a number text with blanks around it denotes. -/
theorem read?_eq_some_iff {s : String} {x : Float} :
    read? s.toList = some x ↔ ∃ n : NumberText, n.Fills s ∧ n.Denotes x := by
  constructor
  · intro h
    obtain ⟨n, before, after, hs, hb, ha⟩ := exists_of_read? h
    refine ⟨n, ⟨before, after, hs, hb, ha⟩, denotes_iff.2 ?_⟩
    rw [hs, read?_append n hb ha] at h
    exact (Option.some.inj h).symm
  · rintro ⟨n, ⟨before, after, hs, hb, ha⟩, h⟩
    rw [hs, read?_append n hb ha, denotes_iff.1 h]

end NumberText

/-! ## Numbers of a script -/

/-- Below 128 the decimal digits are the ASCII ones. -/
theorem asciiDigit?_eq_digit? {c : Char} (h : c.toNat < 128) :
    Text.asciiDigit? c = Text.digit? c := by
  have hall : ∀ n < 128, Text.asciiDigit? (Char.ofNat n) = Text.digit? (Char.ofNat n) := by
    decide +kernel
  have hc := hall c.toNat h
  rwa [Char.ofNat_toNat] at hc

theorem exists_map_digitChar {cs : List Char}
    (h : ∀ c ∈ cs, Text.isDigit c = true ∧ c.toNat < 128) :
    ∃ ds : List (Fin 10), cs = ds.map digitChar := by
  induction cs with
  | nil => exact ⟨[], rfl⟩
  | cons c cs ih =>
    obtain ⟨⟨hd, hlt⟩, hcs⟩ := List.forall_mem_cons.1 h
    rw [Text.isDigit, ← asciiDigit?_eq_digit? hlt] at hd
    obtain ⟨v, hv⟩ := Option.isSome_iff_exists.1 hd
    obtain ⟨d, rfl, -⟩ := exists_of_asciiDigit? hv
    obtain ⟨ds, rfl⟩ := ih hcs
    exact ⟨d :: ds, rfl⟩

/-- A scanned number whose digits are ASCII is a plain numeral. -/
theorem exists_plainNumeral {c : Char} (hd : Text.isDigit c = true) (cs : List Char)
    (h : ∀ d ∈ (Lexeme.numberChars (c :: cs)).1, Text.isDigit d = true → d.toNat < 128) :
    ∃ n : PlainNumeral, (Lexeme.numberChars (c :: cs)).1 = n.chars := by
  obtain ⟨us, hu⟩ := Lexeme.exists_numberChars_eq hd cs
  obtain ⟨whole, hw, ⟨ht, -⟩ | ⟨fraction, hf, ht, -⟩⟩ := Lexeme.numberChars_cases (c :: cs)
  · rw [ht] at h hu ⊢
    obtain ⟨ds, rfl⟩ := exists_map_digitChar fun d hm => ⟨hw d hm, h d hm (hw d hm)⟩
    cases ds with
    | nil => cases hu
    | cons d ds => exact ⟨⟨d, ds, none⟩, (List.append_nil _).symm⟩
  · rw [ht] at h hu ⊢
    obtain ⟨hl, hr⟩ := List.forall_mem_append.1 h
    obtain ⟨-, hr⟩ := List.forall_mem_cons.1 hr
    obtain ⟨ds, rfl⟩ := exists_map_digitChar fun d hm => ⟨hw d hm, hl d hm (hw d hm)⟩
    obtain ⟨fs, rfl⟩ := exists_map_digitChar fun d hm => ⟨hf d hm, hr d hm (hf d hm)⟩
    cases ds with
    | nil =>
      obtain ⟨rfl, -⟩ := List.cons.inj hu
      exact absurd hd (by decide)
    | cons d ds => exact ⟨⟨d, ds, some fs⟩, rfl⟩

/-- Only a digit starts a number. -/
theorem Lexeme.next_eq_number {c : Char} {cs rest : List Char} {text : String} {x : Float}
    (h : next c cs = (number text x, rest)) :
    Text.isDigit c = true ∧ text = .ofList (numberChars (c :: cs)).1 ∧
      x = numberValue (numberChars (c :: cs)).1 := by
  unfold next at h
  split at h
  · cases h
  split at h
  · split at h <;> cases h
  split at h
  · cases h
  split at h
  · cases h
  split at h
  · rename_i hd
    cases h
    exact ⟨hd, rfl, rfl⟩
  · split at h <;> cases h

namespace PlainNumeral

/-- A plain numeral is a number text without a sign and an exponent. -/
def toNumberText (n : PlainNumeral) : NumberText := ⟨none, .numeral n, none⟩

theorem chars_toNumberText (n : PlainNumeral) : n.toNumberText.chars = n.chars :=
  List.append_nil n.chars

theorem denotes_toNumberText {n : PlainNumeral} {x : Float} :
    n.toNumberText.Denotes x ↔ n.Denotes x :=
  ⟨fun h => ⟨h.sign, n.isNearest_decimal_iff.1 h.nearest⟩,
    fun h => ⟨h.unsigned, n.isNearest_decimal_iff.2 h.nearest⟩⟩

theorem fills_toNumberText (n : PlainNumeral) : n.toNumberText.Fills n.text := by
  refine ⟨[], [], ?_, nofun, nofun⟩
  rw [n.chars_toNumberText, text, String.toList_ofList, List.append_nil, List.nil_append]

end PlainNumeral

/-! ## Texts and numbers -/

theorem Value.toDouble_text (s : String) :
    (text s).toDouble = match Double.read? s.toList with
      | some x => .ok x
      | none => .error (.mismatch (.notNumeric s)) := rfl

theorem Value.toDouble_text_eq_ok_iff {s : String} {x : Float} :
    (text s).toDouble = .ok x ↔ ∃ n : NumberText, n.Fills s ∧ n.Denotes x := by
  rw [← NumberText.read?_eq_some_iff, toDouble_text]
  cases Double.read? s.toList <;> simp

theorem Value.toDouble_text_of_not_fills {s : String} (h : ¬∃ n : NumberText, n.Fills s) :
    (text s).toDouble = .error (.mismatch (.notNumeric s)) := by
  rw [toDouble_text]
  cases hr : Double.read? s.toList with
  | some x =>
    obtain ⟨n, hn, -⟩ := NumberText.read?_eq_some_iff.1 hr
    exact absurd ⟨n, hn⟩ h
  | none => rfl

/-- A number token with ASCII digits is read as a text like it is read in the script. -/
theorem toDouble_of_mem_scan {source : String} {t : Token} {text : String} {x : Float}
    (ht : t ∈ Token.scan source) (hl : t.lexeme = .number text x)
    (ha : ∀ c ∈ text.toList, Text.isDigit c = true → c.toNat < 128) :
    (Value.text text).toDouble = .ok x := by
  obtain ⟨c, us, -, hn⟩ := Token.next_of_mem_scan ht
  rw [hl] at hn
  obtain ⟨hd, rfl, rfl⟩ := Lexeme.next_eq_number hn
  rw [String.toList_ofList] at ha
  obtain ⟨n, hc⟩ := exists_plainNumeral hd us ha
  obtain ⟨x, hx, -⟩ := n.toNumberText.existsUnique_denotes
  have hv := PlainNumeral.numberValue_chars (denotes_toNumberText.1 hx)
  rw [hc, hv]
  exact Value.toDouble_text_eq_ok_iff.2 ⟨_, n.fills_toNumberText, hx⟩

/-- A number text of nothing but digits and a point behind the first one is a plain numeral. -/
theorem NumberText.Fills.exists_plainNumeral {n : NumberText} {s : String} (h : n.Fills s)
    (hc : ∀ c ∈ s.toList, isNumberBlank c = false ∧ c ∉ ['+', '-', 'e', 'E'])
    (hd : ∃ c ∈ s.toList.head?, Text.isDigit c = true) :
    ∃ p : PlainNumeral, s = p.text ∧ n = p.toNumberText := by
  obtain ⟨before, after, hs, hb, ha⟩ := h
  rw [hs] at hc hd
  obtain ⟨hbefore, hc⟩ := List.forall_mem_append.1 hc
  obtain ⟨hc, hafter⟩ := List.forall_mem_append.1 hc
  obtain ⟨hsign, hc⟩ := List.forall_mem_append.1 hc
  obtain ⟨-, hexp⟩ := List.forall_mem_append.1 hc
  have no_blanks {cs : List Char} (hb : ∀ c ∈ cs, isNumberBlank c = true)
      (hn : ∀ c ∈ cs, isNumberBlank c = false ∧ c ∉ ['+', '-', 'e', 'E']) : cs = [] :=
    List.eq_nil_iff_forall_not_mem.2 fun c hm =>
      Bool.false_ne_true ((hn c hm).1.symm.trans (hb c hm))
  obtain rfl := no_blanks hb hbefore
  obtain rfl := no_blanks ha hafter
  obtain ⟨sign, mantissa, exponent⟩ := n
  obtain rfl : sign = none := by
    match sign with
    | none => rfl
    | some .plus => exact absurd (by decide) (hsign '+' List.mem_cons_self).2
    | some .minus => exact absurd (by decide) (hsign '-' List.mem_cons_self).2
  obtain rfl : exponent = none := by
    cases exponent with
    | none => rfl
    | some e =>
      have hm := DecimalExponent.head_chars (some e) rfl
      have hn := (hexp e.mark List.mem_cons_self).2
      rcases hm with hm | hm <;> rw [hm] at hn <;> exact absurd (by decide) hn
  cases mantissa with
  | fraction d ds =>
    obtain ⟨c, ⟨⟩, hdot⟩ := hd
    exact absurd hdot (by decide)
  | numeral p =>
    refine ⟨p, ?_, rfl⟩
    rw [List.nil_append, List.append_nil] at hs
    rw [PlainNumeral.text, ← String.ofList_toList (s := s), hs]
    exact congrArg _ p.chars_toNumberText

/-- Texts as numbers. A text has a number exactly if it is a number text with any blanks around it,
and then the number is the double nearest to the decimal: there is one such double, and the blanks
have no part in it. Every other text is refused. A script and a text agree on numbers: a number
token with ASCII digits, taken as a text, has the number that it has in the script; and a text that
has a number and starts with a digit, without blanks, a sign or an exponent, is scanned as a single
number token with that number. -/
theorem texts_as_numbers :
    (∀ (s : String) (x : Float),
      (Value.text s).toDouble = .ok x ↔ ∃ n : NumberText, n.Fills s ∧ n.Denotes x) ∧
    (∀ n : NumberText, ∃! x, n.Denotes x) ∧
    (∀ s : String, (¬∃ n : NumberText, n.Fills s) →
      (Value.text s).toDouble = .error (.mismatch (.notNumeric s))) ∧
    (∀ (n : NumberText) (s s' : String), n.Fills s → n.Fills s' →
      (Value.text s).toDouble = (Value.text s').toDouble) ∧
    (∀ (source : String) (t : Token) (text : String) (x : Float), t ∈ Token.scan source →
      t.lexeme = .number text x → (∀ c ∈ text.toList, Text.isDigit c = true → c.toNat < 128) →
      (Value.text text).toDouble = .ok x) ∧
    ∀ (s : String) (x : Float), (Value.text s).toDouble = .ok x →
      (∀ c ∈ s.toList, isNumberBlank c = false ∧ c ∉ ['+', '-', 'e', 'E']) →
      (∃ c ∈ s.toList.head?, Text.isDigit c = true) →
      Token.scan s = [⟨.number s x, 0⟩] := by
  refine ⟨fun s x => Value.toDouble_text_eq_ok_iff, NumberText.existsUnique_denotes,
    fun s => Value.toDouble_text_of_not_fills, fun n s s' hs hs' => ?_,
    fun source t text x => toDouble_of_mem_scan, fun s x hx hc hd => ?_⟩
  · obtain ⟨x, hx, -⟩ := n.existsUnique_denotes
    rw [Value.toDouble_text_eq_ok_iff.2 ⟨n, hs, hx⟩, Value.toDouble_text_eq_ok_iff.2 ⟨n, hs', hx⟩]
  · obtain ⟨n, hn, hx⟩ := Value.toDouble_text_eq_ok_iff.1 hx
    obtain ⟨p, rfl, rfl⟩ := hn.exists_plainNumeral hc hd
    have hscan := Token.scan_text (PlainNumeral.isWhole (denotes_toNumberText.1 hx) ' ').read
    rwa [Lexeme.text] at hscan

theorem texts_as_numbers_half :
    (Value.text "0.5").toDouble = .ok 0.5 ∧ Token.scan "0.5" = [⟨.number "0.5" 0.5, 0⟩] := by
  have hr : Double.read? "0.5".toList = some 0.5 := by decide +kernel
  have hd : (Value.text "0.5").toDouble = .ok 0.5 := by rw [Value.toDouble_text, hr]
  have hc : ∀ c ∈ "0.5".toList, isNumberBlank c = false ∧ c ∉ ['+', '-', 'e', 'E'] := by
    simp [isNumberBlank]
  exact ⟨hd, texts_as_numbers.2.2.2.2.2 "0.5" 0.5 hd hc ⟨'0', rfl, by decide⟩⟩

example : Double.read? "\t-.5e1 ".toList = some (-5) := by decide +kernel
example : Double.read? "1 e4".toList = none := by decide +kernel

end Scriptlet
