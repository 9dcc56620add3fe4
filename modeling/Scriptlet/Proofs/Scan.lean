import Mathlib.Data.List.TakeWhile
import Scriptlet.Token

/-!
# Scanning a text in parts

Where a blank stands, a text may be cut: what is behind it is scanned as if nothing were in front of
it, unless the blank itself belongs to a comment or a string (`content_append`). So a text made up
of lexemes with blanks between them is scanned into these lexemes (`content_ofLexemes`), and the
tokens of a text never end behind its end (`stop_le_of_mem_scan`).
-/

namespace Scriptlet

/-! ## Blanks -/

namespace Text

theorem blankRanges_ascending : blankRanges.Ascending 0 := by simp [blankRanges, Ranges.Ascending]

/-- No blank is a word character: all the code points of blanks are tried. -/
theorem isWord_of_isBlank {c : Char} (h : isBlank c = true) : isWord c = false := by
  have all : ∀ r ∈ blankRanges, ∀ n ∈ List.range' r.1 (r.2 + 1 - r.1),
      (letterRanges.contains n || (digitAbove digitZeros n).isSome || numeralRanges.contains n ||
        n == 95) = false := by decide +kernel
  obtain ⟨r, hr, h1, h2⟩ := (Ranges.contains_iff blankRanges_ascending c.toNat).1 h
  have hc := all r hr c.toNat (by rw [List.mem_range'_1]; omega)
  have hu : (c == '_') = (c.toNat == 95) := by
    rw [Bool.eq_iff_iff, beq_iff_eq, beq_iff_eq]
    exact ⟨fun h => h ▸ rfl, fun h => Char.toNat_inj.1 h⟩
  rw [isWord, isAlphanumeric, isLetter, isDigit, isNumeral, digit?, hu]
  exact hc

theorem isDigit_of_isBlank {c : Char} (h : isBlank c = true) : isDigit c = false := by
  have hw := isWord_of_isBlank h
  simp only [isWord, isAlphanumeric, Bool.or_eq_false_iff] at hw
  exact hw.1.1.2

theorem ne_of_isBlank {b c : Char} (hb : isBlank b = true) (hc : isBlank c = false) : b ≠ c := by
  rintro rfl
  rw [hb] at hc
  cases hc

end Text

namespace Lexeme

/-! ## Ends of lexemes -/

/-- Whether a text holds the closing mark of a block comment. -/
def closesBlock : List Char → Bool
  | [] => false
  | '*' :: '/' :: _ => true
  | _ :: cs => closesBlock cs

/-- Whether a text holds a quote that no backslash protects. -/
def closesString : List Char → Bool
  | [] => false
  | '"' :: _ => true
  | '\\' :: _ :: cs => closesString cs
  | _ :: cs => closesString cs

/-- Whether the text of a comment, without its first character, ends in the middle of a block. -/
def isOpenBlock : List Char → Bool
  | '*' :: cs => !closesBlock cs
  | _ => false

/-- A string without its closing quote, or a block comment without its closing mark. -/
def isUnterminated : Lexeme → Bool
  | string t _ => !closesString t.toList.tail
  | comment t => isOpenBlock t.toList.tail
  | _ => false

/-- Whether a lexeme that the end of the text ends would also end in front of a given blank. -/
def endsBefore (b : Char) : Lexeme → Bool
  | blank _ => false
  | comment t => !isOpenBlock t.toList.tail && (t.toList.tail.head? == some '*' || isLineEnd b)
  | l => !l.isUnterminated

theorem endsBefore_of_isUnterminated {b : Char} {l : Lexeme} (hl : ∀ t, l ≠ blank t)
    (h : l.isUnterminated = false) (hb : isLineEnd b = true ∨ ∀ t, l ≠ comment t) :
    l.endsBefore b = true := by
  cases l with
  | blank t => exact absurd rfl (hl t)
  | comment t =>
    have hb : isLineEnd b = true := hb.resolve_right fun h => h t rfl
    rw [isUnterminated] at h
    simp [endsBefore, h, hb]
  | _ => simp [endsBefore, h]

section
variable {b : Char} {cs ys : List Char}

/-- A run of characters that ends inside a text, or in front of what follows it, ends there. -/
theorem span_append {p : Char → Bool} (cs ys : List Char)
    (h : cs.dropWhile p ≠ [] ∨ p b = false) :
    (cs ++ b :: ys).takeWhile p = cs.takeWhile p ∧
      (cs ++ b :: ys).dropWhile p = cs.dropWhile p ++ b :: ys := by
  induction cs with
  | nil => simp_all
  | cons c cs ih =>
    cases hc : p c with
    | false => simp [hc]
    | true =>
      simp only [List.dropWhile_cons, hc, if_true] at h
      simpa [hc] using ih h

/-! ### Comments -/

theorem closesBlock_cons {c : Char} (h : ∀ us, c = '*' → cs ≠ '/' :: us) :
    closesBlock (c :: cs) = closesBlock cs := by
  rw [closesBlock]
  rintro us rfl rfl
  exact h us rfl rfl

theorem throughBlockEnd_cons {c : Char} (h : ∀ us, c = '*' → cs ≠ '/' :: us) :
    throughBlockEnd (c :: cs) = (c :: (throughBlockEnd cs).1, (throughBlockEnd cs).2) := by
  rw [throughBlockEnd]
  rintro us rfl rfl
  exact h us rfl rfl

/-- A block ends with its closing mark if there is one. -/
theorem closesBlock_throughBlockEnd (cs : List Char) :
    closesBlock (throughBlockEnd cs).1 = closesBlock cs := by
  induction cs with
  | nil => rfl
  | cons c cs ih =>
    by_cases h : c = '*' ∧ ∃ us, cs = '/' :: us
    · obtain ⟨rfl, us, rfl⟩ := h
      rfl
    · have hn : ∀ us, c = '*' → cs ≠ '/' :: us := fun us hc hs => h ⟨hc, us, hs⟩
      rw [throughBlockEnd_cons hn, closesBlock_cons hn, ← ih]
      refine closesBlock_cons fun us hc hs => ?_
      -- the block behind the first character starts as the text behind it does
      cases cs with
      | nil => cases hs
      | cons d cs =>
        have ha := throughBlockEnd_append (d :: cs)
        rw [hs] at ha
        exact hn _ hc ha.symm

theorem throughBlockEnd_append_of_closes (h : closesBlock cs = true) (ys : List Char) :
    throughBlockEnd (cs ++ ys) = ((throughBlockEnd cs).1, (throughBlockEnd cs).2 ++ ys) := by
  induction cs with
  | nil => cases h
  | cons c cs ih =>
    by_cases hm : c = '*' ∧ ∃ us, cs = '/' :: us
    · obtain ⟨rfl, us, rfl⟩ := hm
      rfl
    · have hn : ∀ us, c = '*' → cs ≠ '/' :: us := fun us hc hs => hm ⟨hc, us, hs⟩
      rw [closesBlock_cons hn] at h
      have hn' : ∀ us, c = '*' → cs ++ ys ≠ '/' :: us := by
        rintro us rfl hs
        cases cs with
        | nil => cases h
        | cons d cs => exact hn cs rfl (by rw [(List.cons.inj hs).1])
      rw [throughBlockEnd_cons hn, List.cons_append, throughBlockEnd_cons hn', ih h]

theorem closesBlock_of_ne_nil (h : (throughBlockEnd cs).2 ≠ []) : closesBlock cs = true := by
  induction cs with
  | nil => exact absurd rfl h
  | cons c cs ih =>
    by_cases hm : c = '*' ∧ ∃ us, cs = '/' :: us
    · obtain ⟨rfl, us, rfl⟩ := hm
      rfl
    · have hn : ∀ us, c = '*' → cs ≠ '/' :: us := fun us hc hs => hm ⟨hc, us, hs⟩
      rw [throughBlockEnd_cons hn] at h
      rw [closesBlock_cons hn]
      exact ih h

theorem comment?_eq_none (hs : ∀ us, cs ≠ '/' :: us) (hb : ∀ us, cs ≠ '*' :: us) :
    comment? cs = none := by
  unfold comment?
  split
  · exact absurd rfl (hs _)
  · exact absurd rfl (hb _)
  · rfl

theorem comment?_append_cons (hb : Text.isBlank b = true)
    (h : ∀ inside rest, comment? cs = some (inside, rest) → rest ≠ [] ∨
      isOpenBlock inside = false ∧ (inside.head? = some '*' ∨ isLineEnd b = true)) :
    comment? (cs ++ b :: ys) = (comment? cs).map fun r => (r.1, r.2 ++ b :: ys) := by
  rcases cs with _ | ⟨c, cs⟩
  · refine comment?_eq_none (fun us hu => ?_) fun us hu => ?_
    · exact Text.ne_of_isBlank hb (by decide) (List.cons.inj hu).1
    · exact Text.ne_of_isBlank hb (by decide) (List.cons.inj hu).1
  by_cases hs : c = '/'
  · subst hs
    have hd : cs.dropWhile (!isLineEnd ·) ≠ [] ∨ (!isLineEnd b) = false := by
      simpa using (h _ _ rfl).imp_right fun h => h.2
    obtain ⟨ht, hr⟩ := span_append cs ys hd
    simp only [List.cons_append, comment?, ht, hr, Option.map_some]
  by_cases hm : c = '*'
  · subst hm
    have hc : closesBlock cs = true := by
      rcases h _ _ rfl with h | h
      · exact closesBlock_of_ne_nil h
      · simpa [isOpenBlock, closesBlock_throughBlockEnd] using h.1
    simp only [List.cons_append, comment?, throughBlockEnd_append_of_closes hc, Option.map_some]
  · have ne {us vs : List Char} {d : Char} (hd : c ≠ d) : c :: us ≠ d :: vs :=
      fun h => hd (List.cons.inj h).1
    rw [List.cons_append, comment?_eq_none (fun _ => ne hs) fun _ => ne hm,
      comment?_eq_none (fun _ => ne hs) fun _ => ne hm]
    rfl

/-! ### Strings -/

theorem closesString_cons {c : Char} (hq : c ≠ '"') (hb : c = '\\' → cs = []) :
    closesString (c :: cs) = closesString cs := by
  rw [closesString]
  · exact hq
  · intro d us hc hs
    rw [hb hc] at hs
    cases hs

theorem stringRest_cons {c : Char} (hq : c ≠ '"') (hb : c = '\\' → cs = []) :
    stringRest (c :: cs) =
      ⟨c :: (stringRest cs).source, c :: (stringRest cs).value, (stringRest cs).rest⟩ := by
  rw [stringRest]
  · exact hq
  · intro d us hc hs
    rw [hb hc] at hs
    cases hs

theorem closesString_source (cs : List Char) :
    closesString (stringRest cs).source = closesString cs := by
  fun_induction stringRest cs with
  | case1 => rfl
  | case2 cs => rfl
  | case3 c cs r ih => exact ih
  | case4 c cs hq hb r ih =>
    by_cases hc : c = '\\'
    · rcases cs with _ | ⟨d, cs⟩
      · rfl
      · exact absurd rfl (hb d cs hc)
    · rw [closesString_cons hq fun h => absurd h hc, closesString_cons hq fun h => absurd h hc]
      exact ih

theorem stringRest_append_of_closes (h : closesString cs = true) (ys : List Char) :
    stringRest (cs ++ ys) =
      ⟨(stringRest cs).source, (stringRest cs).value, (stringRest cs).rest ++ ys⟩ := by
  fun_induction closesString cs with
  | case1 => cases h
  | case2 cs => rfl
  | case3 c cs ih => simp only [List.cons_append, stringRest, ih h]
  | case4 c cs hq hb ih =>
    have hc : c ≠ '\\' := by
      rintro rfl
      rcases cs with _ | ⟨d, cs⟩
      · cases h
      · exact hb d cs rfl rfl
    rw [List.cons_append, stringRest_cons hq fun h => absurd h hc, ih h,
      stringRest_cons hq fun h => absurd h hc]

theorem closesString_of_ne_nil (h : (stringRest cs).rest ≠ []) : closesString cs = true := by
  fun_induction stringRest cs with
  | case1 => exact absurd rfl h
  | case2 cs => rfl
  | case3 c cs r ih => exact ih h
  | case4 c cs hq hb r ih =>
    rcases cs with _ | ⟨d, cs⟩
    · exact absurd rfl h
    · rw [closesString_cons hq fun hc => absurd rfl (hb d cs hc)]
      exact ih h

/-! ### Numbers and symbols -/

theorem numberChars_append_cons (hb : Text.isBlank b = true) :
    numberChars (cs ++ b :: ys) = ((numberChars cs).1, (numberChars cs).2 ++ b :: ys) := by
  have hd := Text.isDigit_of_isBlank hb
  have hp : b ≠ '.' := Text.ne_of_isBlank hb (by decide)
  obtain ⟨ht, hr⟩ := span_append (p := Text.isDigit) cs ys (.inr hd)
  unfold numberChars
  rw [ht, hr]
  rcases hcs : cs.dropWhile Text.isDigit with _ | ⟨c, us⟩
  · simp [hp]
  · by_cases hc : c = '.'
    · subst hc
      obtain ⟨ht', hr'⟩ := span_append (p := Text.isDigit) us ys (.inr hd)
      simp [ht', hr']
    · simp [hc]

/-- No blank is the second character of a symbol. -/
theorem ofPair?_of_isBlank {c : Char} (hb : Text.isBlank b = true) : Symbol.ofPair? c b = none := by
  have ne {d : Char} (hd : Text.isBlank d = false) : b ≠ d := Text.ne_of_isBlank hb hd
  unfold Symbol.ofPair?
  split
  all_goals first | rfl | exact absurd rfl (ne (by decide))

theorem read?_append_cons (c : Char) (hb : Text.isBlank b = true) :
    Symbol.read? c (cs ++ b :: ys) =
      (Symbol.read? c cs).map fun r => (r.1, r.2 ++ b :: ys) := by
  cases cs with
  | nil =>
    simp only [List.nil_append, Symbol.read?, ofPair?_of_isBlank hb, Option.map_map]
    rfl
  | cons d cs =>
    simp only [List.cons_append, Symbol.read?]
    cases Symbol.ofPair? c d with
    | none => simp only [Option.map_map]; rfl
    | some s => rfl

/-! ### The first lexeme -/

theorem next_blank {c : Char} (h : Text.isBlank c = true) :
    next c cs =
      (blank (.ofList (c :: cs.takeWhile Text.isBlank)), cs.dropWhile Text.isBlank) := by
  rw [next, if_pos h]

theorem next_ne_blank {c : Char} (h : Text.isBlank c = false) (t : String) :
    (next c cs).1 ≠ blank t := by
  unfold next
  rw [if_neg (by simp [h])]
  repeat' split
  all_goals exact nofun

theorem next_slash : next '/' cs =
    match comment? cs with
    | some (inside, rest) => (comment (.ofList ('/' :: inside)), rest)
    | none => (symbol .slash, cs) := by
  rw [next, if_neg (by decide)]
  exact if_pos rfl

theorem next_quote : next '"' cs =
    (string (.ofList ('"' :: (stringRest cs).source)) (.ofList (stringRest cs).value),
      (stringRest cs).rest) := by
  rw [next, if_neg (by decide), if_neg (by decide), if_pos rfl]

theorem next_letter {c : Char} (h : Text.isLetter c = true) :
    next c cs = (name (.ofList (c :: cs.takeWhile Text.isWord)), cs.dropWhile Text.isWord) := by
  have hb : Text.isBlank c = false := by
    cases hb : Text.isBlank c with
    | false => rfl
    | true =>
      have hw := Text.isWord_of_isBlank hb
      simp [Text.isWord, Text.isAlphanumeric, h] at hw
  have hs : c ≠ '/' := by
    rintro rfl
    exact absurd h (by decide)
  have hq : c ≠ '"' := by
    rintro rfl
    exact absurd h (by decide)
  rw [next, if_neg (by simp [hb]), if_neg hs, if_neg hq, if_pos h]

/-- The first lexeme of a text is still the first one if a blank and more text follow, unless it is
at the end of the text and the blank would belong to it. -/
theorem next_append_cons {c : Char} (hb : Text.isBlank b = true)
    (h : (next c cs).2 ≠ [] ∨ (next c cs).1.endsBefore b = true) :
    next c (cs ++ b :: ys) = ((next c cs).1, (next c cs).2 ++ b :: ys) := by
  by_cases hc : Text.isBlank c = true
  · rw [next_blank hc] at h ⊢
    have hd : cs.dropWhile Text.isBlank ≠ [] := h.resolve_right (by simp [endsBefore])
    obtain ⟨ht, hr⟩ := span_append (b := b) cs ys (.inl hd)
    rw [next_blank hc, ht, hr]
  by_cases hs : c = '/'
  · subst hs
    rw [next_slash] at h ⊢
    rw [next_slash, comment?_append_cons hb]
    · cases comment? cs <;> rfl
    · intro inside rest hc
      rw [hc] at h
      simpa [endsBefore] using h
  by_cases hq : c = '"'
  · subst hq
    rw [next_quote] at h ⊢
    have hcl : closesString cs = true := by
      rcases h with h | h
      · exact closesString_of_ne_nil h
      · simpa [endsBefore, isUnterminated, closesString_source] using h
    rw [next_quote, stringRest_append_of_closes hcl]
  by_cases hl : Text.isLetter c = true
  · have hw : Text.isWord b = false := Text.isWord_of_isBlank hb
    obtain ⟨ht, hr⟩ := span_append (p := Text.isWord) cs ys (.inr hw)
    rw [next_letter hl, next_letter hl, ht, hr]
  unfold next
  rw [if_neg hc, if_neg hs, if_neg hq, if_neg hl, if_neg hc, if_neg hs, if_neg hq, if_neg hl]
  split
  · rw [← List.cons_append, numberChars_append_cons hb]
  · rw [read?_append_cons c hb]
    cases Symbol.read? c cs <;> rfl

end

end Lexeme

/-! ## The lexemes of a text -/

namespace Token

/-- The bound only has to be long enough. -/
theorem lexemes_congr {bound other cs : List Char} (h : cs.length ≤ bound.length)
    (h' : cs.length ≤ other.length) : lexemes bound cs = lexemes other cs := by
  induction bound generalizing other cs with
  | nil =>
    obtain rfl : cs = [] := List.eq_nil_of_length_eq_zero (Nat.le_zero.1 h)
    cases other <;> rfl
  | cons b bound ih =>
    rcases cs with _ | ⟨c, cs⟩
    · cases other <;> rfl
    rcases other with _ | ⟨d, other⟩
    · cases h'
    have hl := Lexeme.length_next_lt c cs
    simp only [List.length_cons] at h h' hl
    have hi : lexemes bound (Lexeme.next c cs).2 = lexemes other (Lexeme.next c cs).2 :=
      ih (by omega) (by omega)
    exact congrArg _ hi

theorem lexemes_cons (c : Char) (cs : List Char) :
    lexemes (c :: cs) (c :: cs) = (Lexeme.next c cs).1 ::
      lexemes (Lexeme.next c cs).2 (Lexeme.next c cs).2 := by
  have hl := Lexeme.length_next_lt c cs
  simp only [List.length_cons] at hl
  have hb : lexemes cs (Lexeme.next c cs).2 =
      lexemes (Lexeme.next c cs).2 (Lexeme.next c cs).2 :=
    lexemes_congr (by omega) (Nat.le_refl _)
  exact congrArg _ hb

/-- What holds of every first lexeme holds of every lexeme. -/
theorem forall_mem_lexemes {P : Lexeme → Prop} (h : ∀ c cs, P (Lexeme.next c cs).1)
    {bound cs : List Char} : ∀ l ∈ lexemes bound cs, P l := by
  fun_induction lexemes bound cs with
  | case1 _ bound c cs lexeme rest hn ih =>
    have hc := h c cs
    rw [hn] at hc
    exact List.forall_mem_cons.2 ⟨hc, ih⟩
  | case2 => simp

theorem lexemes_ne_nil {cs : List Char} (h : cs ≠ []) : lexemes cs cs ≠ [] := by
  obtain ⟨c, cs, rfl⟩ := List.exists_cons_of_ne_nil h
  rw [lexemes_cons]
  exact List.cons_ne_nil _ _

/-- The lexemes of a text that are more than layout. -/
def content (cs : List Char) : List Lexeme := (lexemes cs cs).filter (·.isSignificant)

theorem content_cons (c : Char) (cs : List Char) :
    content (c :: cs) =
      [(Lexeme.next c cs).1].filter (·.isSignificant) ++ content (Lexeme.next c cs).2 := by
  rw [content, lexemes_cons, content, ← List.filter_append]
  rfl

theorem content_dropWhile_isBlank (cs : List Char) :
    content (cs.dropWhile Text.isBlank) = content cs := by
  rcases cs with _ | ⟨c, cs⟩
  · rfl
  cases hc : Text.isBlank c with
  | false => rw [List.dropWhile_cons_of_neg (by simp [hc])]
  | true =>
    rw [List.dropWhile_cons_of_pos hc, content_cons, Lexeme.next_blank hc]
    rfl

/-- Blanks in front of a text add nothing to it. -/
theorem content_append_of_blank {ws : List Char} (h : ∀ c ∈ ws, Text.isBlank c = true)
    (cs : List Char) : content (ws ++ cs) = content cs := by
  rw [← content_dropWhile_isBlank, List.dropWhile_append_of_pos h, content_dropWhile_isBlank]

theorem content_cons_of_blank {b : Char} (h : Text.isBlank b = true) (cs : List Char) :
    content (b :: cs) = content cs := by
  have hb : ∀ c ∈ [b], Text.isBlank c = true := by simpa using h
  exact content_append_of_blank hb cs

/-- A text may be cut at a blank that is not in the middle of a string or a comment. The induction
is on the lexemes in front of the blank: only the last one could take it in. -/
theorem content_append {b : Char} (hb : Text.isBlank b = true) (cs ys : List Char)
    (h : ∀ l, (lexemes cs cs).getLast? = some l → l.isUnterminated = false ∧
      (Lexeme.isLineEnd b = true ∨ ∀ t, l ≠ .comment t)) :
    content (cs ++ b :: ys) = content cs ++ content ys := by
  induction hn : cs.length using Nat.strongRecOn generalizing cs with
  | ind n ih =>
    subst hn
    rcases cs with _ | ⟨c, cs⟩
    · exact content_cons_of_blank hb ys
    rw [lexemes_cons] at h
    have hl := Lexeme.length_next_lt c cs
    by_cases hr : (Lexeme.next c cs).2 = []
    · rw [hr] at h
      obtain ⟨hu, hlast⟩ := h _ rfl
      cases hc : Text.isBlank c with
      | true =>
        rw [Lexeme.next_blank hc, List.dropWhile_eq_nil_iff] at hr
        have hcs : ∀ d ∈ c :: cs, Text.isBlank d = true := List.forall_mem_cons.2 ⟨hc, hr⟩
        have hnil := content_append_of_blank hcs []
        rw [List.append_nil] at hnil
        rw [content_append_of_blank hcs, content_cons_of_blank hb, hnil]
        rfl
      | false =>
        have he := Lexeme.endsBefore_of_isUnterminated (Lexeme.next_ne_blank hc) hu hlast
        rw [List.cons_append, content_cons, Lexeme.next_append_cons hb (.inr he), hr,
          List.nil_append, content_cons_of_blank hb, content_cons c cs, hr]
        simp [content, lexemes]
    · have hrest := lexemes_ne_nil hr
      rw [List.getLast?_cons, List.getLast?_eq_some_getLast hrest] at h
      rw [List.cons_append, content_cons, Lexeme.next_append_cons hb (.inl hr),
        ih _ hl _ (by rwa [List.getLast?_eq_some_getLast hrest]) rfl, content_cons c cs,
        List.append_assoc]

/-! ### Texts made of lexemes -/

/-- The text of the lexeme alone is scanned as the lexeme. -/
def ReadsBack (l : Lexeme) : Prop := ∃ c cs, l.text.toList = c :: cs ∧ Lexeme.next c cs = (l, [])

/-- The text of the lexeme alone is scanned as the lexeme, and a blank behind it ends it. -/
structure IsWhole (b : Char) (l : Lexeme) : Prop where
  significant : l.isSignificant = true
  endsBefore : l.endsBefore b = true
  read : ReadsBack l

theorem content_text_append {b : Char} (hb : Text.isBlank b = true) {l : Lexeme}
    (h : IsWhole b l) (ys : List Char) :
    content (l.text.toList ++ b :: ys) = l :: content ys := by
  obtain ⟨c, cs, ht, hn⟩ := h.read
  have he : (Lexeme.next c cs).1.endsBefore b = true := by
    rw [hn]
    exact h.endsBefore
  rw [ht, List.cons_append, content_cons, Lexeme.next_append_cons hb (.inr he), hn, List.nil_append,
    content_cons_of_blank hb]
  simp [h.significant]

theorem content_text {l : Lexeme} (hs : l.isSignificant = true) (h : ReadsBack l) :
    content l.text.toList = [l] := by
  obtain ⟨c, cs, ht, hn⟩ := h
  rw [ht, content_cons, hn]
  simp [hs, content, lexemes]

theorem scan_text {l : Lexeme} (h : ReadsBack l) : scan l.text = [⟨l, 0⟩] := by
  obtain ⟨c, cs, ht, hn⟩ := h
  rw [scan, ht, lexemes_cons, hn]
  rfl

/-- Lexemes with blanks between them are scanned one by one. Nothing follows the last one, so only
the others have to end in front of a blank. -/
theorem content_ofLexemes {b : Char} (hb : Text.isBlank b = true) {ls : List Lexeme}
    (h : ∀ l ∈ ls, l.isSignificant = true ∧ ReadsBack l)
    (he : ∀ l ∈ ls.dropLast, l.endsBefore b = true) :
    content ([b].intercalate (ls.map (·.text.toList))) = ls := by
  induction ls with
  | nil => rfl
  | cons l ls ih =>
    obtain ⟨⟨hs, hr⟩, hls⟩ := List.forall_mem_cons.1 h
    rcases ls with _ | ⟨l', ls⟩
    · simpa using content_text hs hr
    · rw [List.dropLast_cons_cons] at he
      obtain ⟨hl, he⟩ := List.forall_mem_cons.1 he
      have hi := ih hls he
      rw [List.map_cons, List.map_cons, List.intercalate_cons_cons, List.append_assoc,
        List.singleton_append, content_text_append hb ⟨hs, hl, hr⟩]
      exact congrArg _ hi

/-! ## Places -/

theorem map_lexeme_place (start : Nat) (ls : List Lexeme) :
    (place start ls).map (·.lexeme) = ls := by
  induction ls generalizing start with
  | nil => rfl
  | cons l ls ih => simp [place, ih]

/-- The tokens of a script are its lexemes without layout, wherever they stand. -/
theorem map_lexeme_significant (source : String) :
    (significant (scan source)).map (·.lexeme) = content source.toList := by
  have hf := List.filter_map (f := (·.lexeme)) (p := (·.isSignificant)) (l := scan source)
  rw [scan, map_lexeme_place] at hf
  exact hf.symm

theorem stop_le_of_mem_place {start : Nat} {ls : List Lexeme} {t : Token}
    (h : t ∈ place start ls) : t.stop ≤ start + (ls.flatMap (·.text.toList)).length := by
  induction ls generalizing start with
  | nil => cases h
  | cons l ls ih =>
    rw [List.flatMap_cons, List.length_append]
    rcases List.mem_cons.1 h with rfl | h
    · rw [stop, length, text, ← String.length_toList]
      dsimp only
      omega
    · have := ih h
      rw [← String.length_toList] at this
      omega

/-- No token ends behind the end of its text. -/
theorem stop_le_of_mem_scan {source : String} {t : Token} (h : t ∈ scan source) :
    t.stop ≤ source.length := by
  have hs := stop_le_of_mem_place h
  rwa [text_lexemes (Nat.le_refl _), Nat.zero_add, String.length_toList] at hs

theorem endOf_scan_le (source : String) : endOf (scan source) ≤ source.length := by
  unfold endOf
  cases h : (scan source).getLast? with
  | none => exact Nat.zero_le _
  | some t => exact stop_le_of_mem_scan (List.mem_of_getLast? h)

end Token

end Scriptlet
