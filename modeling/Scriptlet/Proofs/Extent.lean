import Mathlib.Data.List.Chain
import Scriptlet.Proofs.WellFormed

/-!
# How far tokens go

`Lexeme.IsMaximal rest l`: the lexeme `l` has the characters of its kind, and in front of the text
`rest` it goes as far as its kind lets it. The first lexeme of any text is maximal in front of what
follows it (`isMaximal_next`), and its characters alone are scanned as the same lexeme
(`readsBack_next`).

* `tiles_scan`: the tokens of a text lie one behind the other, from its start to its end, and each
  of them is maximal.
-/

namespace Scriptlet

/-! ## Closing marks -/

/-- The text is closed at its end and not before, or it is not closed and nothing follows it. -/
def ClosedOnce (closes : List Char → Bool) (inside rest : List Char) : Prop :=
  if closes inside then ∀ p, p <+: inside → closes p = true → p = inside else rest = []

/-- The function cuts a text behind its first closing mark, or at its end if there is none. -/
structure CutsBehind (closes : List Char → Bool) (cut : List Char → List Char × List Char) :
    Prop where
  append (cs : List Char) : (cut cs).1 ++ (cut cs).2 = cs
  closes_fst (cs : List Char) : closes (cut cs).1 = closes cs
  closes_of_ne_nil {cs : List Char} : (cut cs).2 ≠ [] → closes cs = true
  append_of_closes {cs : List Char} : closes cs = true → ∀ ys, cut (cs ++ ys) =
    ((cut cs).1, (cut cs).2 ++ ys)

namespace CutsBehind

variable {closes : List Char → Bool} {cut : List Char → List Char × List Char}
  (h : CutsBehind closes cut)
include h

theorem eq_nil_of_not_closes {cs : List Char} (hc : closes cs = false) : (cut cs).2 = [] := by
  by_contra hn
  rw [h.closes_of_ne_nil hn] at hc
  cases hc

/-- What was cut off is cut off whole. -/
theorem cut_fst (cs : List Char) : cut (cut cs).1 = ((cut cs).1, []) := by
  have ha := h.append cs
  cases hc : closes cs with
  | false =>
    have hr := h.eq_nil_of_not_closes hc
    rw [hr, List.append_nil] at ha
    rw [ha]
    exact Prod.ext ha hr
  | true =>
    have hf := h.append_of_closes ((h.closes_fst cs).trans hc) (cut cs).2
    rw [ha] at hf
    have hr : (cut (cut cs).1).2 = [] := List.self_eq_append_left.1 (congrArg Prod.snd hf)
    exact Prod.ext (congrArg Prod.fst hf).symm hr

theorem closedOnce (cs : List Char) : ClosedOnce closes (cut cs).1 (cut cs).2 := by
  unfold ClosedOnce
  split
  · rintro p ⟨ys, hp⟩ hc
    -- the prefix is itself cut behind its first mark, and nothing of the whole is left over
    have hf := h.append_of_closes hc ys
    rw [hp, h.cut_fst] at hf
    have hl := congrArg List.length (h.append p)
    rw [← (Prod.mk.inj hf).1, List.length_append] at hl
    exact (List.prefix_iff_eq_take.1 ⟨ys, hp⟩).trans (List.take_of_length_le (by omega))
  · rename_i hc
    rw [h.closes_fst] at hc
    exact h.eq_nil_of_not_closes (by simpa using hc)

end CutsBehind

namespace Lexeme

theorem cutsBehind_block : CutsBehind closesBlock throughBlockEnd where
  append := throughBlockEnd_append
  closes_fst := closesBlock_throughBlockEnd
  closes_of_ne_nil := closesBlock_of_ne_nil
  append_of_closes := throughBlockEnd_append_of_closes

theorem cutsBehind_string :
    CutsBehind closesString fun cs => ((stringRest cs).source, (stringRest cs).rest) where
  append := stringRest_append
  closes_fst := closesString_source
  closes_of_ne_nil := closesString_of_ne_nil
  append_of_closes hc ys := by rw [stringRest_append_of_closes hc]

/-- The rest of a string alone stands for the same characters. -/
theorem stringRest_source (cs : List Char) :
    stringRest (stringRest cs).source = ⟨(stringRest cs).source, (stringRest cs).value, []⟩ := by
  have hc := cutsBehind_string.cut_fst cs
  have hs : (stringRest (stringRest cs).source).source = (stringRest cs).source :=
    congrArg Prod.fst hc
  have hr : (stringRest (stringRest cs).source).rest = [] := congrArg Prod.snd hc
  have hv : (stringRest (stringRest cs).source).value = (stringRest cs).value := by
    have ha := stringRest_append cs
    cases hcl : closesString cs with
    | false =>
      have hn : (stringRest cs).rest = [] := cutsBehind_string.eq_nil_of_not_closes hcl
      rw [hn, List.append_nil] at ha
      rw [ha]
    | true =>
      have hf := stringRest_append_of_closes ((closesString_source cs).trans hcl)
        (stringRest cs).rest
      rw [ha] at hf
      exact (congrArg StringRest.value hf).symm
  calc stringRest (stringRest cs).source
      = ⟨(stringRest (stringRest cs).source).source, (stringRest (stringRest cs).source).value,
          (stringRest (stringRest cs).source).rest⟩ := rfl
    _ = ⟨(stringRest cs).source, (stringRest cs).value, []⟩ := by rw [hs, hv, hr]

/-! ## Maximal lexemes -/

/-- The text does not start with a character of the class. -/
def Stops (p : Char → Bool) (rest : List Char) : Prop := ∀ c ∈ rest.head?, p c = false

/-- The lexeme has the characters of its kind, and in front of a rest it goes as far as its kind
lets it. A symbol is the longest one there, and a stray character starts nothing else. -/
def HasExtent (rest : List Char) : Lexeme → Prop
  | blank t => (∀ c ∈ t.toList, Text.isBlank c = true) ∧ Stops Text.isBlank rest
  | comment t => ∃ inside,
      t.toList = '/' :: '/' :: inside ∧ (∀ c ∈ inside, isLineEnd c = false) ∧
          Stops (!isLineEnd ·) rest ∨
        t.toList = '/' :: '*' :: inside ∧ ClosedOnce closesBlock inside rest
  | string t _ => ∃ inside, t.toList = '"' :: inside ∧ ClosedOnce closesString inside rest
  | name t => Text.isName t = true ∧ Stops Text.isWord rest
  | number t _ =>
      (∀ c ∈ t.toList.head?, Text.isDigit c = true) ∧
        (∀ c ∈ t.toList, Text.isDigit c = true ∨ c = '.') ∧ t.toList.count '.' ≤ 1 ∧
        Stops Text.isDigit rest ∧ ('.' ∉ t.toList → Stops (· == '.') rest)
  | symbol s =>
      ∀ other : Symbol, other.text.toList <+: s.text.toList ++ rest →
        other.text.toList.length ≤ s.text.toList.length
  | stray c =>
      Text.isBlank c = false ∧ c ≠ '"' ∧ Text.isLetter c = false ∧ Text.isDigit c = false ∧
        ∀ s : Symbol, ¬ s.text.toList <+: c :: rest

/-- The lexeme goes as far as its kind lets it, and a slash in front of a slash or a star starts
nothing but a comment. -/
structure IsMaximal (rest : List Char) (l : Lexeme) : Prop where
  extent : l.HasExtent rest
  comment_iff {cs : List Char} : l.text.toList ++ rest = '/' :: cs →
    ((∃ t, l = comment t) ↔ '/' ∈ cs.head? ∨ '*' ∈ cs.head?)

section
variable {c : Char} {cs : List Char}

theorem stops_dropWhile (p : Char → Bool) (cs : List Char) : Stops p (cs.dropWhile p) := by
  intro c hc
  have h := List.head?_dropWhile_not p cs
  rwa [Option.mem_def.1 hc] at h

/-! ### Symbols -/

theorem read?_slash (cs : List Char) : Symbol.read? '/' cs = some (.slash, cs) := by
  cases cs <;> rfl

/-- A symbol in front of a text is not longer than the one that is read there. -/
theorem length_le_of_read? {s other : Symbol} {rest : List Char}
    (h : Symbol.read? c cs = some (s, rest)) (ho : other.text.toList <+: c :: cs) :
    other.text.toList.length ≤ s.text.toList.length := by
  have hpos := List.length_pos_iff.2 (symbol_text_ne_nil s)
  rcases other.toList_text_cases with ⟨d, ht, -⟩ | ⟨d, e, ht, hp⟩
  · rw [ht, List.length_singleton]
    exact hpos
  · rw [ht] at ho ⊢
    obtain ⟨us, hu⟩ := ho
    obtain ⟨rfl, rfl⟩ := List.cons.inj hu
    have hr : Symbol.read? d (e :: us) = some (other, us) := by simp only [Symbol.read?, hp]
    rw [← (Prod.mk.inj (Option.some.inj (hr.symm.trans h))).1, ht]

theorem ofChar?_of_read? (h : Symbol.read? c cs = none) : Symbol.ofChar? c = none := by
  unfold Symbol.read? at h
  split at h
  · simpa using h
  · split at h
    · cases h
    · simpa using h

theorem not_prefix_of_read? (h : Symbol.read? c cs = none) (s : Symbol) :
    ¬ s.text.toList <+: c :: cs := by
  rintro ⟨us, hu⟩
  rcases s.toList_text_cases with ⟨d, ht, hs⟩ | ⟨d, e, ht, hs⟩
  all_goals
    rw [ht] at hu
    obtain ⟨rfl, rfl⟩ := List.cons.inj hu
  · rw [ofChar?_of_read? h] at hs
    cases hs
  · simp [Symbol.read?, hs] at h

/-- A symbol is read in front of nothing as it is read in front of a text. -/
theorem read?_text {s : Symbol} {rest : List Char} (h : Symbol.read? c cs = some (s, rest)) :
    ∃ us, s.text.toList = c :: us ∧ Symbol.read? c us = some (s, []) := by
  have one (hs : Symbol.ofChar? c = some s) :
      ∃ us, s.text.toList = c :: us ∧ Symbol.read? c us = some (s, []) :=
    ⟨[], Symbol.toList_text_of_ofChar? hs, by simp [Symbol.read?, hs]⟩
  unfold Symbol.read? at h
  split at h
  · obtain ⟨s', hs, h⟩ := Option.map_eq_some_iff.1 h
    cases h
    exact one hs
  · rename_i d _
    split at h
    · rename_i hs
      cases h
      exact ⟨[d], Symbol.toList_text_of_ofPair? hs, by simp [Symbol.read?, hs]⟩
    · obtain ⟨s', hs, h⟩ := Option.map_eq_some_iff.1 h
      cases h
      exact one hs

/-! ### Numbers -/

/-- A number is a run of digits that no digit and no point follows, or two runs of digits with a
point between them that no digit follows. -/
theorem numberChars_cases (cs : List Char) :
    ∃ whole, (∀ d ∈ whole, Text.isDigit d = true) ∧
      ((numberChars cs).1 = whole ∧ Stops Text.isDigit (numberChars cs).2 ∧
          Stops (· == '.') (numberChars cs).2 ∨
        ∃ fraction, (∀ d ∈ fraction, Text.isDigit d = true) ∧
          (numberChars cs).1 = whole ++ '.' :: fraction ∧
          Stops Text.isDigit (numberChars cs).2) := by
  refine ⟨cs.takeWhile Text.isDigit, fun _ => List.mem_takeWhile_imp, ?_⟩
  have hs := stops_dropWhile Text.isDigit cs
  unfold numberChars
  dsimp only
  split
  · rename_i rest hr
    exact .inr ⟨_, fun _ => List.mem_takeWhile_imp, rfl, stops_dropWhile _ _⟩
  · rename_i hp
    refine .inl ⟨rfl, hs, fun c hc => ?_⟩
    rw [beq_eq_false_iff_ne]
    rintro rfl
    obtain ⟨us, hu⟩ := List.head?_eq_some_iff.1 hc
    exact hp us hu

theorem exists_numberChars_eq (hd : Text.isDigit c = true) (cs : List Char) :
    ∃ us, (numberChars (c :: cs)).1 = c :: us := by
  unfold numberChars
  rw [List.takeWhile_cons_of_pos hd]
  dsimp only
  split <;> exact ⟨_, rfl⟩

theorem count_point_of_digits {ds : List Char} (h : ∀ d ∈ ds, Text.isDigit d = true) :
    ds.count '.' = 0 :=
  List.count_eq_zero.2 fun hm => absurd (h _ hm) (by decide)

theorem hasExtent_number (hd : Text.isDigit c = true) (x : Float) :
    (number (.ofList (numberChars (c :: cs)).1) x).HasExtent (numberChars (c :: cs)).2 := by
  have hhead : ∀ d ∈ (numberChars (c :: cs)).1.head?, Text.isDigit d = true := by
    obtain ⟨us, hu⟩ := exists_numberChars_eq hd cs
    rw [hu]
    rintro d ⟨⟩
    exact hd
  simp only [HasExtent, String.toList_ofList]
  refine ⟨hhead, ?_⟩
  obtain ⟨whole, hw, ⟨ht, hs, hp⟩ | ⟨fraction, hf, ht, hs⟩⟩ := numberChars_cases (c :: cs)
  · rw [ht]
    refine ⟨fun d hm => .inl (hw d hm), ?_, hs, fun _ => hp⟩
    rw [count_point_of_digits hw]
    exact Nat.zero_le 1
  · rw [ht]
    refine ⟨fun d hm => ?_, ?_, hs, fun hn => absurd (by simp) hn⟩
    · rcases List.mem_append.1 hm with hm | hm
      · exact .inl (hw d hm)
      · exact (List.mem_cons.1 hm).symm.imp_left (hf d)
    · rw [List.count_append, List.count_cons_self, count_point_of_digits hw,
        count_point_of_digits hf]

/-! ### The first lexeme -/

/-- What starts neither a blank, a comment, a string nor a name. -/
theorem next_other (hb : ¬ Text.isBlank c = true) (hs : c ≠ '/') (hq : c ≠ '"')
    (hl : ¬ Text.isLetter c = true) (cs : List Char) :
    next c cs =
      if Text.isDigit c then
        (number (.ofList (numberChars (c :: cs)).1) (numberValue (numberChars (c :: cs)).1),
          (numberChars (c :: cs)).2)
      else
        match Symbol.read? c cs with
        | some (s, rest) => (symbol s, rest)
        | none => (stray c, cs) := by
  refine (if_neg hb).trans ?_
  refine (if_neg hs).trans ?_
  refine (if_neg hq).trans ?_
  exact if_neg hl

theorem isMaximal_of_ne_slash {l : Lexeme} {rest : List Char} (hl : l.text.toList ++ rest = c :: cs)
    (hc : c ≠ '/') (h : l.HasExtent rest) : l.IsMaximal rest :=
  ⟨h, fun hs => absurd (List.cons.inj (hl.symm.trans hs)).1 hc⟩

end

/-- A slash starts a comment if a slash or a star follows it, and else it stands for itself. -/
theorem isMaximal_next_slash (cs : List Char) :
    (next '/' cs).1.IsMaximal (next '/' cs).2 := by
  have ht := text_next '/' cs
  have iff_of {l : Lexeme} {rest : List Char} (hl : l.text.toList ++ rest = '/' :: cs)
      (h : (∃ t, l = comment t) ↔ '/' ∈ cs.head? ∨ '*' ∈ cs.head?) {us : List Char}
      (hu : l.text.toList ++ rest = '/' :: us) :
      (∃ t, l = comment t) ↔ '/' ∈ us.head? ∨ '*' ∈ us.head? := by
    obtain ⟨-, rfl⟩ := List.cons.inj (hl.symm.trans hu)
    exact h
  rw [next_slash] at ht ⊢
  by_cases hs : ∃ us, cs = '/' :: us
  · obtain ⟨us, rfl⟩ := hs
    refine ⟨⟨us.takeWhile (!isLineEnd ·), .inl ⟨String.toList_ofList, fun d hm => ?_, ?_⟩⟩,
      iff_of ht ⟨fun _ => .inl rfl, fun _ => ⟨_, rfl⟩⟩⟩
    · simpa using List.mem_takeWhile_imp hm
    · exact stops_dropWhile _ us
  by_cases hm : ∃ us, cs = '*' :: us
  · obtain ⟨us, rfl⟩ := hm
    exact ⟨⟨(throughBlockEnd us).1, .inr ⟨String.toList_ofList, cutsBehind_block.closedOnce us⟩⟩,
      iff_of ht ⟨fun _ => .inr rfl, fun _ => ⟨_, rfl⟩⟩⟩
  · have hn := comment?_eq_none (fun us h => hs ⟨us, h⟩) fun us h => hm ⟨us, h⟩
    rw [hn] at ht ⊢
    refine ⟨fun other ho => length_le_of_read? (read?_slash cs) ho, iff_of ht ⟨nofun, ?_⟩⟩
    rintro (h | h)
    · obtain ⟨us, hu⟩ := List.head?_eq_some_iff.1 h
      exact absurd ⟨us, hu⟩ hs
    · obtain ⟨us, hu⟩ := List.head?_eq_some_iff.1 h
      exact absurd ⟨us, hu⟩ hm

/-- The first lexeme of a text is maximal in front of what follows it. -/
theorem isMaximal_next (c : Char) (cs : List Char) :
    (next c cs).1.IsMaximal (next c cs).2 := by
  by_cases hs : c = '/'
  · rw [hs]
    exact isMaximal_next_slash cs
  refine isMaximal_of_ne_slash (text_next c cs) hs ?_
  by_cases hb : Text.isBlank c = true
  · rw [next_blank hb]
    refine ⟨?_, stops_dropWhile _ _⟩
    simpa [hb, String.toList_ofList] using fun d hm => List.mem_takeWhile_imp hm
  by_cases hq : c = '"'
  · subst hq
    rw [next_quote]
    exact ⟨_, String.toList_ofList, cutsBehind_string.closedOnce cs⟩
  by_cases hl : Text.isLetter c = true
  · have hw := wellFormed_next c cs
    rw [next_letter hl] at hw ⊢
    exact ⟨hw, stops_dropWhile _ _⟩
  rw [next_other hb hs hq hl]
  split
  · rename_i hd
    exact hasExtent_number hd _
  · rename_i hd
    cases hr : Symbol.read? c cs with
    | some r =>
      obtain ⟨s, rest⟩ := r
      intro other ho
      rw [symbol_read?_append hr] at ho
      exact length_le_of_read? hr ho
    | none =>
      exact ⟨by simpa using hb, hq, by simpa using hl, by simpa using hd, not_prefix_of_read? hr⟩

/-! ### Lexemes alone -/

/-- A number is no shorter without the text behind it. -/
theorem numberChars_fst (cs : List Char) :
    numberChars (numberChars cs).1 = ((numberChars cs).1, []) := by
  have all {ds : List Char} (h : ∀ d ∈ ds, Text.isDigit d = true) :
      ds.takeWhile Text.isDigit = ds ∧ ds.dropWhile Text.isDigit = [] :=
    ⟨List.takeWhile_eq_self_iff.2 h, List.dropWhile_eq_nil_iff.2 h⟩
  obtain ⟨whole, hw, ⟨ht, -⟩ | ⟨fraction, hf, ht, -⟩⟩ := numberChars_cases cs
  · rw [ht, numberChars, (all hw).1, (all hw).2]
  · have hp : Text.isDigit '.' = false := by decide
    rw [ht, numberChars, List.takeWhile_append_of_pos hw, List.dropWhile_append_of_pos hw,
      List.takeWhile_cons_of_neg (by simp [hp]), List.dropWhile_cons_of_neg (by simp [hp]),
      List.append_nil]
    simp only [(all hf).1, (all hf).2]

theorem readsBack_next_slash (cs : List Char) : Token.ReadsBack (next '/' cs).1 := by
  rw [next_slash]
  by_cases hs : ∃ us, cs = '/' :: us
  · obtain ⟨us, rfl⟩ := hs
    refine ⟨'/', '/' :: us.takeWhile (!isLineEnd ·), String.toList_ofList, ?_⟩
    rw [next_slash]
    simp only [comment?, List.takeWhile_idem,
      List.dropWhile_eq_nil_iff.2 fun _ => List.mem_takeWhile_imp]
  by_cases hm : ∃ us, cs = '*' :: us
  · obtain ⟨us, rfl⟩ := hm
    refine ⟨'/', '*' :: (throughBlockEnd us).1, String.toList_ofList, ?_⟩
    rw [next_slash]
    simp only [comment?, cutsBehind_block.cut_fst]
  · rw [comment?_eq_none (fun us h => hs ⟨us, h⟩) fun us h => hm ⟨us, h⟩]
    have ht : (Lexeme.symbol .slash).text.toList = ['/'] := by decide
    exact ⟨'/', [], ht, rfl⟩

/-- The characters of the first lexeme alone are scanned as that lexeme. -/
theorem readsBack_next (c : Char) (cs : List Char) : Token.ReadsBack (next c cs).1 := by
  by_cases hs : c = '/'
  · rw [hs]
    exact readsBack_next_slash cs
  by_cases hb : Text.isBlank c = true
  · rw [next_blank hb]
    refine ⟨c, cs.takeWhile Text.isBlank, String.toList_ofList, ?_⟩
    rw [next_blank hb, List.takeWhile_idem,
      List.dropWhile_eq_nil_iff.2 fun _ => List.mem_takeWhile_imp]
  by_cases hq : c = '"'
  · subst hq
    rw [next_quote]
    refine ⟨'"', (stringRest cs).source, String.toList_ofList, ?_⟩
    rw [next_quote, stringRest_source]
  by_cases hl : Text.isLetter c = true
  · rw [next_letter hl]
    refine ⟨c, cs.takeWhile Text.isWord, String.toList_ofList, ?_⟩
    rw [next_letter hl, List.takeWhile_idem,
      List.dropWhile_eq_nil_iff.2 fun _ => List.mem_takeWhile_imp]
  have hn := next_other hb hs hq hl
  rw [hn]
  split
  · rename_i hd
    obtain ⟨us, hu⟩ := exists_numberChars_eq hd cs
    have hf := numberChars_fst (c :: cs)
    rw [hu] at hf ⊢
    refine ⟨c, us, String.toList_ofList, ?_⟩
    rw [hn, if_pos hd, hf]
  · rename_i hd
    cases hr : Symbol.read? c cs with
    | some r =>
      obtain ⟨s, rest⟩ := r
      obtain ⟨us, ht, hu⟩ := read?_text hr
      exact ⟨c, us, ht, by rw [hn, if_neg hd, hu]⟩
    | none =>
      refine ⟨c, [], by simp [text], ?_⟩
      rw [hn, if_neg hd, Symbol.read?, ofChar?_of_read? hr]
      rfl

end Lexeme

/-! ## Tokens -/

namespace Token

/-- The tokens lie one behind the other and make up the text. -/
structure Tiles (source : List Char) (tokens : List Token) : Prop where
  text : tokens.flatMap (·.text.toList) = source
  slice : ∀ t ∈ tokens, (source.drop t.start).take t.length = t.text.toList
  length_pos : ∀ t ∈ tokens, 0 < t.length
  first : ∀ t ∈ tokens.head?, t.start = 0
  next : tokens.IsChain fun t u => u.start = t.stop
  last : endOf tokens = source.length

theorem head?_place {start : Nat} {ls : List Lexeme} :
    ∀ t ∈ (place start ls).head?, t.start = start := by
  cases ls with
  | nil => nofun
  | cons l ls =>
    rintro t ⟨⟩
    rfl

theorem isChain_place (start : Nat) (ls : List Lexeme) :
    (place start ls).IsChain fun t u => u.start = t.stop := by
  induction ls generalizing start with
  | nil => exact .nil
  | cons l ls ih => exact (ih _).cons head?_place

theorem stop_of_getLast?_place {start : Nat} {ls : List Lexeme} {t : Token}
    (h : (place start ls).getLast? = some t) :
    t.stop = start + (ls.flatMap (·.text.toList)).length := by
  induction ls generalizing start with
  | nil => cases h
  | cons l ls ih =>
    rw [List.flatMap_cons, List.length_append, String.length_toList, ← Nat.add_assoc]
    rcases ls with _ | ⟨l', ls⟩
    · cases h
      rfl
    · rw [place, place, List.getLast?_cons_cons] at h
      exact ih h

/-- A token is the first lexeme of the text from its start on, and its end is where the text behind
that lexeme starts. The induction is on the text; `before` is what was scanned already. -/
theorem next_of_mem_place {cs before : List Char} {t : Token}
    (h : t ∈ place before.length (lexemes cs cs)) :
    ∃ c us, (before ++ cs).drop t.start = c :: us ∧
      Lexeme.next c us = (t.lexeme, (before ++ cs).drop t.stop) := by
  induction hn : cs.length using Nat.strongRecOn generalizing cs before with
  | ind n ih =>
    subst hn
    rcases cs with _ | ⟨c, us⟩
    · cases h
    have ha := Lexeme.text_next c us
    have hb : before ++ c :: us =
        before ++ (Lexeme.next c us).1.text.toList ++ (Lexeme.next c us).2 := by
      rw [List.append_assoc, ha]
    have hlen : (before ++ (Lexeme.next c us).1.text.toList).length =
        before.length + (Lexeme.next c us).1.text.length := by
      rw [List.length_append, String.length_toList]
    rw [lexemes_cons, place, ← hlen] at h
    rcases List.mem_cons.1 h with rfl | h
    · refine ⟨c, us, List.drop_left, ?_⟩
      have hs : stop ⟨(Lexeme.next c us).1, before.length⟩ =
          (before ++ (Lexeme.next c us).1.text.toList).length := hlen.symm
      rw [hs, hb, List.drop_left]
    · rw [hb]
      exact ih _ (Lexeme.length_next_lt c us) h rfl

theorem next_of_mem_scan {source : String} {t : Token} (h : t ∈ scan source) :
    ∃ c us, source.toList.drop t.start = c :: us ∧
      Lexeme.next c us = (t.lexeme, source.toList.drop t.stop) :=
  @next_of_mem_place source.toList [] t h

theorem flatMap_text_scan (source : String) :
    (scan source).flatMap (·.text.toList) = source.toList := by
  have hm := congrArg (List.flatMap (·.text.toList))
    (map_lexeme_place 0 (lexemes source.toList source.toList))
  rwa [List.flatMap_map, text_lexemes (Nat.le_refl _)] at hm

theorem tiles_scan_toList (source : String) : Tiles source.toList (scan source) where
  text := flatMap_text_scan source
  slice t ht := by
    obtain ⟨c, us, hc, hn⟩ := next_of_mem_scan ht
    have ha := Lexeme.text_next c us
    rw [hn] at ha
    rw [hc, ← ha]
    exact List.take_left' (String.length_toList ..)
  length_pos t ht := by
    obtain ⟨c, us, -, hn⟩ := next_of_mem_scan ht
    have ha := Lexeme.text_next_ne_nil c us
    rw [hn] at ha
    rw [length, ← String.length_toList]
    exact List.length_pos_iff.2 ha
  first := head?_place
  next := isChain_place _ _
  last := by
    unfold endOf
    cases h : (scan source).getLast? with
    | none =>
      have ht := flatMap_text_scan source
      rw [List.getLast?_eq_none_iff.1 h] at ht
      rw [← ht]
      rfl
    | some t =>
      have hs := stop_of_getLast?_place h
      rwa [text_lexemes (Nat.le_refl _), Nat.zero_add] at hs

theorem isMaximal_of_mem_scan {source : String} {t : Token} (h : t ∈ scan source) :
    t.lexeme.IsMaximal (source.toList.drop t.stop) := by
  obtain ⟨c, us, -, hn⟩ := next_of_mem_scan h
  have hm := Lexeme.isMaximal_next c us
  rwa [hn] at hm

/-- A blank token takes in all the blanks there are, so no other one is behind it. -/
theorem not_blank_of_start_eq {source : String} {t u : Token} (ht : t ∈ scan source)
    (hu : u ∈ scan source) (hs : u.start = t.stop) :
    ¬ ∃ text text', t.lexeme = .blank text ∧ u.lexeme = .blank text' := by
  rintro ⟨text, text', hb, hb'⟩
  obtain ⟨c, us, hc, hn⟩ := next_of_mem_scan hu
  have hm := (isMaximal_of_mem_scan ht).extent
  rw [hb, ← hs, hc] at hm
  have hne : (Lexeme.next c us).1 ≠ .blank text' := Lexeme.next_ne_blank (hm.2 c rfl) text'
  rw [hn] at hne
  exact hne hb'

/-- Scanning ends for every text. Its tokens lie one behind the other, from the start of the text
to its end, each of them goes as far as its kind lets it, and no two blank ones are neighbours. -/
theorem tiles_scan (source : String) :
    Tiles source.toList (scan source) ∧
      (∀ t ∈ scan source, t.lexeme.IsMaximal (source.toList.drop t.stop)) ∧
      (scan source).IsChain fun t u =>
        ¬ ∃ text text', t.lexeme = .blank text ∧ u.lexeme = .blank text' :=
  have h := tiles_scan_toList source
  ⟨h, fun _ => isMaximal_of_mem_scan,
    h.next.imp_of_mem_imp fun _ _ ht hu hs => not_blank_of_start_eq ht hu hs⟩

end Token

end Scriptlet
