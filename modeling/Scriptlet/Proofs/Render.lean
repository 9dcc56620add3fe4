import Scriptlet.Proofs.Join
import Scriptlet.Proofs.Numeral
import Scriptlet.Proofs.StringLiteral

/-!
# Writing a tree as a script

`Expr.render` writes a tree with round brackets around every operand of an operator and a blank
between any two tokens. Scanning gives the written tokens back (`map_lexeme_scan_render`), and they
are a phrase with the tree that was written (`writes_lexemes`), so parsing gives the tree back
(`ofTokensWithin_render`). What parsing accepts is in turn a tree that can be written, up to numbers
that are too large for a double (`parse_render`).
-/

namespace Scriptlet

/-! ## Written trees -/

namespace Lexeme

/-- A character inside a string, behind a backslash if it would be read as something else. -/
def escapedChar (c : Char) : List Char := if c = '"' ∨ c = '\\' then ['\\', c] else [c]

/-- A text as a string. -/
def quoted (s : String) : Lexeme :=
  .string (.ofList ('"' :: (s.toList.flatMap escapedChar ++ ['"']))) s

/-- Lexemes inside a pair of brackets. -/
def bracketed (b : Bracket) (ls : List Lexeme) : List Lexeme :=
  .symbol (.opening b) :: (ls ++ [.symbol (.closing b)])

end Lexeme

namespace Expr

/-- The tokens of a tree, given how numbers are written. -/
def lexemes (numeral : Float → PlainNumeral) : Expr → List Lexeme
  | number x => [.number (numeral x).text x]
  | text s => [.quoted s]
  | ident name => [.name name]
  | root r => [.symbol r.symbol]
  | unary op e => .symbol op.symbol :: Lexeme.bracketed .round (e.lexemes numeral)
  | binary op l r =>
    Lexeme.bracketed .round (l.lexemes numeral) ++
      .symbol op.symbol :: Lexeme.bracketed .round (r.lexemes numeral)
  | element name index => .name name :: Lexeme.bracketed .square (index.lexemes numeral)
  | call name argument => .name name :: Lexeme.bracketed .round (argument.lexemes numeral)
  | strangeUnary _ _ | strangeBinary _ _ _ | strange _ => []

/-- The script of a tree, with a blank between any two tokens. -/
def render (blank : Char) (numeral : Float → PlainNumeral) (e : Expr) : String :=
  .ofList ([blank].intercalate ((e.lexemes numeral).map (·.text.toList)))

example : (Expr.element "a" (.unary .not (.text "\"x"))).render ' ' .exact =
    "a [ ! ( \"\\\"x\" ) ]" := rfl

/-- How deeply the brackets of the script of a tree nest. -/
def brackets : Expr → Nat
  | unary _ e | element _ e | call _ e => e.brackets + 1
  | binary _ l r => max l.brackets r.brackets + 1
  | _ => 0

end Expr

/-! ## Scanning -/

namespace Lexeme

theorem source_ofChar (c : Char) : (StringItem.ofChar c).source = escapedChar c := by
  unfold StringItem.ofChar escapedChar
  split <;> rfl

theorem stringRest_escaped (cs rest : List Char) :
    stringRest (cs.flatMap escapedChar ++ '"' :: rest) =
      ⟨cs.flatMap escapedChar ++ ['"'], cs, rest⟩ := by
  have h := stringRest_items (cs.map StringItem.ofChar) rest
  have hsource : (cs.map StringItem.ofChar).flatMap StringItem.source = cs.flatMap escapedChar := by
    simp only [List.flatMap_map, source_ofChar]
  rwa [hsource, StringItem.map_value_ofChar] at h

theorem closesString_escaped (cs : List Char) :
    closesString (cs.flatMap escapedChar ++ ['"']) = true := by
  have hs := closesString_source (cs.flatMap escapedChar ++ '"' :: [' '])
  rw [stringRest_escaped] at hs
  rw [hs]
  refine closesString_of_ne_nil ?_
  rw [stringRest_escaped]
  exact List.cons_ne_nil _ _

theorem isWhole_quoted (b : Char) (s : String) : Token.IsWhole b (quoted s) where
  significant := rfl
  endsBefore := by
    simp [quoted, endsBefore, isUnterminated, closesString_escaped]
  read := by
    refine ⟨'"', s.toList.flatMap escapedChar ++ ['"'], String.toList_ofList, ?_⟩
    rw [next_quote, stringRest_escaped, String.ofList_toList]
    rfl

theorem isWhole_symbol (b : Char) (s : Symbol) : Token.IsWhole b (symbol s) where
  significant := rfl
  endsBefore := rfl
  read := by
    cases s with
    | opening b | closing b => cases b <;> exact ⟨_, _, rfl, rfl⟩
    | _ => exact ⟨_, _, rfl, rfl⟩

theorem isWhole_name (b : Char) {name : String} (h : Text.isName name = true) :
    Token.IsWhole b (.name name) where
  significant := rfl
  endsBefore := rfl
  read := by
    obtain ⟨c, cs, hcs, hl, hw⟩ := Text.exists_of_isName h
    refine ⟨c, cs, hcs, ?_⟩
    rw [next_letter hl, List.takeWhile_eq_self_iff.2 hw, List.dropWhile_eq_nil_iff.2 hw, ← hcs,
      String.ofList_toList]

theorem forall_mem_bracketed {b : Bracket} {ls : List Lexeme} {p : Lexeme → Prop}
    (hs : ∀ s, p (.symbol s)) (h : ∀ l ∈ ls, p l) : ∀ l ∈ bracketed b ls, p l :=
  List.forall_mem_cons.2 ⟨hs _, List.forall_mem_append.2 ⟨h, List.forall_mem_singleton.2 (hs _)⟩⟩

end Lexeme

section
variable {literal : Float → Prop} {numeral : Float → PlainNumeral}

theorem isWhole_of_mem_lexemes (hn : ∀ x, literal x → (numeral x).Denotes x) (b : Char) {e : Expr}
    (h : e.WellFormed literal) : ∀ l ∈ e.lexemes numeral, Token.IsWhole b l := by
  have hs := Lexeme.isWhole_symbol b
  induction e with
  | number x => exact List.forall_mem_singleton.2 (PlainNumeral.isWhole (hn x h) b)
  | text s => exact List.forall_mem_singleton.2 (Lexeme.isWhole_quoted b s)
  | ident name => exact List.forall_mem_singleton.2 (Lexeme.isWhole_name b h)
  | root r => exact List.forall_mem_singleton.2 (hs _)
  | unary op e ih => exact List.forall_mem_cons.2 ⟨hs _, Lexeme.forall_mem_bracketed hs (ih h)⟩
  | binary op l r ihl ihr =>
    exact List.forall_mem_append.2 ⟨Lexeme.forall_mem_bracketed hs (ihl h.1),
      List.forall_mem_cons.2 ⟨hs _, Lexeme.forall_mem_bracketed hs (ihr h.2)⟩⟩
  | element name e ih | call name e ih =>
    exact List.forall_mem_cons.2 ⟨Lexeme.isWhole_name b h.1,
      Lexeme.forall_mem_bracketed hs (ih h.2)⟩
  | strangeUnary | strangeBinary | strange => exact absurd h id

/-- The written tokens are scanned one by one. -/
theorem map_lexeme_scan_render (hn : ∀ x, literal x → (numeral x).Denotes x) {blank : Char}
    (hb : Text.isBlank blank = true) {e : Expr} (h : e.WellFormed literal) :
    (Token.significant (Token.scan (e.render blank numeral))).map (·.lexeme) =
      e.lexemes numeral := by
  have hw := isWhole_of_mem_lexemes hn blank h
  rw [Token.map_lexeme_significant, Expr.render, String.toList_ofList]
  exact Token.content_ofLexemes hb (fun l hl => ⟨(hw l hl).significant, (hw l hl).read⟩)
    fun l hl => (hw l (List.dropLast_subset _ hl)).endsBefore

/-! ## Parsing -/

theorem UnaryOp.level_lt_levels (op : UnaryOp) : op.level < levels := by cases op <;> decide

theorem BinaryOp.level_lt_levels (op : BinaryOp) : op.level < levels := by
  cases op with
  | operator op => cases op with
    | arithmetic op => cases op <;> decide
    | comparison op => exact Nat.lt_of_sub_eq_succ rfl
  | conditional wanted => cases wanted <;> decide
  | _ => decide

theorem Derives.unary_mono {j k : Nat} {ts : List Token} {e : Expr} (h : Derives (.unary j) ts e)
    (hjk : j ≤ k) : Derives (.unary k) ts e := by
  induction hjk with
  | refl => exact h
  | step _ ih => exact .without ih

theorem Derives.binary_mono {j k : Nat} {ts : List Token} {e : Expr} (h : Derives (.binary j) ts e)
    (hjk : j ≤ k) : Derives (.binary k) ts e := by
  induction hjk with
  | refl => exact h
  | step _ ih => exact .tighter ih

/-- The tokens are a script with the tree, and its brackets nest as deeply as those of the tree. -/
def Writes (ts : List Token) (e : Expr) : Prop :=
  Derives (.binary BinaryOp.levels) ts e ∧ ∀ n, nesting n ts = n + e.brackets

theorem exists_of_bracketed {b : Bracket} {ts : List Token} {ls : List Lexeme}
    (h : ts.map (·.lexeme) = Lexeme.bracketed b ls) :
    ∃ o us c, ts = o :: (us ++ [c]) ∧ o.lexeme = .symbol (.opening b) ∧
      us.map (·.lexeme) = ls ∧ c.lexeme = .symbol (.closing b) := by
  obtain ⟨o, vs, rfl, ho, hv⟩ := List.map_eq_cons_iff.1 h
  obtain ⟨us, cs, rfl, hu, hcs⟩ := List.map_eq_append_iff.1 hv
  obtain ⟨c, rfl, hc⟩ := List.map_eq_singleton_iff.1 hcs
  exact ⟨o, us, c, rfl, ho, hu, hc⟩

/-- A tree in brackets is one deeper. -/
theorem Writes.nesting_bracketed {b b' : Bracket} {o c : Token} {ts : List Token} {e : Expr}
    (h : Writes ts e) (ho : o.lexeme = .symbol (.opening b))
    (hc : c.lexeme = .symbol (.closing b')) (n : Nat) :
    nesting n (o :: (ts ++ [c])) = n + (e.brackets + 1) := by
  have hn := Scriptlet.nesting_bracketed ho hc h.1.nesting_append n []
  rw [List.append_nil, h.2, nesting] at hn
  omega

theorem Writes.of_primary {t : Token} {e : Expr} (h : Derives .primary [t] e)
    (ho : ∀ b, t.lexeme ≠ .symbol (.opening b)) (hc : ∀ b, t.lexeme ≠ .symbol (.closing b))
    (he : e.brackets = 0) : Writes [t] e := by
  refine ⟨h.binary_of_primary _, fun n => ?_⟩
  rw [nesting_cons ho hc, nesting, he, Nat.add_zero]

/-- The written tokens are a phrase whose tree is the one that was written. The induction is on the
tree; every operand is a bracket group, so it may stand at any level. -/
theorem writes_lexemes {e : Expr} (h : e.WellFormed literal) {ts : List Token}
    (hts : ts.map (·.lexeme) = e.lexemes numeral) : Writes ts e := by
  induction e generalizing ts with
  | number x =>
    obtain ⟨t, rfl, ht⟩ := List.map_eq_singleton_iff.1 hts
    exact .of_primary (.number ht) (by simp [ht]) (by simp [ht]) rfl
  | text s =>
    obtain ⟨t, rfl, ht⟩ := List.map_eq_singleton_iff.1 hts
    rw [Lexeme.quoted] at ht
    exact .of_primary (.string ht) (by simp [ht]) (by simp [ht]) rfl
  | ident name =>
    obtain ⟨t, rfl, ht⟩ := List.map_eq_singleton_iff.1 hts
    exact .of_primary (.base (.name ht)) (by simp [ht]) (by simp [ht]) rfl
  | root r =>
    obtain ⟨t, rfl, ht⟩ := List.map_eq_singleton_iff.1 hts
    exact .of_primary (.root ht) (by simp [ht, r.symbol_ne_opening])
      (by simp [ht, r.symbol_ne_closing]) rfl
  | unary op e ih =>
    obtain ⟨t, us, rfl, ht, hu⟩ := List.map_eq_cons_iff.1 hts
    obtain ⟨o, vs, c, rfl, ho, hv, hc⟩ := exists_of_bracketed hu
    have hw := ih h hv
    have hd : Derives .base (o :: (vs ++ [c])) e := .group ho hw.1 hc
    have hu := Derives.unary_mono (.unary ht (.unary_of_primary (.base hd) _)) op.level_lt_levels
    refine ⟨.binary_mono (.operand hu) (Nat.zero_le _), fun n => ?_⟩
    rw [nesting_cons_of_symbol ht op.symbol_ne_opening op.symbol_ne_closing,
      hw.nesting_bracketed ho hc]
    rfl
  | binary op l r ihl ihr =>
    obtain ⟨ls, us, rfl, hl, hu⟩ := List.map_eq_append_iff.1 hts
    obtain ⟨t, rs, rfl, ht, hr⟩ := List.map_eq_cons_iff.1 hu
    obtain ⟨o, ls, c, rfl, ho, hls, hc⟩ := exists_of_bracketed hl
    obtain ⟨o', rs, c', rfl, ho', hrs, hc'⟩ := exists_of_bracketed hr
    have hwl := ihl h.1 hls
    have hwr := ihr h.2 hrs
    have hdl : Derives .base (o :: (ls ++ [c])) l := .group ho hwl.1 hc
    have hdr : Derives .base (o' :: (rs ++ [c'])) r := .group ho' hwr.1 hc'
    refine ⟨.binary_mono (.binary (.binary_of_primary (.base hdl) _) ht
      (.binary_of_primary (.base hdr) _)) op.level_lt_levels, fun n => ?_⟩
    rw [hdl.nesting_append, nesting_cons_of_symbol ht op.symbol_ne_opening op.symbol_ne_closing,
      hwl.nesting_bracketed ho hc, hwr.nesting_bracketed ho' hc', Expr.brackets]
    omega
  | element name e ih =>
    obtain ⟨t, us, rfl, ht, hu⟩ := List.map_eq_cons_iff.1 hts
    obtain ⟨o, vs, c, rfl, ho, hv, hc⟩ := exists_of_bracketed hu
    have hw := ih h.2 hv
    have hf : Derives .base [t] (.ident name) := .name ht
    refine ⟨.binary_of_primary (.element hf ho hw.1 hc) _, fun n => ?_⟩
    rw [nesting_cons (by simp [ht]) (by simp [ht]), hw.nesting_bracketed ho hc]
    rfl
  | call name e ih =>
    obtain ⟨t, us, rfl, ht, hu⟩ := List.map_eq_cons_iff.1 hts
    obtain ⟨o, vs, c, rfl, ho, hv, hc⟩ := exists_of_bracketed hu
    have hw := ih h.2 hv
    have hf : Derives .base [t] (.ident name) := .name ht
    refine ⟨.binary_of_primary (.call hf ho hw.1 hc) _, fun n => ?_⟩
    rw [nesting_cons (by simp [ht]) (by simp [ht]), hw.nesting_bracketed ho hc]
    rfl
  | strangeUnary | strangeBinary | strange => exact absurd h id

/-- A tree is read back from its script, if its brackets nest less deeply than the limit. -/
theorem ofTokensWithin_render (hn : ∀ x, literal x → (numeral x).Denotes x) {blank : Char}
    (hb : Text.isBlank blank = true) {e : Expr} (h : e.WellFormed literal) {limit : Nat}
    (hl : e.brackets < limit) :
    Expr.ofTokensWithin limit (Token.scan (e.render blank numeral)) = .ok e := by
  obtain ⟨hd, hnest⟩ := writes_lexemes h (map_lexeme_scan_render hn hb h)
  refine whole_of_ofTokensWithin.2 (Parse.whole_of_derives hd ?_)
  rwa [hnest, Nat.zero_add]

end

/-- Scripts and trees: whatever plain numerals are taken for the finite numbers, and whatever blank
is put between the tokens, a well-formed tree is read back from its script. A tree that is read from
any text is well formed, but that a number may be infinite; and there are texts with an infinite
number. -/
theorem parse_render {numeral : Float → PlainNumeral}
    (hn : ∀ x, Double.IsFiniteUnsigned x → (numeral x).Denotes x) :
    (∀ (blank : Char) (limit : Nat) (e : Expr), Text.isBlank blank = true →
      e.WellFormed Double.IsFiniteUnsigned → e.brackets < limit →
      Expr.ofTokensWithin limit (Token.scan (e.render blank numeral)) = .ok e) ∧
    (∀ (limit : Nat) (source : String) (e : Expr),
      Expr.ofTokensWithin limit (Token.scan source) = .ok e →
      e.WellFormed Double.IsUnsigned) ∧
    ∃ source, Expr.parse source = .ok (.number Double.infinity) := by
  refine ⟨fun blank limit e hb h hl => ofTokensWithin_render hn hb h hl,
    fun limit source e h => wellFormed_of_ofTokensWithin h, ?_⟩
  have hd : ∀ x, x = Double.infinity → PlainNumeral.Denotes (.ofPlaces 343 0 (10 ^ 342)) x := by
    rintro x rfl
    exact PlainNumeral.denotes_infinity (by decide)
  have hb : Text.isBlank ' ' = true := rfl
  have h : (Expr.number Double.infinity).WellFormed (· = Double.infinity) := rfl
  exact ⟨_, ofTokensWithin_render hd hb h (by decide)⟩

/-- A tree with a quote, a backslash and the smallest number. -/
theorem parse_render_exact :
    (∀ x, Double.IsFiniteUnsigned x → (PlainNumeral.exact x).Denotes x) ∧
    Expr.ofTokensWithin 3 (Token.scan (Expr.render ' ' PlainNumeral.exact
        (.binary .sequence (.call "f" (.text "a\"\\")) (.number (Double.ofCode false 1))))) =
      .ok (.binary .sequence (.call "f" (.text "a\"\\")) (.number (Double.ofCode false 1))) := by
  have hn : ∀ x, Double.IsFiniteUnsigned x → (PlainNumeral.exact x).Denotes x :=
    fun x h => (PlainNumeral.denotes_exact h).2
  have hle : 1 ≤ Double.infinityCode := by decide
  have hx : Double.IsFiniteUnsigned (Double.ofCode false 1) := by
    rw [Double.IsFiniteUnsigned, Double.isNegative_ofCode false hle, Double.code_ofCode false hle]
    exact ⟨rfl, by decide⟩
  have hf : Text.isName "f" = true := by decide +kernel
  exact ⟨hn, (parse_render hn).1 ' ' 3 _ rfl ⟨⟨hf, trivial⟩, hx⟩ (by decide)⟩

end Scriptlet
