import Scriptlet.Proofs.NumberText
import Scriptlet.Proofs.Render

/-!
# Displayed numbers

The text of a finite double is a number text that denotes it (`Layout.exists_text`): whatever grid
the search for the shortest decimal ends at, what it finds reads back (`code_shortest`), and the
ways of writing its digits keep its value.

* `display_reads_back`: so a displayed number reads back as the same number, as a text and, where it
  has no exponent, as a script.
-/

namespace Scriptlet

open Double PlainNumeral

/-! ## The shortest decimal -/

namespace Double

theorem code_exactDecimal {k : Nat} (h : k ≤ infinityCode) : (exactDecimal k).code = k := by
  obtain ⟨p, hp, hone⟩ := exists_one_eq
  have hneg : (-1074 : Int) = -(p : Int) := by omega
  have he : exactDecimal k = ⟨units k * 5 ^ p, -(p : Int)⟩ := by
    simp only [exactDecimal, Nat.pow_eq, hneg, ← hp]
  have hp' : (-(-(p : Int))).toNat = p := by omega
  have hz : (-(p : Int)).toNat = 0 := by omega
  have hn : (exactDecimal k).IsNearest k := by
    rw [he, Decimal.IsNearest, hp', hz]
    refine .of_eq (ten_pow_pos _) h ?_
    rw [hone, Nat.pow_zero, Nat.mul_one, Nat.mul_assoc, Nat.mul_comm (5 ^ p), ← Nat.mul_pow]
  exact (Decimal.isNearest_code _).unique (ten_pow_pos _) hn

theorem code_of_onGrid? {k : Nat} {step : Int} {d : Decimal} (h : onGrid? k step = some d) :
    d.code = k := by
  obtain ⟨n, -, hn⟩ := List.exists_of_findSome?_eq_some h
  dsimp only at hn
  split at hn
  · obtain rfl := Option.some.inj hn
    assumption
  · cases hn

/-- The search keeps what it has found until it finds another decimal of the code. -/
theorem code_bisect {grid : Nat → Option Decimal} {k : Nat}
    (hg : ∀ n d, grid n = some d → d.code = k) (rounds low high : Nat) {found : Decimal}
    (hf : found.code = k) : (bisect grid rounds low high found).code = k := by
  induction rounds generalizing low high found with
  | zero => exact hf
  | succ rounds ih =>
    rw [bisect]
    split
    · dsimp only
      split
      · exact ih _ _ (hg _ _ ‹_›)
      · exact ih _ _ hf
    · exact hf

/-- The shortest decimal of a code reads back as the code. -/
theorem code_shortest {k : Nat} (h : k ≤ infinityCode) : (shortest k).code = k := by
  have hg (places : Nat) (d : Decimal) :
      onGrid? k (leadingExponent k - places) = some d → d.code = k := code_of_onGrid?
  rw [shortest, code_bisect hg 5 0 17 (code_exactDecimal h)]

end Double

/-! ## Digits -/

namespace PlainNumeral

theorem digitChar_eq : ∀ d : Fin 10, Nat.digitChar d = digitChar d := by decide

theorem digitChar_zero : digitChar 0 = '0' := rfl

/-- Every number is written with decimal digits, the last one being its remainder. -/
theorem exists_toDigits (n : Nat) :
    ∃ d ds, Nat.toDigits 10 n = (d :: ds).map digitChar ∧ number (d :: ds) = n := by
  induction n using Nat.strongRecOn with
  | ind n ih =>
    rw [Nat.toDigits_eq_if (by decide)]
    split
    · rename_i h
      exact ⟨⟨n, h⟩, [], congrArg (· :: []) (digitChar_eq ⟨n, h⟩), Nat.zero_add n⟩
    · obtain ⟨d, ds, hd, hn⟩ := ih (n / 10) (by omega)
      have hr := digitChar_eq ⟨n % 10, Nat.mod_lt n (by decide)⟩
      refine ⟨d, ds ++ [⟨n % 10, Nat.mod_lt n (by decide)⟩], ?_, ?_⟩
      · rw [hd, hr, ← List.cons_append, List.map_append]
        rfl
      · rw [← List.cons_append, number_append_singleton, hn]
        exact Nat.div_add_mod n 10

theorem number_append_zeros (ds : List (Fin 10)) (z : Nat) :
    number (ds ++ List.replicate z 0) = number ds * 10 ^ z := by
  induction z with
  | zero => simp
  | succ z ih =>
    rw [List.replicate_succ', ← List.append_assoc, number_append_singleton, ih, Nat.pow_succ]
    simp only [Fin.val_zero]
    ring

theorem number_zeros_append (z : Nat) (ds : List (Fin 10)) :
    number (List.replicate z 0 ++ ds) = number ds := by
  induction z with
  | zero => rfl
  | succ z ih => exact ih

/-- What stands in front of the zeros at the end of some digits. -/
theorem exists_zeros (ds : List (Fin 10)) :
    ∃ kept z, ds = kept ++ List.replicate z 0 ∧
      ((ds.map digitChar).reverse.dropWhile (· == '0')).reverse = kept.map digitChar := by
  obtain ⟨z, hz⟩ : ∃ z, ds.reverse.takeWhile (· == 0) = List.replicate z 0 :=
    ⟨_, List.eq_replicate_iff.2 ⟨rfl, fun d hd => by simpa using List.mem_takeWhile_imp hd⟩⟩
  have hds := List.takeWhile_append_dropWhile (p := (· == 0)) (l := ds.reverse)
  have hchar : ((· == '0') ∘ digitChar) = (· == 0) := by decide
  rw [hz] at hds
  refine ⟨(ds.reverse.dropWhile (· == 0)).reverse, z, ?_, ?_⟩
  · rw [← List.reverse_inj, List.reverse_append, List.reverse_reverse, List.reverse_replicate, hds]
  · rw [← List.map_reverse, List.dropWhile_map, hchar, ← List.map_reverse]

end PlainNumeral

namespace Double

/-- Digits with the power of ten of the first one, as a decimal. -/
def Decimal.ofLead (ds : List (Fin 10)) (lead : Int) : Decimal :=
  ⟨number ds, lead + 1 - ds.length⟩

/-- The significant digits have the value of the decimal. -/
theorem Decimal.exists_significant (d : Decimal) :
    ∃ f fs lead, d.significant = ((f :: fs).map digitChar, lead) ∧
      ∀ k, d.IsNearest k ↔ (ofLead (f :: fs) lead).IsNearest k := by
  obtain ⟨digits, exponent⟩ := d
  obtain ⟨f, fs, hd, rfl⟩ := exists_toDigits digits
  obtain ⟨kept, z, hk, hs⟩ := exists_zeros (f :: fs)
  simp only [significant, hd, hs]
  cases kept with
  | nil =>
    -- All the digits are zeros.
    have hzero : number (f :: fs) = 0 := by
      rw [hk, number_append_zeros]
      exact Nat.zero_mul _
    refine ⟨0, [], 0, rfl, fun k => isNearest_iff_of_mul_eq ?_⟩
    have hl : (ofLead [0] 0).digits = 0 := rfl
    rw [hzero, hl, Nat.zero_mul, Nat.zero_mul, Nat.zero_mul, Nat.zero_mul]
  | cons g gs =>
    refine ⟨g, gs, _, rfl, fun k => ?_⟩
    have hl : (f :: fs).length = (g :: gs).length + z := by
      rw [hk, List.length_append, List.length_replicate]
    have he : exponent + z = exponent + ((f :: fs).map digitChar).length - 1 + 1 -
        (g :: gs).length := by
      rw [List.length_map, hl, Nat.cast_add]
      omega
    rw [hk, number_append_zeros, isNearest_shift, ofLead, ← hk, he]

/-! ## Layouts -/

/-- A point in front of the digits, with zeros between. -/
theorem decimal_of_zeros_front (z : Nat) (ds : List (Fin 10)) :
    (toNumberText ⟨0, [], some (List.replicate z 0 ++ ds)⟩).decimal = .ofLead ds (-z - 1) := by
  have hv : number (0 :: (List.replicate z 0 ++ ds)) = number ds := number_zeros_append (z + 1) ds
  have hp : (0 : Int) - (List.replicate z 0 ++ ds).length = -z - 1 + 1 - ds.length := by
    rw [List.length_append, List.length_replicate, Nat.cast_add]
    omega
  rw [Decimal.ofLead, ← hp, ← hv]
  rfl

/-- A point among the digits. -/
theorem decimal_of_point (f : Fin 10) (fs : List (Fin 10)) {k : Nat} (h : k ≤ fs.length) :
    (toNumberText ⟨f, fs.take k, some (fs.drop k)⟩).decimal = .ofLead (f :: fs) k := by
  have hv : f :: fs.take k ++ fs.drop k = f :: fs := by
    rw [List.cons_append, List.take_append_drop]
  have hp : (0 : Int) - (fs.drop k).length = k + 1 - (f :: fs).length := by
    rw [List.length_drop, List.length_cons]
    omega
  rw [Decimal.ofLead, ← hp, ← hv]
  rfl

/-- Zeros behind the digits, and a point with a zero or none. -/
theorem isNearest_of_zeros_behind (f : Fin 10) (fs : List (Fin 10)) (z : Nat) (keepsPoint : Bool)
    {k : Nat} :
    (toNumberText ⟨f, fs ++ List.replicate z 0,
      if keepsPoint then some [0] else none⟩).decimal.IsNearest k ↔
      (Decimal.ofLead (f :: fs) (fs.length + z)).IsNearest k := by
  have zeros (places : Nat) :
      Decimal.IsNearest ⟨number (f :: fs ++ List.replicate z 0 ++ List.replicate places 0),
        0 - places⟩ k ↔ (Decimal.ofLead (f :: fs) (fs.length + z)).IsNearest k := by
    have hl : (fs.length + z : Int) + 1 - (f :: fs).length = 0 - places + places + z := by
      rw [List.length_cons]
      omega
    rw [number_append_zeros, number_append_zeros, Decimal.isNearest_shift, Decimal.isNearest_shift,
      Decimal.ofLead, hl]
  cases keepsPoint with
  | false => exact zeros 0
  | true => exact zeros 1

/-- Digits with a point where the power of ten puts it are a plain numeral. -/
theorem exists_positional (keepsPoint : Bool) (f : Fin 10) (fs : List (Fin 10)) (lead : Int) :
    ∃ p : PlainNumeral, positional keepsPoint ((f :: fs).map digitChar) lead = p.chars ∧
      ∀ k, p.toNumberText.decimal.IsNearest k ↔ (Decimal.ofLead (f :: fs) lead).IsNearest k := by
  unfold positional
  split
  · have hl : lead = -((-lead - 1).toNat : Int) - 1 := by omega
    have hd := decimal_of_zeros_front (-lead - 1).toNat (f :: fs)
    rw [← hl] at hd
    refine ⟨⟨0, [], some (List.replicate (-lead - 1).toNat 0 ++ f :: fs)⟩, ?_, fun k => by rw [hd]⟩
    simp [chars, pointChars, digitChar_zero]
  dsimp only
  split
  · rename_i hw
    rw [List.length_map, List.length_cons] at hw
    have hd := decimal_of_point f fs (k := lead.toNat) (by omega)
    rw [Int.toNat_of_nonneg (by omega)] at hd
    refine ⟨⟨f, fs.take lead.toNat, some (fs.drop lead.toNat)⟩, ?_, fun k => by rw [hd]⟩
    simp [chars, pointChars]
  · rename_i hw
    rw [List.length_map, List.length_cons] at hw
    obtain ⟨z, hz⟩ : ∃ z, lead.toNat + 1 - (fs.length + 1) = z := ⟨_, rfl⟩
    have hl : (fs.length + z : Int) = lead := by omega
    rw [List.length_map, List.length_cons, hz, ← hl]
    refine ⟨_, ?_, fun k => isNearest_of_zeros_behind f fs z keepsPoint⟩
    cases keepsPoint <;> simp [chars, pointChars, digitChar_zero]

/-- A power of ten is written with a sign and a zero in front of a single digit. -/
theorem exists_exponentText (capital : Bool) (e : Int) :
    ∃ exponent : DecimalExponent, exponent.capital = capital ∧
      DecimalExponent.chars (some exponent) = exponent.mark :: exponentText e ∧
      DecimalExponent.value (some exponent) = e := by
  obtain ⟨f, fs, hf, hv⟩ : ∃ f fs, (if (Nat.toDigits 10 e.natAbs).length < 2 then
      '0' :: Nat.toDigits 10 e.natAbs else Nat.toDigits 10 e.natAbs) = (f :: fs).map digitChar ∧
      number (f :: fs) = e.natAbs := by
    obtain ⟨d, ds, hd, hn⟩ := exists_toDigits e.natAbs
    rw [hd]
    split
    · exact ⟨0, d :: ds, rfl, (number_zeros_append 1 (d :: ds)).trans hn⟩
    · exact ⟨d, ds, rfl, hn⟩
  unfold exponentText
  dsimp only
  rw [hf]
  split
  · refine ⟨⟨capital, some .minus, f, fs⟩, rfl, rfl, ?_⟩
    have hval : DecimalExponent.value (some ⟨capital, some .minus, f, fs⟩) =
        -(number (f :: fs) : Int) := rfl
    rw [hval, hv]
    omega
  · refine ⟨⟨capital, some .plus, f, fs⟩, rfl, rfl, ?_⟩
    have hval : DecimalExponent.value (some ⟨capital, some .plus, f, fs⟩) =
        (number (f :: fs) : Int) := rfl
    rw [hval, hv]
    omega

/-- Digits with an exponent behind them are a number text. -/
theorem exists_exponential (capital : Bool) (f : Fin 10) (fs : List (Fin 10)) (lead : Int) :
    ∃ (p : PlainNumeral) (e : DecimalExponent), e.capital = capital ∧
      exponential e.mark ((f :: fs).map digitChar) lead =
        NumberText.chars ⟨none, .numeral p, some e⟩ ∧
      NumberText.decimal ⟨none, .numeral p, some e⟩ = Decimal.ofLead (f :: fs) lead := by
  obtain ⟨e, hc, ht, hv⟩ := exists_exponentText capital lead
  cases fs with
  | nil =>
    refine ⟨⟨f, [], none⟩, e, hc, ?_, ?_⟩
    · rw [NumberText.chars, ht]
      rfl
    · have hp : lead - (0 : Nat) = lead + 1 - (1 : Nat) := by omega
      rw [NumberText.decimal, hv]
      exact congrArg (Decimal.mk _) hp
  | cons g gs =>
    refine ⟨⟨f, [], some (g :: gs)⟩, e, hc, ?_, ?_⟩
    · rw [NumberText.chars, ht]
      rfl
    · have hp : lead - (g :: gs).length = lead + 1 - (f :: g :: gs).length := by
        simp only [List.length_cons]
        omega
      rw [NumberText.decimal, hv]
      exact congrArg (Decimal.mk _) hp

/-- The equation of two functions is the one to unfold: to unfold the text of a code that is not
known would run the search for its shortest decimal. -/
theorem Layout.finiteText_def : finiteText = fun l code =>
    match (shortest code).significant with
    | (ds, lead) => if -4 ≤ lead ∧ lead < 16 then positional l.keepsPoint ds lead
      else exponential l.mark ds lead := rfl

theorem Layout.finiteText_eq (l : Layout) (k : Nat) :
    l.finiteText k =
      match (shortest k).significant with
      | (ds, lead) => if -4 ≤ lead ∧ lead < 16 then positional l.keepsPoint ds lead
        else exponential l.mark ds lead :=
  congrFun (congrFun finiteText_def l) k

/-- The text of a finite code is a number text that denotes it, and a plain numeral if it has no
exponent. -/
theorem Layout.exists_finiteText (l : Layout) (hl : l.mark = 'e' ∨ l.mark = 'E') {k : Nat}
    (hk : k ≤ infinityCode) :
    ∃ n : NumberText, n.sign = none ∧ n.chars = l.finiteText k ∧ n.decimal.IsNearest k ∧
      (l.mark ∈ l.finiteText k ∨ ∃ p : PlainNumeral, n = p.toNumberText) := by
  obtain ⟨f, fs, lead, hs, hn⟩ := (shortest k).exists_significant
  have hd := Decimal.isNearest_code (shortest k)
  rw [code_shortest hk, hn] at hd
  rw [finiteText_eq, hs]
  dsimp only
  split
  · obtain ⟨p, hp, hpn⟩ := exists_positional l.keepsPoint f fs lead
    refine ⟨p.toNumberText, rfl, ?_, (hpn k).2 hd, .inr ⟨p, rfl⟩⟩
    rw [p.chars_toNumberText, hp]
  · obtain ⟨p, e, he, hp, hx⟩ := exists_exponential (l.mark == 'E') f fs lead
    have hm : e.mark = l.mark := by
      rw [DecimalExponent.mark, he]
      rcases hl with h | h <;> rw [h] <;> rfl
    rw [hm] at hp
    rw [hp]
    refine ⟨_, rfl, rfl, hx ▸ hd, .inl ?_⟩
    rw [NumberText.chars, DecimalExponent.chars, hm]
    simp

/-- The text of a finite double is a number text that denotes it, and a plain numeral behind its
sign if it has no exponent. -/
theorem Layout.exists_text (l : Layout) (hl : l.mark = 'e' ∨ l.mark = 'E') {x : Float}
    (h : isFinite x = true) :
    ∃ n : NumberText, n.chars = l.text x ∧ n.Denotes x ∧ (l.mark ∈ l.text x ∨
      ∃ p : PlainNumeral, n = ⟨if isNegative x then some .minus else none, .numeral p, none⟩) := by
  have hk : code x < infinityCode := of_decide_eq_true h
  obtain ⟨⟨sign, m, e⟩, rfl, hc, hn, hp⟩ := l.exists_finiteText hl hk.le
  unfold text
  rw [if_neg hk.not_gt, if_pos h, ← hc]
  dsimp only
  rw [← hc] at hp
  cases hneg : isNegative x with
  | false => exact ⟨⟨none, m, e⟩, rfl, ⟨hneg, hn⟩, hp.imp_right fun ⟨p, hp⟩ => ⟨p, hp⟩⟩
  | true =>
    refine ⟨⟨some .minus, m, e⟩, rfl, ⟨hneg, hn⟩, hp.imp (List.mem_cons_of_mem _) ?_⟩
    rintro ⟨p, ⟨⟩⟩
    exact ⟨p, rfl⟩

theorem Layout.read?_text (l : Layout) (hl : l.mark = 'e' ∨ l.mark = 'E') {x : Float}
    (h : isFinite x = true) : read? (l.text x) = some x := by
  obtain ⟨n, hn, hx, -⟩ := l.exists_text hl h
  have hr : read? ([] ++ (n.chars ++ [])) = _ := n.read?_append nofun nofun
  rwa [← NumberText.denotes_iff.1 hx, List.append_nil, List.nil_append, hn] at hr

/-- The texts of the other doubles are no number texts. -/
theorem Layout.read?_text_of_not_finite (l : Layout) {x : Float} (h : isFinite x = false) :
    read? (l.text x) = none := by
  have hb : read? ['n', 'a', 'n'] = none ∧ read? ['-', 'i', 'n', 'f'] = none ∧
      read? ['i', 'n', 'f'] = none := by decide
  simp only [text, h, Bool.false_eq_true, if_false]
  split
  · exact hb.1
  split
  · exact hb.2.1
  · exact hb.2.2

theorem neg_magnitude {x : Float} (h : isFinite x = true) (hn : isNegative x = true) :
    -magnitude x = x := by
  have hk : code x ≤ infinityCode := (of_decide_eq_true h : code x < infinityCode).le
  have hx := ofCode_code x
  rw [hn] at hx
  rw [magnitude, neg_eq (by rwa [code_ofCode false hk]), isNegative_ofCode false hk,
    code_ofCode false hk]
  exact hx

end Double

/-! ## Scripts -/

/-- The tree of the text of a double. A script has no negative numbers, so the minus in front is an
operator. -/
def Expr.ofDouble (x : Float) : Expr :=
  if isNegative x then .unary .minus (.number (magnitude x)) else .number x

namespace PlainNumeral

variable {p : PlainNumeral} {x : Float}

theorem content_chars (h : p.Denotes x) : Token.content p.chars = [.number p.text x] := by
  have hc := Token.content_text (l := .number p.text x) rfl (p.isWhole h ' ').read
  rwa [Lexeme.text, text, String.toList_ofList] at hc

/-- Without its sign, a number text without an exponent denotes the double without its sign. -/
theorem denotes_magnitude {sign : Option NumberSign}
    (h : NumberText.Denotes ⟨sign, .numeral p, none⟩ x) : p.Denotes (magnitude x) := by
  have hk : code x ≤ infinityCode := h.nearest.le_infinityCode
  refine ⟨isNegative_ofCode false hk, ?_⟩
  rw [magnitude, code_ofCode false hk]
  exact p.isNearest_decimal_iff.1 h.nearest

/-- A minus in front of a number is a token of its own. -/
theorem content_minus_chars (h : p.Denotes x) :
    Token.content ('-' :: p.chars) = [.symbol .minus, .number p.text x] := by
  have hpair : ∀ d, Symbol.ofPair? '-' (digitChar d) = none := by decide
  have hread : Symbol.read? '-' p.chars = some (.minus, p.chars) := by
    rw [chars, List.map_cons, List.cons_append, Symbol.read?, hpair]
    rfl
  have hnext : Lexeme.next '-' p.chars = (.symbol .minus, p.chars) := by
    rw [Lexeme.next, if_neg (by decide), if_neg (by decide), if_neg (by decide),
      if_neg (by decide), if_neg (by decide), hread]
  rw [Token.content_cons, hnext, content_chars h]
  rfl

theorem ofTokensWithin_number {source : String} {text : String} {limit : Nat}
    (h : Token.content source.toList = [.number text x]) (hl : 0 < limit) :
    Expr.ofTokensWithin limit (Token.scan source) = .ok (.number x) := by
  rw [← Token.map_lexeme_significant] at h
  obtain ⟨t, hs, ht⟩ := List.map_eq_singleton_iff.1 h
  have hd := (Derives.number ht).binary_of_primary BinaryOp.levels
  refine whole_of_ofTokensWithin.2 ?_
  rw [hs]
  refine Parse.whole_of_derives hd ?_
  rwa [nesting_cons (by simp [ht]) (by simp [ht])]

theorem ofTokensWithin_minus_number {source : String} {text : String} {limit : Nat}
    (h : Token.content source.toList = [.symbol .minus, .number text x]) (hl : 0 < limit) :
    Expr.ofTokensWithin limit (Token.scan source) = .ok (.unary .minus (.number x)) := by
  rw [← Token.map_lexeme_significant] at h
  obtain ⟨t, us, hs, ht, hu⟩ := List.map_eq_cons_iff.1 h
  obtain ⟨u, rfl, hu'⟩ := List.map_eq_singleton_iff.1 hu
  have hd : Derives (.unary (UnaryOp.minus.level + 1)) [t, u] (.unary .minus (.number x)) :=
    .unary ht (.unary_of_primary (.number hu') _)
  have hd := hd.unary_mono UnaryOp.minus.level_lt_levels
  refine whole_of_ofTokensWithin.2 ?_
  rw [hs]
  refine Parse.whole_of_derives (.binary_mono (.operand hd) (Nat.zero_le _)) ?_
  rwa [nesting_cons_of_symbol ht UnaryOp.minus.symbol_ne_opening UnaryOp.minus.symbol_ne_closing,
    nesting_cons (by simp [hu']) (by simp [hu'])]

end PlainNumeral

theorem ofTokensWithin_display {x : Float} (h : isFinite x = true)
    (hmark : 'E' ∉ (display x).toList) {limit : Nat} (hl : 0 < limit) :
    Expr.ofTokensWithin limit (Token.scan (display x)) = .ok (.ofDouble x) := by
  obtain ⟨n, hn, hx, hp⟩ := Layout.display.exists_text (.inr rfl) h
  have hd : (display x).toList = n.chars := by rw [display, String.toList_ofList, hn]
  rw [← hn, ← hd] at hp
  obtain ⟨p, rfl⟩ := hp.resolve_left hmark
  unfold Expr.ofDouble
  cases hneg : isNegative x with
  | false =>
    rw [hneg] at hd hx
    have hchars : (display x).toList = p.chars := hd.trans p.chars_toNumberText
    have hc := content_chars (denotes_toNumberText.1 hx)
    rw [← hchars] at hc
    exact ofTokensWithin_number hc hl
  | true =>
    rw [hneg] at hd hx
    have hchars : (display x).toList = '-' :: p.chars :=
      hd.trans (congrArg ('-' :: ·) p.chars_toNumberText)
    have hc := content_minus_chars (denotes_magnitude hx)
    rw [← hchars] at hc
    exact ofTokensWithin_minus_number hc hl

/-- The text of a finite double without an exponent is a script with the double as its value. -/
theorem run_display {x : Float} (h : isFinite x = true) (hmark : 'E' ∉ (display x).toList)
    (s : Session) :
    s.run (display x) = (.ok (.number x), s.record (.parsed (display x) (.ofDouble x))) := by
  rw [Session.run_eq_runWithin,
    Session.runWithin_of_ok (ofTokensWithin_display h hmark (by decide))]
  unfold Expr.ofDouble
  cases hneg : isNegative x with
  | false => rfl
  | true =>
    have hv : Value.number x = .number (-magnitude x) := by rw [neg_magnitude h hneg]
    rw [hv]
    rfl

/-- Displayed numbers read back. The text of a finite double has the double as its number, with its
sign even if it is a zero, so that two finite doubles with the same text are the same. If the text
has no exponent, then it is also a script with this value, in which a minus in front is an operator.
The texts of the other doubles are no numbers. -/
theorem display_reads_back :
    (∀ x, isFinite x = true →
      (Value.number x).toText = .ok (display x) ∧ (Value.text (display x)).toDouble = .ok x) ∧
    (∀ x y, isFinite x = true → isFinite y = true → display x = display y → x = y) ∧
    (∀ (x : Float) (s : Session), isFinite x = true → 'E' ∉ (display x).toList →
      s.run (display x) = (.ok (.number x), s.record (.parsed (display x) (.ofDouble x)))) ∧
    ∀ x, isFinite x = false → (Value.number x).toText = .ok (display x) ∧
      (Value.text (display x)).toDouble = .error (.mismatch (.notNumeric (display x))) := by
  have read_display {x : Float} (h : isFinite x = true) : read? (display x).toList = some x := by
    rw [display, String.toList_ofList, Layout.display.read?_text (.inr rfl) h]
  refine ⟨fun x h => ⟨rfl, ?_⟩, fun x y hx hy he => ?_, fun x s h hmark => run_display h hmark s,
    fun x h => ⟨rfl, ?_⟩⟩
  · rw [Value.toDouble_text, read_display h]
  · have hr := read_display hx
    rw [he, read_display hy] at hr
    exact (Option.some.inj hr).symm
  · rw [Value.toDouble_text, display, String.toList_ofList,
      Layout.display.read?_text_of_not_finite h]

theorem display_reads_back_zero :
    display (-0.0) = "-0" ∧ (Value.text (display (-0.0))).toDouble = .ok (-0.0) ∧
      (Session.initial.run (display (-0.0))).1 = .ok (.number (-0.0)) := by
  have h : isFinite (-0.0) = true := by decide +kernel
  have hd : display (-0.0) = "-0" := by decide +kernel
  refine ⟨hd, (display_reads_back.1 _ h).2, ?_⟩
  rw [display_reads_back.2.2.1 _ Session.initial h (by rw [hd]; decide)]

example : display 1e23 = "1E+23" ∧ display 0.00015 = "0.00015" := by decide +kernel

end Scriptlet
