import Scriptlet.Proofs.NumberText

/-!
# Operators on values

What an operator gives for two values, as a relation (`Operator.Yields`), and when it gives nothing
(`Operator.Mismatched`). Both are stated by what values have: a number, a text or neither.

* `Operator.decided`: an operator comes to a value that it yields, or the operands are a mismatch.
* `operators_on_values`: so the failures and the kinds of the results are known, and the comparisons
  of a text agree with each other and with the order of the code points.
-/

namespace Scriptlet

/-! ## What values stand for -/

/-- Whether values of the kind stand for a text. Containers and functions do not, nor do they stand
for a number. -/
def Kind.hasText : Kind → Bool
  | null | double | string => true
  | array | dictionary | function => false

namespace Value

/-- The value stands for a number, if only for the one that is none. -/
inductive HasDouble : Value → Prop
  | null : HasDouble null
  | number (x : Float) : HasDouble (number x)
  | text {n : NumberText} {s : String} : n.Fills s → HasDouble (text s)

theorem toDouble_cases (v : Value) :
    v.HasDouble ∧ (∃ x, v.toDouble = .ok x) ∨
      ¬v.HasDouble ∧ ∃ m, v.toDouble = .error (.mismatch m) := by
  cases v with
  | null => exact .inl ⟨.null, _, rfl⟩
  | number x => exact .inl ⟨.number x, _, rfl⟩
  | text s =>
    by_cases h : ∃ n : NumberText, n.Fills s
    · obtain ⟨n, hn⟩ := h
      obtain ⟨x, hx, -⟩ := n.existsUnique_denotes
      exact .inl ⟨.text hn, x, toDouble_text_eq_ok_iff.2 ⟨n, hn, hx⟩⟩
    · exact .inr ⟨fun | .text hn => h ⟨_, hn⟩, _, toDouble_text_of_not_fills h⟩
  | array _ | dictionary _ | function _ _ | builtin _ => exact .inr ⟨nofun, _, rfl⟩

theorem toText_cases (v : Value) :
    v.kind.hasText = true ∧ (∃ t, v.toText = .ok t) ∨
      v.kind.hasText = false ∧ ∃ m, v.toText = .error (.mismatch m) := by
  cases v with
  | null | number _ | text _ => exact .inl ⟨rfl, _, rfl⟩
  | array _ | dictionary _ | function _ _ | builtin _ => exact .inr ⟨rfl, _, rfl⟩

end Value

/-! ## Comparisons of texts -/

/-- The code points of the one text are before those of the other in the order of a dictionary. -/
def Text.Before (s t : String) : Prop :=
  List.Lex (· < ·) (s.toList.map Char.toNat) (t.toList.map Char.toNat)

namespace Comparison

/-- The comparison of two texts by their code points. -/
def Holds : Comparison → String → String → Prop
  | equal, s, t => s = t
  | unequal, s, t => s ≠ t
  | greater, s, t => Text.Before t s
  | less, s, t => Text.Before s t
  | greaterEqual, s, t => ¬Text.Before s t
  | lessEqual, s, t => ¬Text.Before t s

/-- The comparison that holds where another one does not. -/
def complement : Comparison → Comparison
  | equal => unequal
  | unequal => equal
  | greater => lessEqual
  | less => greaterEqual
  | greaterEqual => less
  | lessEqual => greater

end Comparison

/-- A text is before another one exactly if it is less than it. -/
theorem Text.before_iff_lt {s t : String} : Before s t ↔ s < t := by
  have hmono : ∀ c d : Char, c < d → c.toNat < d.toNat := fun _ _ h => h
  rw [Before, List.lex_lt, String.lt_iff_toList_lt]
  refine ⟨fun h => ?_, List.map_lt hmono⟩
  rcases lt_trichotomy s.toList t.toList with hlt | heq | hgt
  · exact hlt
  · rw [heq] at h
    exact absurd h (lt_irrefl _)
  · exact absurd h (List.map_lt hmono hgt).asymm

/-- Of two texts one is before the other, or they are the same. -/
theorem Text.before_trichotomy (s t : String) :
    Before s t ∧ s ≠ t ∧ ¬Before t s ∨ s = t ∧ ¬Before s t ∧ ¬Before t s ∨
      Before t s ∧ s ≠ t ∧ ¬Before s t := by
  simp only [before_iff_lt]
  rcases lt_trichotomy s t with h | rfl | h
  · exact .inl ⟨h, h.ne, h.asymm⟩
  · exact .inr (.inl ⟨rfl, lt_irrefl s, lt_irrefl s⟩)
  · exact .inr (.inr ⟨h, h.ne', h.asymm⟩)

theorem Comparison.ofTexts_iff (c : Comparison) (s t : String) :
    c.ofTexts s t = true ↔ c.Holds s t := by
  cases c <;> simp [ofTexts, Holds, Text.before_iff_lt]

theorem Comparison.holds_complement (c : Comparison) (s t : String) :
    c.complement.Holds s t ↔ ¬c.Holds s t := by
  cases c <;> simp [complement, Holds]

/-! ## Applying an operator -/

namespace Operator

/-- Whether the operator works on a text on the left as a text. -/
def onTexts : Operator → Bool
  | arithmetic .add | comparison _ => true
  | arithmetic _ => false

/-- The operator gives a value for two others. -/
inductive Yields : Operator → Value → Value → Value → Prop
  | joined {s t : String} {r : Value} :
      r.toText = .ok t → Yields (arithmetic .add) (.text s) r (.text (s ++ t))
  | compared {c : Comparison} {s t : String} {r : Value} :
      r.toText = .ok t → Yields (comparison c) (.text s) r (.ofBool (c.ofTexts s t))
  | computed {op : Operator} {l r : Value} {x y : Float} :
      (l.kind = .string → op.onTexts = false) → l.toDouble = .ok x → r.toDouble = .ok y →
      Yields op l r (op.onDoubles x y)

/-- The operator is not for two values. -/
inductive Mismatched : Operator → Value → Value → Prop
  | noOperator {op : Operator} {l r : Value} : l.kind.hasText = false → Mismatched op l r
  | noDouble {op : Operator} {l r : Value} :
      l.kind = .double ∨ l.kind = .null → ¬r.HasDouble → Mismatched op l r
  | noText {op : Operator} {s : String} {r : Value} :
      op.onTexts = true → r.kind.hasText = false → Mismatched op (.text s) r
  | notNumeric {op : Operator} {s : String} {r : Value} :
      op.onTexts = false → ¬(Value.text s).HasDouble ∨ ¬r.HasDouble → Mismatched op (.text s) r

section
variable {op : Operator} {l r : Value}

/-- A number or null on the left is a mismatch only for what is on the right. -/
theorem mismatched_iff_of_numeric (hl : l.kind = .double ∨ l.kind = .null) :
    op.Mismatched l r ↔ ¬r.HasDouble := by
  refine ⟨?_, .noDouble hl⟩
  rintro (h | ⟨-, h⟩ | _ | _)
  · rcases hl with hl | hl <;> rw [hl] at h <;> cases h
  · exact h
  · rcases hl with hl | hl <;> cases hl
  · rcases hl with hl | hl <;> cases hl

theorem mismatched_text_iff {s : String} :
    op.Mismatched (.text s) r ↔
      if op.onTexts then r.kind.hasText = false else ¬(Value.text s).HasDouble ∨ ¬r.HasDouble := by
  constructor
  · rintro (h | ⟨h | h, -⟩ | ⟨hop, h⟩ | ⟨hop, h⟩)
    · cases h
    · cases h
    · cases h
    · rwa [if_pos hop]
    · rwa [hop, if_neg Bool.false_ne_true]
  · split
    · exact .noText ‹_›
    · rename_i hop
      exact .notNumeric (Bool.eq_false_iff.2 hop)

/-- A text on the left is a number for the operators that do not work on texts. -/
theorem apply_text_of_not_onTexts {s : String} (h : op.onTexts = false) :
    op.apply (.text s) r = op.numeric (.text s) r := by
  cases op with
  | comparison c => cases h
  | arithmetic a =>
    cases a with
    | add => cases h
    | _ => rfl

/-- An operator on numbers comes to a value, or one of the operands has no number. -/
theorem numeric_cases (op : Operator) (l r : Value) :
    (l.HasDouble ∧ r.HasDouble ∧ ∃ x y, l.toDouble = .ok x ∧ r.toDouble = .ok y ∧
      op.numeric l r = .ok (op.onDoubles x y)) ∨
    (¬l.HasDouble ∨ ¬r.HasDouble) ∧ ∃ m, op.numeric l r = .error (.mismatch m) := by
  unfold numeric
  obtain ⟨hl, x, hx⟩ | ⟨hl, m, hm⟩ := l.toDouble_cases
  · obtain ⟨hr, y, hy⟩ | ⟨hr, m, hm⟩ := r.toDouble_cases
    · exact .inl ⟨hl, hr, x, y, hx, hy, by rw [hx, hy]; rfl⟩
    · exact .inr ⟨.inr hr, m, by rw [hx, hm]; rfl⟩
  · exact .inr ⟨.inl hl, m, by rw [hm]; rfl⟩

/-- The operator comes to a value that it yields, or the operands are a mismatch, and not both. -/
def Decided (op : Operator) (l r : Value) : Prop :=
  (∃ v, op.apply l r = .ok v ∧ op.Yields l r v ∧ ¬op.Mismatched l r) ∨
    (∃ m, op.apply l r = .error (.mismatch m)) ∧ op.Mismatched l r

theorem decided_of_numeric (h : op.apply l r = op.numeric l r)
    (hs : l.kind = .string → op.onTexts = false)
    (hm : op.Mismatched l r ↔ ¬l.HasDouble ∨ ¬r.HasDouble) : op.Decided l r := by
  rw [Decided, h, hm]
  obtain ⟨hl, hr, x, y, hx, hy, hv⟩ | ⟨hn, he⟩ := numeric_cases op l r
  · exact .inl ⟨_, hv, .computed hs hx hy, fun hn => hn.elim (· hl) (· hr)⟩
  · exact .inr ⟨he, hn⟩

theorem decided_of_text {s : String} {f : String → Value}
    (h : op.apply (.text s) r = do return f (← r.toText)) (hop : op.onTexts = true)
    (hy : ∀ t, r.toText = .ok t → op.Yields (.text s) r (f t)) : op.Decided (.text s) r := by
  rw [Decided, h, mismatched_text_iff, if_pos hop]
  obtain ⟨hr, t, ht⟩ | ⟨hr, m, hm⟩ := r.toText_cases
  · exact .inl ⟨f t, by rw [ht]; rfl, hy t ht, by simp [hr]⟩
  · exact .inr ⟨⟨m, by rw [hm]; rfl⟩, hr⟩

end

/-- The left operand decides what the right one is taken for. -/
theorem decided (op : Operator) (l r : Value) : op.Decided l r := by
  cases l with
  | array _ | dictionary _ | function _ _ | builtin _ => exact .inr ⟨⟨_, rfl⟩, .noOperator rfl⟩
  | number x =>
    refine decided_of_numeric rfl nofun ((mismatched_iff_of_numeric (.inl rfl)).trans ?_)
    simp [Value.HasDouble.number]
  | null =>
    refine decided_of_numeric rfl nofun ((mismatched_iff_of_numeric (.inr rfl)).trans ?_)
    simp [Value.HasDouble.null]
  | text s =>
    cases hop : op.onTexts with
    | false =>
      refine decided_of_numeric (apply_text_of_not_onTexts hop) (fun _ => hop) ?_
      rw [mismatched_text_iff, hop]
      exact Iff.rfl
    | true =>
      cases op with
      | comparison c => exact decided_of_text rfl rfl fun t => .compared
      | arithmetic a =>
        cases a with
        | add => exact decided_of_text rfl rfl fun t => .joined
        | _ => cases hop

/-- What a result is: a text for a text on the left of a sum, zero or one for a comparison, and a
number for everything else. -/
def Result : Operator → Value → Value → Value → Prop
  | arithmetic .add, .text s, r, v => ∃ t, r.toText = .ok t ∧ v = .text (s ++ t)
  | arithmetic _, _, _, v => ∃ x, v = .number x
  | comparison _, _, _, v => v = .number 0 ∨ v = .number 1

theorem ofBool_cases (b : Bool) : Value.ofBool b = .number 0 ∨ Value.ofBool b = .number 1 := by
  cases b
  · exact .inl rfl
  · exact .inr rfl

theorem Yields.result {op : Operator} {l r v : Value} (h : op.Yields l r v) : op.Result l r v := by
  cases h with
  | joined ht => exact ⟨_, ht, rfl⟩
  | compared => exact ofBool_cases _
  | computed hs hx hy =>
    unfold Result
    split
    · cases hs rfl
    · exact ⟨_, rfl⟩
    · exact ofBool_cases _

theorem ofBool_eq_iff (b : Bool) :
    (Value.ofBool b = .number 1 ↔ b = true) ∧ (Value.ofBool b = .number 0 ↔ b = false) := by
  have h : (1 : Float) ≠ 0 := by decide
  cases b <;> simp [Value.ofBool, h, h.symm]

/-- A comparison of a text with the text of a value gives one if it holds, else zero. -/
theorem apply_comparison_text {r : Value} {t : String} (h : r.toText = .ok t) (c : Comparison)
    (s : String) :
    ((comparison c).apply (.text s) r = .ok (.number 1) ↔ c.Holds s t) ∧
      ((comparison c).apply (.text s) r = .ok (.number 0) ↔ ¬c.Holds s t) := by
  have ha : (comparison c).apply (.text s) r = .ok (.ofBool (c.ofTexts s t)) := by
    have hr : (comparison c).apply (.text s) r =
      (do return .ofBool (c.ofTexts s (← r.toText))) := rfl
    rw [hr, h]
    rfl
  obtain ⟨h1, h0⟩ := ofBool_eq_iff (c.ofTexts s t)
  rw [ha, Except.ok.injEq, Except.ok.injEq, h1, h0, ← c.ofTexts_iff, Bool.not_eq_true]
  exact ⟨Iff.rfl, Iff.rfl⟩

end Operator

/-- Of the three comparisons exactly one holds of two texts. -/
theorem Comparison.existsUnique_holds (s t : String) :
    ∃! c, c ∈ [less, equal, greater] ∧ c.Holds s t := by
  have unique {c : Comparison} (hc : c ∈ [less, equal, greater]) (h : c.Holds s t)
      (hn : ∀ d ∈ [less, equal, greater], d ≠ c → ¬d.Holds s t) :
      ∃! c, c ∈ [less, equal, greater] ∧ c.Holds s t :=
    ⟨c, ⟨hc, h⟩, fun d hd => by_contra fun hne => hn d hd.1 hne hd.2⟩
  obtain ⟨hl, he, hg⟩ | ⟨he, hl, hg⟩ | ⟨hg, he, hl⟩ := Text.before_trichotomy s t
  · exact unique (c := less) (by simp) hl (by simp [Holds, he, hg])
  · exact unique (c := equal) (by simp) he (by simp [Holds, hl, hg])
  · exact unique (c := greater) (by simp) hg (by simp [Holds, he, hl])

/-- Operators on values. The operands are a mismatch in four cases: the left one has no operators;
the left one is a number or null and the right one has no number; the left one is a text, the
operator works on texts, and the right one has no text; or the left one is a text, the operator
works on numbers, and one of the two has no number. Then the operator fails with a mismatch, and in
every other case it gives a result: a joined text, zero or one, or a number. The comparisons of a
text with the text of a value are those of the code points. Just one of less, equal and greater
gives one, and each comparison gives one where its complement gives zero. -/
theorem operators_on_values :
    (∀ (op : Operator) (l r : Value), op.Mismatched l r →
      ∃ m, op.apply l r = .error (.mismatch m)) ∧
    (∀ (op : Operator) (l r : Value), ¬op.Mismatched l r →
      ∃ v, op.apply l r = .ok v ∧ op.Result l r v) ∧
    ∀ (s t : String) (r : Value), r.toText = .ok t →
      let gives (c : Comparison) (x : Float) : Prop :=
        (Operator.comparison c).apply (.text s) r = .ok (.number x)
      (∀ c, gives c 1 ↔ c.Holds s t) ∧
      (∃! c, c ∈ [.less, .equal, .greater] ∧ gives c 1) ∧
      ∀ c, gives c.complement 1 ↔ gives c 0 := by
  refine ⟨fun op l r h => ?_, fun op l r h => ?_, fun s t r ht => ?_⟩
  · obtain ⟨v, -, -, hn⟩ | ⟨he, -⟩ := op.decided l r
    · exact absurd h hn
    · exact he
  · obtain ⟨v, hv, hy, -⟩ | ⟨-, hm⟩ := op.decided l r
    · exact ⟨v, hv, hy.result⟩
    · exact absurd hm h
  · intro gives
    have hone (c : Comparison) : gives c 1 ↔ c.Holds s t :=
      (Operator.apply_comparison_text ht c s).1
    refine ⟨hone, ?_, fun c => ?_⟩
    · simp only [hone]
      exact Comparison.existsUnique_holds s t
    · rw [hone, c.holds_complement]
      exact (Operator.apply_comparison_text ht c s).2.symm

/-- A text is compared as a text, even if it is a number. -/
theorem operators_on_values_ten :
    (Value.number 9).toText = .ok "9" ∧ Text.Before "10" "9" ∧
      (Operator.comparison .less).apply (.text "10") (.number 9) = .ok (.number 1) ∧
      ∃ m, (Operator.arithmetic .subtract).apply (.text "10") (.array 0) =
        .error (.mismatch m) := by
  have ht : (Value.number 9).toText = .ok "9" := by
    have hd : Double.display 9 = "9" := by decide +kernel
    rw [Value.toText, hd]
  have hb : Text.Before "10" "9" := Text.before_iff_lt.2 (by decide)
  exact ⟨ht, hb, ((operators_on_values.2.2 "10" "9" (.number 9) ht).1 .less).2 hb,
    operators_on_values.1 _ _ _ (.notNumeric rfl (.inr nofun))⟩

end Scriptlet
