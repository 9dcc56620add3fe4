import Scriptlet.Proofs.Grammar

/-!
# What the parser accepts is derived

`Sound p f`: the tokens that the parser `f` reads are a phrase of the kind `p`. A chain of operators
is sound because the tokens in front of it are kept along with their tree: each operator makes one
longer phrase of the same level.
-/

namespace Scriptlet.Parse

/-- What a parser reads is a phrase of a kind. -/
def Sound (p : Phrase) (f : Step) : Prop :=
  ∀ ⦃opens : List Opener⦄ ⦃ts : List Token⦄ ⦃e : Expr⦄ ⦃rest : List Token⦄,
    f opens ts = .ok (e, rest) → ∃ read, ts = read ++ rest ∧ Derives p read e

theorem operatorAt?_eq_some_iff {α : Type} {ofSymbol? : Symbol → Option α} {symbol : α → Symbol}
    (hs : ∀ {s op}, ofSymbol? s = some op ↔ s = symbol op) {levelOf : α → Nat} {level : Nat}
    {ts rest : List Token} {op : α} :
    operatorAt? ofSymbol? levelOf level ts = some (op, rest) ↔
      ∃ t, ts = t :: rest ∧ t.lexeme = .symbol (symbol op) ∧ levelOf op = level := by
  constructor
  · intro h
    unfold operatorAt? at h
    split at h
    · cases h
    split at h
    · rename_i t us _ s ht
      split at h
      · rename_i op' ho
        split at h
        · rename_i hl
          obtain ⟨rfl, rfl⟩ := Prod.mk.inj (Option.some.inj h)
          exact ⟨t, rfl, by rw [ht, hs.1 ho], hl⟩
        · cases h
      · cases h
    · cases h
  · rintro ⟨t, rfl, ht, hl⟩
    simp only [operatorAt?, ht, hs.2 rfl, hl, if_true]

theorem binaryAt?_eq_some_iff {level : Nat} {ts rest : List Token} {op : BinaryOp} :
    binaryAt? level ts = some (op, rest) ↔
      ∃ t, ts = t :: rest ∧ t.lexeme = .symbol op.symbol ∧ op.level = level :=
  operatorAt?_eq_some_iff BinaryOp.ofSymbol?_eq_some_iff

theorem unaryAt?_eq_some_iff {level : Nat} {ts rest : List Token} {op : UnaryOp} :
    unaryAt? level ts = some (op, rest) ↔
      ∃ t, ts = t :: rest ∧ t.lexeme = .symbol op.symbol ∧ op.level = level :=
  operatorAt?_eq_some_iff UnaryOp.ofSymbol?_eq_some_iff

theorem closingSquare?_eq_some_iff {ts rest : List Token} :
    closingSquare? ts = some rest ↔
      ∃ t, ts = t :: rest ∧ t.lexeme = .symbol (.closing .square) := by
  constructor
  · intro h
    unfold closingSquare? at h
    split at h
    · cases h
    split at h
    · rename_i t us _ hs
      obtain rfl := Option.some.inj h
      exact ⟨t, rfl, hs⟩
    · cases h
  · rintro ⟨t, rfl, ht⟩
    simp only [closingSquare?, ht]

theorem rejectExtra_ne_ok {α : Type} (opens : List Opener) (t : Token) (rest : List Token) (a : α) :
    rejectExtra opens t rest ≠ .ok a := by
  unfold rejectExtra
  split
  · split <;> exact fun h => by cases h
  · exact fun h => by cases h

/-! ## Operators -/

theorem chain_sound {level : Nat} {f : Step} (hf : Sound (.binary level) f) {opens : List Opener}
    {bound : List Token} : ∀ {seen ts rest : List Token} {left e : Expr},
      Derives (.binary (level + 1)) seen left →
      chain level f opens bound left ts = .ok (e, rest) →
      ∃ read, ts = read ++ rest ∧ Derives (.binary (level + 1)) (seen ++ read) e := by
  induction bound with
  | nil =>
    intro seen ts rest left e hl h
    simp only [chain, Except.ok.injEq, Prod.mk.injEq] at h
    obtain ⟨rfl, rfl⟩ := h
    exact ⟨[], rfl, by rwa [List.append_nil]⟩
  | cons b bound ih =>
    intro seen ts rest left e hl h
    unfold chain at h
    split at h
    · obtain ⟨rfl, rfl⟩ := Prod.mk.inj (Except.ok.inj h)
      exact ⟨[], rfl, by rwa [List.append_nil]⟩
    · rename_i op us ho
      obtain ⟨t, rfl, ht, rfl⟩ := binaryAt?_eq_some_iff.1 ho
      split at h
      · cases h
      · rename_i right vs hr
        obtain ⟨rs, rfl, hd⟩ := hf hr
        obtain ⟨read, rfl, he⟩ := ih (hl.binary ht hd) h
        refine ⟨t :: rs ++ read, by simp, ?_⟩
        rwa [← List.append_assoc]

theorem binary_sound {f : Step} (hf : Sound (.unary UnaryOp.levels) f) :
    ∀ levels, Sound (.binary levels) (binary f levels)
  | 0, _, _, _, _, h => by
    obtain ⟨read, rfl, hd⟩ := hf h
    exact ⟨read, rfl, .operand hd⟩
  | level + 1, _, _, _, _, h => by
    unfold binary at h
    split at h
    · cases h
    · rename_i left us hl
      obtain ⟨first, rfl, hd⟩ := binary_sound hf level hl
      obtain ⟨read, rfl, he⟩ := chain_sound (binary_sound hf level) (.tighter hd) h
      exact ⟨first ++ read, by rw [List.append_assoc], he⟩

theorem unary_sound {f : Step} (hf : Sound .primary f) :
    ∀ levels, Sound (.unary levels) (unary f levels)
  | 0, _, _, _, _, h => by
    obtain ⟨read, rfl, hd⟩ := hf h
    exact ⟨read, rfl, .primary hd⟩
  | level + 1, _, _, _, _, h => by
    unfold unary at h
    split at h
    · obtain ⟨read, rfl, hd⟩ := unary_sound hf level h
      exact ⟨read, rfl, .without hd⟩
    · rename_i op us ho
      obtain ⟨t, rfl, ht, rfl⟩ := unaryAt?_eq_some_iff.1 ho
      split at h
      · cases h
      · rename_i e vs he
        obtain ⟨rfl, rfl⟩ := Prod.mk.inj (Except.ok.inj h)
        obtain ⟨read, rfl, hd⟩ := unary_sound hf op.level he
        exact ⟨t :: read, rfl, .unary ht hd⟩

/-! ## Operands -/

section
variable {inner : Step} (hi : Sound (.binary BinaryOp.levels) inner)
include hi

theorem enclosed_sound {o : Opener} {opens : List Opener} {ts rest : List Token} {e : Expr}
    (h : enclosed inner o opens ts = .ok (e, rest)) :
    ∃ read c, ts = read ++ c :: rest ∧ c.lexeme = .symbol (.closing o.bracket) ∧
      Derives (.binary BinaryOp.levels) read e := by
  unfold enclosed at h
  split at h
  · cases h
  · cases h
  · rename_i e' c us he
    obtain ⟨read, rfl, hd⟩ := hi he
    split at h
    · rename_i b hc
      split at h
      · rename_i hb
        obtain ⟨rfl, rfl⟩ := Prod.mk.inj (Except.ok.inj h)
        exact ⟨read, c, rfl, by rw [hc, hb], hd⟩
      · exact absurd h (rejectExtra_ne_ok _ _ _ _)
    · exact absurd h (rejectExtra_ne_ok _ _ _ _)

theorem applied_sound {opens : List Opener} {seen ts rest : List Token} {e e' : Expr}
    (hb : Derives .base seen e) (h : applied inner e opens ts = .ok (e', rest)) :
    ∃ read, ts = read ++ rest ∧ Derives .primary (seen ++ read) e' := by
  have plain : ∀ {us : List Token}, (Except.ok (e, us) : Except Rejection (Expr × List Token)) =
      .ok (e', rest) → ∃ read, us = read ++ rest ∧ Derives .primary (seen ++ read) e' := by
    intro us h
    obtain ⟨rfl, rfl⟩ := Prod.mk.inj (Except.ok.inj h)
    exact ⟨[], rfl, by rw [List.append_nil]; exact .base hb⟩
  unfold applied at h
  split at h
  · rename_i name o us
    split at h
    · rename_i ho
      split at h
      · cases h
      · rename_i a vs ha
        obtain ⟨rfl, rfl⟩ := Prod.mk.inj (Except.ok.inj h)
        obtain ⟨read, c, rfl, hc, hd⟩ := enclosed_sound hi ha
        exact ⟨o :: (read ++ [c]), by simp, .call hb ho hd hc⟩
    · rename_i ho
      split at h
      · cases h
      · rename_i a vs ha
        obtain ⟨rfl, rfl⟩ := Prod.mk.inj (Except.ok.inj h)
        obtain ⟨read, c, rfl, hc, hd⟩ := enclosed_sound hi ha
        exact ⟨o :: (read ++ [c]), by simp, .element hb ho hd hc⟩
    · exact plain h
  · exact plain h

theorem group_sound {b : Bracket} {o : Token} {opens : List Opener} {ts rest : List Token}
    {e : Expr} (ho : o.lexeme = .symbol (.opening b))
    (h : group inner ⟨b, o.start⟩ opens ts = .ok (e, rest)) :
    ∃ read, ts = read ++ rest ∧ Derives .primary (o :: read) e := by
  unfold group at h
  split at h
  · rename_i us hs
    obtain ⟨rfl, rfl⟩ := Prod.mk.inj (Except.ok.inj h)
    split at hs
    · rename_i hb
      obtain ⟨c, rfl, hc⟩ := closingSquare?_eq_some_iff.1 hs
      exact ⟨[c], rfl, .emptyArray (by rw [ho]; exact congrArg _ (congrArg _ hb)) hc⟩
    · cases hs
  · split at h
    · cases h
    · rename_i e' us he
      obtain ⟨read, c, rfl, hc, hd⟩ := enclosed_sound hi he
      obtain ⟨more, rfl, hm⟩ := applied_sound hi (.group ho hd hc) h
      refine ⟨read ++ [c] ++ more, by simp, ?_⟩
      simpa using hm

theorem primary_sound : Sound .primary (primary inner) := by
  intro opens ts e rest h
  unfold primary at h
  split at h
  · cases h
  · rename_i t us
    split at h
    · rename_i ht
      obtain ⟨rfl, rfl⟩ := Prod.mk.inj (Except.ok.inj h)
      exact ⟨[t], rfl, .number ht⟩
    · rename_i ht
      obtain ⟨rfl, rfl⟩ := Prod.mk.inj (Except.ok.inj h)
      exact ⟨[t], rfl, .string ht⟩
    · rename_i ht
      obtain ⟨read, rfl, hd⟩ := applied_sound hi (.name ht) h
      exact ⟨t :: read, rfl, hd⟩
    · rename_i ht
      obtain ⟨read, rfl, hd⟩ := group_sound hi ht h
      exact ⟨t :: read, rfl, hd⟩
    · split at h <;> cases h
    · rename_i ht
      split at h
      · rename_i hr
        obtain ⟨rfl, rfl⟩ := Prod.mk.inj (Except.ok.inj h)
        exact ⟨[t], rfl, .root (by rw [ht, Root.ofSymbol?_eq_some_iff.1 hr])⟩
      · cases h
    · cases h

end

theorem expression_sound : ∀ depth, Sound (.binary BinaryOp.levels) (expression depth)
  | 0, _, _, _, _, h => by cases h
  | depth + 1, _, _, _, _, h =>
    binary_sound (unary_sound (primary_sound (expression_sound depth)) UnaryOp.levels)
      BinaryOp.levels h

/-- A script that is accepted is derived. -/
theorem derives_of_whole {limit : Nat} {ts : List Token} {e : Expr} (h : whole limit ts = .ok e) :
    Derives (.binary BinaryOp.levels) ts e := by
  unfold whole at h
  split at h
  · cases h
  · rename_i e' he
    obtain rfl := Except.ok.inj h
    obtain ⟨read, rfl, hd⟩ := expression_sound limit he
    rwa [List.append_nil]
  · exact absurd h (rejectExtra_ne_ok _ _ _ _)

end Scriptlet.Parse
