import Scriptlet.Parse

/-!
# The grammar of scripts

`Derives p ts e`: the tokens `ts` are a phrase of the kind `p` with the tree `e`. The grammar says
nothing about how tokens are read: a binary phrase is split at any operator of its level, with a
phrase of the same level on the left and one of the next tighter level on the right.

* `Derives.first`: what the first token of a phrase can be.
* `Derives.nesting_append`: the brackets of a phrase are balanced, so what follows it nests as if it
  stood alone.
-/

namespace Scriptlet

/-- The kinds of phrases. -/
inductive Phrase where
  /-- Operands joined by binary operators, as many of the levels as given. -/
  | binary (levels : Nat)
  /-- An operand behind unary operators, as many of the levels as given. -/
  | unary (levels : Nat)
  | primary
  /-- A name or a bracket group. -/
  | base

/-- The tokens are a phrase of a kind, and the tree is its tree. -/
inductive Derives : Phrase → List Token → Expr → Prop
  | operand {ts : List Token} {e : Expr} :
      Derives (.unary UnaryOp.levels) ts e → Derives (.binary 0) ts e
  | tighter {level : Nat} {ts : List Token} {e : Expr} :
      Derives (.binary level) ts e → Derives (.binary (level + 1)) ts e
  | binary {op : BinaryOp} {t : Token} {ls rs : List Token} {l r : Expr} :
      Derives (.binary (op.level + 1)) ls l → t.lexeme = .symbol op.symbol →
      Derives (.binary op.level) rs r →
      Derives (.binary (op.level + 1)) (ls ++ t :: rs) (.binary op l r)
  | primary {ts : List Token} {e : Expr} : Derives .primary ts e → Derives (.unary 0) ts e
  | without {level : Nat} {ts : List Token} {e : Expr} :
      Derives (.unary level) ts e → Derives (.unary (level + 1)) ts e
  | unary {op : UnaryOp} {t : Token} {ts : List Token} {e : Expr} :
      t.lexeme = .symbol op.symbol → Derives (.unary op.level) ts e →
      Derives (.unary (op.level + 1)) (t :: ts) (.unary op e)
  | number {t : Token} {text : String} {x : Float} :
      t.lexeme = .number text x → Derives .primary [t] (.number x)
  | string {t : Token} {text value : String} :
      t.lexeme = .string text value → Derives .primary [t] (.text value)
  | root {t : Token} {r : Root} : t.lexeme = .symbol r.symbol → Derives .primary [t] (.root r)
  | emptyArray {o c : Token} :
      o.lexeme = .symbol (.opening .square) → c.lexeme = .symbol (.closing .square) →
      Derives .primary [o, c] (.root .emptyArray)
  | base {ts : List Token} {e : Expr} : Derives .base ts e → Derives .primary ts e
  | call {o c : Token} {fs ts : List Token} {name : String} {e : Expr} :
      Derives .base fs (.ident name) → o.lexeme = .symbol (.opening .round) →
      Derives (.binary BinaryOp.levels) ts e → c.lexeme = .symbol (.closing .round) →
      Derives .primary (fs ++ o :: (ts ++ [c])) (.call name e)
  | element {o c : Token} {fs ts : List Token} {name : String} {e : Expr} :
      Derives .base fs (.ident name) → o.lexeme = .symbol (.opening .square) →
      Derives (.binary BinaryOp.levels) ts e → c.lexeme = .symbol (.closing .square) →
      Derives .primary (fs ++ o :: (ts ++ [c])) (.element name e)
  | name {t : Token} {name : String} : t.lexeme = .name name → Derives .base [t] (.ident name)
  | group {b : Bracket} {o c : Token} {ts : List Token} {e : Expr} :
      o.lexeme = .symbol (.opening b) → Derives (.binary BinaryOp.levels) ts e →
      c.lexeme = .symbol (.closing b) → Derives .base (o :: (ts ++ [c])) e

theorem Derives.unary_of_primary {ts : List Token} {e : Expr} (h : Derives .primary ts e) :
    ∀ levels, Derives (.unary levels) ts e
  | 0 => .primary h
  | level + 1 => .without (unary_of_primary h level)

theorem Derives.binary_of_primary {ts : List Token} {e : Expr} (h : Derives .primary ts e) :
    ∀ levels, Derives (.binary levels) ts e
  | 0 => .operand (unary_of_primary h UnaryOp.levels)
  | level + 1 => .tighter (binary_of_primary h level)

/-! ## The first token -/

/-- The levels of unary operators that a phrase may start with. -/
def Phrase.unaryLevels : Phrase → Nat
  | binary _ => UnaryOp.levels
  | unary levels => levels
  | primary => 0
  | base => 0

/-- No phrase is empty. None starts with a closing bracket, or with a unary operator of a level that
it does not have. -/
theorem Derives.first {p : Phrase} {ts : List Token} {e : Expr} (h : Derives p ts e) :
    ∃ t rest, ts = t :: rest ∧ (∀ b, t.lexeme ≠ .symbol (.closing b)) ∧
      ∀ op : UnaryOp, t.lexeme = .symbol op.symbol → op.level < p.unaryLevels := by
  induction h with
  | operand _ ih => exact ih
  | tighter _ ih => exact ih
  | binary _ _ _ ih _ =>
    obtain ⟨t, rest, rfl, hb, ho⟩ := ih
    exact ⟨t, _, rfl, hb, ho⟩
  | primary _ ih => exact ih
  | without _ ih =>
    obtain ⟨t, rest, rfl, hb, ho⟩ := ih
    exact ⟨t, rest, rfl, hb, fun op h => Nat.lt_succ_of_lt (ho op h)⟩
  | @unary op t ts e ht _ _ =>
    refine ⟨t, ts, rfl, by simp [ht, op.symbol_ne_closing], fun op' ho => ?_⟩
    rw [ht, Lexeme.symbol.injEq] at ho
    rw [← UnaryOp.symbol_injective ho]
    exact Nat.lt_succ_self _
  | number ht | string ht | name ht =>
    exact ⟨_, [], rfl, by simp [ht], by simp [ht]⟩
  | @root t r ht =>
    exact ⟨t, [], rfl, by simp [ht, r.symbol_ne_closing], by simp [ht, r.symbol_ne_unary]⟩
  | emptyArray ho _ =>
    exact ⟨_, _, rfl, by simp [ho], fun op h =>
      absurd (Lexeme.symbol.inj (ho.symm.trans h)).symm (op.symbol_ne_opening _)⟩
  | base _ ih => exact ih
  | call _ _ _ _ ih _ | element _ _ _ _ ih _ =>
    obtain ⟨t, rest, rfl, hb, ho⟩ := ih
    exact ⟨t, _, rfl, hb, ho⟩
  | group ho _ _ _ =>
    exact ⟨_, _, rfl, by simp [ho], fun op h =>
      absurd (Lexeme.symbol.inj (ho.symm.trans h)).symm (op.symbol_ne_opening _)⟩

/-! ## Brackets -/

/-- The number of open brackets behind a token, from the number before it. -/
def Token.openBehind (opened : Nat) (t : Token) : Nat :=
  match t.lexeme with
  | .symbol (.opening _) => opened + 1
  | .symbol (.closing _) => opened - 1
  | _ => opened

/-- The largest number of brackets that are open at once, from the number of those that are open
before the tokens. -/
def nesting (opened : Nat) : List Token → Nat
  | [] => opened
  | t :: ts => max opened (nesting (t.openBehind opened) ts)

theorem le_nesting (opened : Nat) (ts : List Token) : opened ≤ nesting opened ts := by
  cases ts with
  | nil => exact Nat.le_refl opened
  | cons t ts => exact Nat.le_max_left _ _

theorem nesting_cons_of_opening {t : Token} {b : Bracket} (h : t.lexeme = .symbol (.opening b))
    (opened : Nat) (ts : List Token) : nesting opened (t :: ts) = nesting (opened + 1) ts := by
  have := le_nesting (opened + 1) ts
  rw [nesting, Token.openBehind, h]
  dsimp only
  omega

theorem nesting_cons_of_closing {t : Token} {b : Bracket} (h : t.lexeme = .symbol (.closing b))
    (opened : Nat) (ts : List Token) :
    nesting (opened + 1) (t :: ts) = max (opened + 1) (nesting opened ts) := by
  rw [nesting, Token.openBehind, h]
  rfl

theorem nesting_cons {t : Token} (ho : ∀ b, t.lexeme ≠ .symbol (.opening b))
    (hc : ∀ b, t.lexeme ≠ .symbol (.closing b)) (opened : Nat) (ts : List Token) :
    nesting opened (t :: ts) = nesting opened ts := by
  have := le_nesting opened ts
  have ht : t.openBehind opened = opened := by
    unfold Token.openBehind
    split
    · exact absurd (by assumption) (ho _)
    · exact absurd (by assumption) (hc _)
    · rfl
  rw [nesting, ht]
  omega

theorem nesting_cons_of_symbol {t : Token} {s : Symbol} (h : t.lexeme = .symbol s)
    (ho : ∀ b, s ≠ .opening b) (hc : ∀ b, s ≠ .closing b) (opened : Nat) (ts : List Token) :
    nesting opened (t :: ts) = nesting opened ts :=
  nesting_cons (by simpa [h] using ho) (by simpa [h] using hc) opened ts

theorem nesting_le_append (n : Nat) (ts us : List Token) : nesting n ts ≤ nesting n (ts ++ us) := by
  induction ts generalizing n with
  | nil => exact le_nesting n us
  | cons t ts ih =>
    have := ih (t.openBehind n)
    rw [List.cons_append, nesting, nesting]
    omega

/-- Tokens without an opening bracket nest no deeper than what is in front of them. -/
theorem nesting_append_of_ne_opening {us : List Token}
    (h : ∀ t ∈ us, ∀ b, t.lexeme ≠ .symbol (.opening b)) (n : Nat) (ts : List Token) :
    nesting n (ts ++ us) = nesting n ts := by
  have hus (n : Nat) : nesting n us = n := by
    induction us generalizing n with
    | nil => rfl
    | cons t us ih =>
      have ht : t.openBehind n ≤ n := by
        unfold Token.openBehind
        split
        · exact absurd (by assumption) (h t List.mem_cons_self _)
        · exact Nat.sub_le n 1
        · exact Nat.le_refl n
      rw [nesting, ih fun u hu => h u (List.mem_cons_of_mem t hu)]
      exact Nat.max_eq_left ht
  induction ts generalizing n with
  | nil => exact hus n
  | cons t ts ih => rw [List.cons_append, nesting, nesting, ih]

theorem nesting_singleton_append {t : Token} {opened : Nat}
    (h : ∀ ts, nesting opened (t :: ts) = nesting opened ts) (ts : List Token) :
    nesting opened ([t] ++ ts) = max (nesting opened [t]) (nesting opened ts) := by
  have := le_nesting opened ts
  rw [List.singleton_append, h, h, nesting]
  omega

theorem nesting_bracketed {b b' : Bracket} {o c : Token} {ts : List Token}
    (ho : o.lexeme = .symbol (.opening b)) (hc : c.lexeme = .symbol (.closing b'))
    (h : ∀ n rest, nesting n (ts ++ rest) = max (nesting n ts) (nesting n rest))
    (opened : Nat) (rest : List Token) :
    nesting opened (o :: (ts ++ [c]) ++ rest) =
      max (nesting (opened + 1) ts) (nesting opened rest) := by
  have := le_nesting (opened + 1) ts
  rw [List.cons_append, List.append_assoc, nesting_cons_of_opening ho, h, List.singleton_append,
    nesting_cons_of_closing hc]
  omega

/-- What follows a phrase nests as if the phrase were not there. -/
theorem Derives.nesting_append {p : Phrase} {ts : List Token} {e : Expr} (h : Derives p ts e)
    (opened : Nat) (rest : List Token) :
    nesting opened (ts ++ rest) = max (nesting opened ts) (nesting opened rest) := by
  induction h generalizing opened rest with
  | operand _ ih | tighter _ ih | primary _ ih | without _ ih | base _ ih => exact ih opened rest
  | @binary op t ls rs l r _ ht _ ihl ihr =>
    have hs := nesting_cons_of_symbol ht op.symbol_ne_opening op.symbol_ne_closing opened
    rw [List.append_assoc, ihl, ihl, List.cons_append, hs, hs, ihr, Nat.max_assoc]
  | @unary op t ts e ht _ ih =>
    have hs := nesting_cons_of_symbol ht op.symbol_ne_opening op.symbol_ne_closing opened
    rw [List.cons_append, hs, hs, ih]
  | number ht | string ht | name ht =>
    exact nesting_singleton_append (nesting_cons (by simp [ht]) (by simp [ht]) opened) rest
  | @root t r ht =>
    have hs := nesting_cons_of_symbol ht r.symbol_ne_opening r.symbol_ne_closing opened
    exact nesting_singleton_append hs rest
  | emptyArray ho hc =>
    have nil (n : Nat) (us : List Token) :
        nesting n ([] ++ us) = max (nesting n []) (nesting n us) :=
      (Nat.max_eq_right (le_nesting n us)).symm
    have h0 := nesting_bracketed ho hc nil opened []
    have h1 := nesting_bracketed ho hc nil opened rest
    simp only [List.nil_append, List.append_nil, List.cons_append, nesting] at h0 h1 ⊢
    omega
  | @call o c fs ts name e _ ho _ hc ihf iht | @element o c fs ts name e _ ho _ hc ihf iht =>
    have h0 := nesting_bracketed ho hc iht opened []
    have h1 := nesting_bracketed ho hc iht opened rest
    rw [List.append_nil] at h0
    rw [List.append_assoc, ihf, ihf, h0, h1, nesting]
    have := le_nesting (opened + 1) ts
    omega
  | @group b o c ts e ho _ hc ih =>
    have h0 := nesting_bracketed ho hc ih opened []
    have h1 := nesting_bracketed ho hc ih opened rest
    rw [List.append_nil] at h0
    rw [h0, h1, nesting]
    have := le_nesting (opened + 1) ts
    omega

end Scriptlet
