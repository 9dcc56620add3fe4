import Scriptlet.Proofs.Lookahead
import Scriptlet.Proofs.Raised
import Scriptlet.Proofs.Rejected

/-!
# Parsing comes to its end

Two bounds make the parser a total function, and neither cuts anything off. The tokens bound how
often a level repeats, but every repetition reads a token, so the loop without that bound
(`Repeats`) comes to the same. The limit bounds how deeply brackets nest, and nothing but the
brackets that are open at once counts against it.

* `Advances.expression`: a parser that comes to a tree has read a token.
* `whole_eq_of_nesting_lt`: limits that the brackets of a script stay below are all one.
* `parsing_ends`: both bounds, and where a script that is accepted has been read to.
-/

namespace Scriptlet

namespace Parse

/-! ## Progress -/

/-- Wherever the parser comes to a tree it has read at least one token. -/
def Advances (f : Step) : Prop :=
  ∀ ⦃opens : List Opener⦄ ⦃ts : List Token⦄ ⦃e : Expr⦄ ⦃rest : List Token⦄,
    f opens ts = .ok (e, rest) → ∃ t read, ts = t :: read ++ rest

theorem Sound.advances {p : Phrase} {f : Step} (h : Sound p f) : Advances f := by
  intro opens ts e rest hf
  obtain ⟨read, rfl, hd⟩ := h hf
  obtain ⟨t, us, rfl, -, -⟩ := hd.first
  exact ⟨t, us, rfl⟩

section
variable {inner : Step} (hi : Sound (.binary BinaryOp.levels) inner)
include hi

theorem Advances.enclosed (o : Opener) : Advances (Parse.enclosed inner o) := by
  intro opens ts e rest h
  obtain ⟨read, c, rfl, -, -⟩ := enclosed_sound hi h
  cases read with
  | nil => exact ⟨c, [], rfl⟩
  | cons t read => exact ⟨t, read ++ [c], by simp⟩

/-- Behind its opening bracket a group reads at least the closing one. -/
theorem Advances.group (o : Opener) : Advances (Parse.group inner o) := by
  intro opens ts e rest h
  unfold Parse.group at h
  split at h
  · rename_i us hc
    obtain ⟨rfl, rfl⟩ := Prod.mk.inj (Except.ok.inj h)
    split at hc
    · obtain ⟨c, rfl, -⟩ := closingSquare?_eq_some_iff.1 hc
      exact ⟨c, [], rfl⟩
    · cases hc
  · split at h
    · cases h
    · rename_i e' us he
      obtain ⟨t, read, rfl⟩ := Advances.enclosed hi o he
      obtain ⟨read', c, hread, hc, hd⟩ := enclosed_sound hi he
      have ho : (⟨.symbol (.opening o.bracket), o.start⟩ : Token).lexeme =
          .symbol (.opening o.bracket) := rfl
      obtain ⟨more, rfl, -⟩ := applied_sound hi (.group ho hd hc) h
      exact ⟨t, read ++ more, by simp⟩

end

/-- The parsers that a script is read with, for some room for brackets. -/
inductive Part : Step → Prop
  | expression (depth : Nat) : Part (expression depth)
  | binary (depth level : Nat) : Part (levels (expression depth) level)
  | unary (depth level : Nat) : Part (unary (primary (expression depth)) level)
  | primary (depth : Nat) : Part (primary (expression depth))
  | group (depth : Nat) (o : Opener) : Part (group (expression depth) o)
  | enclosed (depth : Nat) (o : Opener) : Part (enclosed (expression depth) o)

theorem levels_sound (depth level : Nat) :
    Sound (.binary level) (levels (expression depth) level) :=
  binary_sound (unary_sound (primary_sound (expression_sound depth)) UnaryOp.levels) level

theorem Part.advances {f : Step} (h : Part f) : Advances f := by
  cases h with
  | expression depth => exact (expression_sound depth).advances
  | binary depth level => exact (levels_sound depth level).advances
  | unary depth level => exact (unary_sound (primary_sound (expression_sound depth)) level).advances
  | primary depth => exact (primary_sound (expression_sound depth)).advances
  | group depth o => exact .group (expression_sound depth) o
  | enclosed depth o => exact .enclosed (expression_sound depth) o

/-! ## Loops -/

/-- What the loop of a level comes to behind a tree: as long as an operator of the level is next, it
reads it with its operand. There is no bound on how often it does. -/
inductive Repeats (level : Nat) (operand : Step) (opens : List Opener) :
    Expr → List Token → Answer Expr → Prop
  | done {left : Expr} {ts : List Token} : binaryAt? level ts = none →
      Repeats level operand opens left ts (.ok (left, ts))
  | givesUp {left : Expr} {ts rest : List Token} {op : BinaryOp} {r : Rejection} :
      binaryAt? level ts = some (op, rest) → operand opens rest = .error r →
      Repeats level operand opens left ts (.error r)
  | next {left right : Expr} {ts rest rest' : List Token} {op : BinaryOp} {a : Answer Expr} :
      binaryAt? level ts = some (op, rest) → operand opens rest = .ok (right, rest') →
      Repeats level operand opens (.binary op left right) rest' a →
      Repeats level operand opens left ts a

/-- The loop of a level does not come to the end of its bound while there is something to read. -/
theorem repeats_chain {level : Nat} {f : Step} (hf : Advances f) {opens : List Opener}
    {bound ts : List Token} (h : ts.length ≤ bound.length) (left : Expr) :
    Repeats level f opens left ts (chain level f opens bound left ts) := by
  induction bound generalizing ts left with
  | nil =>
    obtain rfl : ts = [] := List.eq_nil_of_length_eq_zero (Nat.le_zero.1 h)
    exact .done rfl
  | cons b bound ih =>
    unfold chain
    split
    · rename_i hn
      exact .done hn
    · rename_i op rest ho
      obtain ⟨t, rfl, -, -⟩ := binaryAt?_eq_some_iff.1 ho
      split
      · rename_i r hr
        exact .givesUp ho hr
      · rename_i right rest' hr
        -- the operator and its operand are two tokens at least
        obtain ⟨u, read, rfl⟩ := hf hr
        refine .next ho hr (ih ?_ _)
        simp at h
        omega

/-! ## Brackets -/

/-- A script is rejected for its brackets only if there are too many of them open at once. -/
theorem cause_ne_tooDeep_of_nesting {limit : Nat} {ts : List Token} {r : Rejection}
    (hn : nesting 0 ts < limit) (h : whole limit ts = .error r) : r.cause ≠ .tooDeep := by
  obtain ⟨_, _, _, -, -, hg⟩ := gives_of_whole hn h
  exact hg.cause_ne_tooDeep

/-- Limits that the brackets of a script stay below are all one to it. -/
theorem whole_eq_of_nesting_lt {limit limit' : Nat} {ts : List Token} (h : nesting 0 ts < limit)
    (h' : nesting 0 ts < limit') : whole limit ts = whole limit' ts := by
  have stays {l : Nat} (hl : nesting 0 ts < l) : whole l ts = whole (nesting 0 ts + 1) ts := by
    rcases whole_of_limit_le (show nesting 0 ts + 1 ≤ l from hl) ts with ⟨r, hr, hc⟩ | he
    · exact absurd hc (cause_ne_tooDeep_of_nesting (Nat.lt_succ_self _) hr)
    · exact he
  rw [stays h, stays h']

end Parse

/-- Every list of tokens is parsed to an end. The loops of the levels come to it by themselves,
since every parser that comes to a tree has read a token. So does the descent into brackets: the
answer is the same for all limits that are larger than the largest number of brackets that are open
at once, and it is not the error about nesting. A script that is accepted has been read to the last
token that is more than layout. -/
theorem parsing_ends (tokens : List Token) :
    (∀ depth level opens left ts, Parse.Repeats level (Parse.levels (Parse.expression depth) level)
        opens left ts (Parse.chain level (Parse.levels (Parse.expression depth) level) opens ts
          left ts)) ∧
      (∀ f, Parse.Part f → ∀ opens ts e rest, f opens ts = .ok (e, rest) →
        ∃ t read, ts = t :: read ++ rest) ∧
      (∀ limit e, Expr.ofTokensWithin limit tokens = .ok e →
        Parse.expression limit [] (Token.significant tokens) = .ok (e, [])) ∧
      ∀ limit, nesting 0 (Token.significant tokens) < limit →
        (∀ error, Expr.ofTokensWithin limit tokens = .error error → error.cause ≠ .tooDeep) ∧
          ∀ more, limit ≤ more →
            Expr.ofTokensWithin more tokens = Expr.ofTokensWithin limit tokens := by
  refine ⟨fun depth level opens left ts => ?_, fun f hf opens ts e rest h => hf.advances h,
    fun limit e h => ?_, fun limit hn => ⟨fun error h => ?_, fun more hm => ?_⟩⟩
  · exact Parse.repeats_chain (Parse.levels_sound depth level).advances (Nat.le_refl _) left
  · unfold Expr.ofTokensWithin at h
    split at h
    · rename_i e' hw
      obtain rfl := Except.ok.inj h
      unfold Parse.whole at hw
      split at hw
      · cases hw
      · rename_i hx
        cases hw
        exact hx
      · exact absurd hw (Parse.rejectExtra_ne_ok _ _ _ _)
    · cases h
  · unfold Expr.ofTokensWithin at h
    split at h
    · cases h
    · rename_i r hr
      obtain rfl := Except.error.inj h
      exact Parse.cause_ne_tooDeep_of_nesting hn hr
  · unfold Expr.ofTokensWithin
    rw [Parse.whole_eq_of_nesting_lt (Nat.lt_of_lt_of_le hn hm) hn]

/-- A script that is given up at a bracket of the wrong kind is given up there within every limit
from two on. -/
theorem parsing_ends_unmatched :
    let o : Token := ⟨.symbol (.opening .round), 0⟩
    let c : Token := ⟨.symbol (.closing .square), 2⟩
    let tokens := [o, ⟨.name "a", 1⟩, c, ⟨.symbol (.opening .curly), 3⟩, c, o]
    nesting 0 (Token.significant tokens) < 2 ∧
      ∀ more, 2 ≤ more → Expr.ofTokensWithin more tokens = .error ⟨.unmatched .square, some 2⟩ := by
  intro o c tokens
  have hn : nesting 0 (Token.significant tokens) < 2 := by decide
  have h : Expr.ofTokensWithin 2 tokens = .error ⟨.unmatched .square, some 2⟩ := rfl
  refine ⟨hn, fun more hm => ?_⟩
  rw [((parsing_ends tokens).2.2.2 2 hn).2 more hm, h]

end Scriptlet
