import Scriptlet.Proofs.Outcome

/-!
# Unmatched brackets

`ClosesNone opens unread`: the next token is a closing bracket, and it closes none of the open ones.
The parser keeps the open brackets only as long as it is inside of their groups, and it looks at a
closing bracket in three places; `openBrackets` reads them off the tokens that it has left behind.

* `Parse.Gives.cause_unmatched_iff`: at each of the three places a bracket is unmatched if it closes
  none of the brackets that are open there.
* `unmatched_iff_closesNone`: so a rejected script is rejected for an unmatched bracket if the token
  at which it is given up closes nothing, and as malformed otherwise. A bracket that closes an outer
  group, but not the innermost one, is not unmatched, and neither is one that is never closed.
-/

namespace Scriptlet

/-- The next token is a closing bracket, and it closes none of the open ones. -/
def ClosesNone (opens : List Opener) (unread : List Token) : Prop :=
  ∃ t rest b, unread = t :: rest ∧ t.lexeme = .symbol (.closing b) ∧ ∀ o ∈ opens, o.bracket ≠ b

namespace Parse

variable {opens : List Opener}

theorem isOpen_eq_false_iff {b : Bracket} :
    isOpen opens b = false ↔ ∀ o ∈ opens, o.bracket ≠ b := by
  simp [isOpen]

/-- A closing bracket of an open group closes that group. -/
theorem not_closesNone_of_isOpen {t : Token} {rest : List Token}
    (h : ∀ b, t.lexeme = .symbol (.closing b) → isOpen opens b = true) :
    ¬ ClosesNone opens (t :: rest) := by
  rintro ⟨u, rest', b, hu, hb, hn⟩
  obtain ⟨rfl, -⟩ := List.cons.inj hu
  have := h b hb
  rw [isOpen_eq_false_iff.2 hn] at this
  cases this

theorem not_closesNone_nil : ¬ ClosesNone opens [] := by
  rintro ⟨t, rest, b, h, -⟩
  cases h

/-- Wherever the parser gives up, it says that a bracket is unmatched if the next token closes none
of the open ones. -/
theorem Gives.cause_unmatched_iff {missing : Bool} {r : Rejection} (h : Gives opens missing r) :
    (∃ b, r.cause = .unmatched b) ↔ ClosesNone opens r.unread := by
  cases h with
  | operand | never _ => exact ⟨nofun, fun h => absurd h not_closesNone_nil⟩
  | @unmatched missing b t rest ht hopen =>
    exact ⟨fun _ => ⟨t, rest, b, rfl, ht, isOpen_eq_false_iff.1 hopen⟩, fun _ => ⟨b, rfl⟩⟩
  | unexpected ht | extra ht => exact ⟨nofun, fun h => absurd h (not_closesNone_of_isOpen ht)⟩

end Parse

/-! ## Kinds of parse errors -/

namespace ParseError

theorem kind_eq_unmatchedBracket_iff (e : ParseError) :
    e.kind = .unmatchedBracket ↔ ∃ b, e.cause = .unmatched b := by
  unfold kind
  split <;> simp_all

theorem kind_eq_malformed_iff (e : ParseError) :
    e.kind = .malformed ↔ ¬ ∃ b, e.cause = .unmatched b := by
  unfold kind
  split <;> simp_all

end ParseError

/-- A script whose brackets are not too deep and that is rejected is given up in front of some
tokens. The brackets of the tokens before these nest properly, and some of them may still be open.
The script is rejected for an unmatched bracket exactly if the next token is a closing bracket that
closes none of the open ones, and as malformed in every other case. -/
theorem unmatched_iff_closesNone {limit : Nat} {tokens : List Token} {error : ParseError}
    (hn : nesting 0 (Token.significant tokens) < limit)
    (h : Expr.ofTokensWithin limit tokens = .error error) :
    ∃ r before opens, Parse.whole limit (Token.significant tokens) = .error r ∧
      error = r.toError (Token.endOf tokens) ∧
      Token.significant tokens = before ++ r.unread ∧ openBrackets [] before = some opens ∧
      (error.kind = .unmatchedBracket ↔ ClosesNone opens r.unread) ∧
      (error.kind = .malformed ↔ ¬ ClosesNone opens r.unread) := by
  unfold Expr.ofTokensWithin at h
  split at h
  · cases h
  rename_i r hr
  obtain rfl := Except.error.inj h
  obtain ⟨before, os, missing, hts, hb, hg⟩ := Parse.gives_of_whole hn hr
  have hopen := hb.openBrackets []
  rw [List.append_nil] at hopen
  have hu : (∃ b, (r.toError (Token.endOf tokens)).cause = .unmatched b) ↔
      ClosesNone os r.unread := hg.cause_unmatched_iff
  refine ⟨r, before, os, hr, rfl, hts, hopen, ?_, ?_⟩
  · rw [ParseError.kind_eq_unmatchedBracket_iff, hu]
  · rw [ParseError.kind_eq_malformed_iff, hu]

/-- In `(a]` the square bracket closes nothing. In `[(a]` it would close the outer group, so the
script is malformed. -/
theorem unmatched_iff_closesNone_square :
    let o : Token := ⟨.symbol (.opening .square), 0⟩
    let o' : Token := ⟨.symbol (.opening .round), 1⟩
    let name : Token := ⟨.name "a", 2⟩
    let c : Token := ⟨.symbol (.closing .square), 3⟩
    (nesting 0 (Token.significant [o', name, c]) < 3 ∧
      Expr.ofTokensWithin 3 [o', name, c] = .error ⟨.unmatched .square, some 3⟩ ∧
      ClosesNone [⟨.round, 1⟩] [c]) ∧
    nesting 0 (Token.significant [o, o', name, c]) < 3 ∧
      Expr.ofTokensWithin 3 [o, o', name, c] = .error ⟨.extra "]", some 3⟩ ∧
      ¬ ClosesNone [⟨.round, 1⟩, ⟨.square, 0⟩] [c] := by
  intro o o' name c
  have hw : Parse.whole 3 (Token.significant [o', name, c]) =
    .error ⟨.unmatched .square, [c]⟩ := rfl
  have hw' : Parse.whole 3 (Token.significant [o, o', name, c]) = .error ⟨.extra "]", [c]⟩ := rfl
  have hn : nesting 0 (Token.significant [o', name, c]) < 3 := by decide
  have hn' : nesting 0 (Token.significant [o, o', name, c]) < 3 := by decide
  have he : Expr.ofTokensWithin 3 [o', name, c] = .error ⟨.unmatched .square, some 3⟩ := rfl
  have he' : Expr.ofTokensWithin 3 [o, o', name, c] = .error ⟨.extra "]", some 3⟩ := rfl
  obtain ⟨r, before, opens, hr, -, hts, hopen, hu, -⟩ := unmatched_iff_closesNone hn he
  obtain rfl := Except.error.inj (hr.symm.trans hw)
  obtain rfl : [o', name] = before := List.append_cancel_right hts
  obtain rfl : [⟨.round, 1⟩] = opens := Option.some.inj hopen
  obtain ⟨r, before, opens, hr, -, hts, hopen, -, hm⟩ := unmatched_iff_closesNone hn' he'
  obtain rfl := Except.error.inj (hr.symm.trans hw')
  obtain rfl : [o, o', name] = before := List.append_cancel_right hts
  obtain rfl : [⟨.round, 1⟩, ⟨.square, 0⟩] = opens := Option.some.inj hopen
  exact ⟨⟨hn, he, hu.1 rfl⟩, hn', he', hm.1 rfl⟩

end Scriptlet
