import Scriptlet.Proofs.Lookahead
import Scriptlet.Proofs.Raised
import Scriptlet.Proofs.Rejected

/-!
# The first impossible token

The tokens that are read before a parse gives up are the beginning of a script, and a beginning of a
script can be completed (`Begins.startsScript`). With the next token nothing can be completed, as
the parser gives up in the same way whatever follows (`not_startsScript_of_whole`).

* `first_impossible_token`: both at once, and where the error is placed: at this token. At the end of
  the tokens it is placed at the innermost open bracket if an operand stands there, and at the end if
  none does.
-/

namespace Scriptlet

namespace Parse

/-- What is given up for another reason than too deep brackets is given up within any limit. -/
theorem whole_error_of_limit {limit : Nat} {ts : List Token} {r : Rejection}
    (h : whole limit ts = .error r) (hr : r.cause ≠ .tooDeep) (other : Nat) :
    ∃ r', whole other ts = .error r' := by
  rcases Nat.le_total limit other with hle | hle
  · rcases whole_of_limit_le hle ts with ⟨r', hr', hc⟩ | he
    · rw [h] at hr'
      obtain rfl := Except.error.inj hr'
      exact absurd hc hr
    · exact ⟨r, he.trans h⟩
  · rcases whole_of_limit_le hle ts with ⟨r', hr', -⟩ | he
    · exact ⟨r', hr'⟩
    · exact ⟨r, he.symm.trans h⟩

end Parse

/-- Some tokens that make up a script within a limit start with these, layout left out. -/
def StartsScript (limit : Nat) (ts : List Token) : Prop :=
  ∃ tokens e, ts <+: Token.significant tokens ∧ Expr.ofTokensWithin limit tokens = .ok e

theorem Begins.startsScript {limit : Nat} {os : List Opener} {missing : Bool} {ts : List Token}
    (h : Begins (.binary BinaryOp.levels) os missing ts) (hn : nesting 0 ts < limit)
    (hts : ∀ t ∈ ts, t.lexeme.isSignificant = true) : StartsScript limit ts := by
  obtain ⟨e, he⟩ := h.completed
  have hs : Token.significant (ts ++ completion os missing) = ts ++ completion os missing := by
    refine List.filter_eq_self.2 fun t ht => ?_
    rcases List.mem_append.1 ht with ht | ht
    · exact hts t ht
    · exact isSignificant_of_mem_completion ht
  refine ⟨ts ++ completion os missing, e, by rw [hs]; exact List.prefix_append .., ?_⟩
  unfold Expr.ofTokensWithin
  rw [hs, Parse.whole_of_derives he]
  rwa [nesting_append_of_ne_opening fun t ht => ne_opening_of_mem_completion ht]

/-- No script goes on with the token that another one is given up at. -/
theorem not_startsScript_of_whole {limit : Nat} {before rest : List Token} {t : Token}
    {cause : Rejection.Cause}
    (h : Parse.whole limit (before ++ t :: rest) = .error ⟨cause, t :: rest⟩)
    (hc : cause ≠ .tooDeep) (other : Nat) : ¬ StartsScript other (before ++ [t]) := by
  rintro ⟨tokens, e, ⟨more, hmore⟩, he⟩
  have hl := Parse.whole_local h rfl (show (t :: more).head? = some t from rfl)
  rw [List.append_cons, hmore] at hl
  obtain ⟨r', hr'⟩ := Parse.whole_error_of_limit hl hc other
  rw [Expr.ofTokensWithin, hr'] at he
  cases he

/-- A script whose brackets are not too deep is rejected at the first impossible token. The tokens
in front of it start a script, and with it they start none, however deeply it may nest. The error is
placed at this token. If all tokens start a script, a bracket is never closed or an operand is
missing. If an operand stands at the end, the error is placed at the innermost open bracket and says
so, and otherwise it is placed where the last token ends. -/
theorem first_impossible_token {limit : Nat} {tokens : List Token} {error : ParseError}
    (hn : nesting 0 (Token.significant tokens) < limit)
    (h : Expr.ofTokensWithin limit tokens = .error error) :
    ∃ r before, Parse.whole limit (Token.significant tokens) = .error r ∧
      error = r.toError (Token.endOf tokens) ∧
      Token.significant tokens = before ++ r.unread ∧ StartsScript limit before ∧
      (∀ t rest, r.unread = t :: rest →
        error.position = some t.start ∧ ∀ other, ¬ StartsScript other (before ++ [t])) ∧
      (r.unread = [] → EndsOperand before →
        ∃ o outer, openBrackets [] before = some (o :: outer) ∧ error.position = some o.start ∧
          error.message = "`" ++ o.bracket.openingText ++ "` is never closed") ∧
      (r.unread = [] → ¬ EndsOperand before →
        error.position = some (Token.endOf tokens)) := by
  unfold Expr.ofTokensWithin at h
  split at h
  · cases h
  rename_i r hr
  obtain rfl := Except.error.inj h
  obtain ⟨before, os, missing, hts, hb, hg⟩ := Parse.gives_of_whole hn hr
  have hstarts : StartsScript limit before := by
    refine hb.startsScript ?_ fun t ht => ?_
    · have := nesting_le_append 0 before r.unread
      rw [← hts] at this
      omega
    · have : t ∈ Token.significant tokens := by rw [hts]; exact List.mem_append_left _ ht
      exact (List.mem_filter.1 this).2
  refine ⟨r, before, hr, rfl, hts, hstarts, fun t rest hu => ⟨?_, ?_⟩, fun hu he => ?_,
    fun hu he => ?_⟩
  · exact hg.position_of_cons _ hu
  · obtain ⟨cause, unread⟩ := r
    obtain rfl : unread = t :: rest := hu
    rw [hts] at hr
    exact not_startsScript_of_whole hr hg.cause_ne_tooDeep
  · obtain rfl : missing = false := Bool.eq_false_iff.2 fun hm => hb.missing_iff.1 hm he
    obtain ⟨o, outer, rfl, rfl⟩ := hg.never_of_nil hu
    have hopen := hb.openBrackets []
    rw [List.append_nil] at hopen
    exact ⟨o, outer, hopen, rfl, rfl⟩
  · obtain rfl := hb.missing_iff.2 he
    exact hg.position_of_nil _ hu

/-- A bracket that is closed by one of another kind. -/
theorem first_impossible_token_bracket :
    let o : Token := ⟨.symbol (.opening .round), 1⟩
    let name : Token := ⟨.name "a", 2⟩
    let c : Token := ⟨.symbol (.closing .square), 4⟩
    let tokens := [o, name, ⟨.blank " ", 3⟩, c]
    nesting 0 (Token.significant tokens) < 2 ∧
      Expr.ofTokensWithin 2 tokens = .error ⟨.unmatched .square, some 4⟩ ∧
      StartsScript 2 [o, name] ∧ ∀ limit, ¬ StartsScript limit [o, name, c] := by
  intro o name c tokens
  have hw : Parse.whole 2 (Token.significant tokens) = .error ⟨.unmatched .square, [c]⟩ := rfl
  have hn : nesting 0 (Token.significant tokens) < 2 := by decide
  have he : Expr.ofTokensWithin 2 tokens = .error ⟨.unmatched .square, some 4⟩ := rfl
  obtain ⟨r, before, hr, -, hts, hs, hu, -⟩ := first_impossible_token hn he
  obtain rfl := Except.error.inj (hr.symm.trans hw)
  obtain rfl : [o, name] = before := List.append_cancel_right hts
  exact ⟨hn, he, hs, (hu c [] rfl).2⟩

end Scriptlet
