import Scriptlet.Proofs.Agreement
import Scriptlet.Proofs.Extent
import Scriptlet.Proofs.Outcome
import Scriptlet.Proofs.ParseFront

/-!
# Places and layout

The parser makes its tree of lexemes only, and hands their places on: of tokens that have been moved
it makes the same tree, or gives up for the same reason (`whole_moved`). So two lists of tokens with
the same lexemes are parsed alike, but for where errors are reported (`ofTokensWithin_of_sameText`).

* `scan_apart`: a text and its significant tokens, each on a line of its own, have the same lexemes,
  and they are parsed alike.
-/

namespace Scriptlet

namespace Parse

theorem expression_agrees (g : Nat → Nat) :
    ∀ depth, Agrees (fun _ => False) g (expression depth) (expression depth)
  | 0 => fun _ _ => .inr rfl
  | depth + 1 => levels_agrees (expression_agrees g depth)

/-- The tree of moved tokens is that of the tokens. -/
theorem whole_moved (g : Nat → Nat) (depth : Nat) (ts : List Token) :
    whole depth (ts.map (Token.moved g)) = answer g id (whole depth ts) :=
  (whole_agrees (expression_agrees g depth) ts).resolve_left fun ⟨_, _, h⟩ => h

end Parse

/-! ## Equal lexemes -/

theorem SameText.map_moved {ts us : List Token} (h : SameText ts us) (n : Nat) :
    ts.map (Token.moved fun _ => n) = us.map (Token.moved fun _ => n) := by
  have hm := congrArg (List.map fun l => (⟨l, n⟩ : Token)) h
  rwa [List.map_map, List.map_map] at hm

/-- The kind and the wording of an error, without its place. -/
def ParseError.unplaced (e : ParseError) : FailureKind × String := (e.kind, e.message)

theorem Rejection.Cause.unplaced_moved (g : Nat → Nat) (c : Rejection.Cause) (m n : Option Nat) :
    ParseError.unplaced ⟨c.moved g, m⟩ = ParseError.unplaced ⟨c, n⟩ := by cases c <;> rfl

theorem Rejection.unplaced_eq_of_moved {g : Nat → Nat} {r r' : Rejection}
    (h : r.moved g = r'.moved g) (m n : Nat) :
    (r.toError m).unplaced = (r'.toError n).unplaced := by
  have hc : r.cause.moved g = r'.cause.moved g := congrArg Rejection.cause h
  rw [toError, toError, ← Cause.unplaced_moved g r.cause none, hc, Cause.unplaced_moved]

/-- Scripts with the same lexemes are parsed alike. Only the places of errors differ. -/
theorem Expr.ofTokensWithin_of_sameText {ts us : List Token}
    (h : SameText (Token.significant ts) (Token.significant us)) (limit : Nat) :
    (ofTokensWithin limit ts).mapError ParseError.unplaced =
      (ofTokensWithin limit us).mapError ParseError.unplaced := by
  have hw : Parse.answer (fun _ => 0) id (Parse.whole limit (Token.significant ts)) =
      Parse.answer (fun _ => 0) id (Parse.whole limit (Token.significant us)) := by
    rw [← Parse.whole_moved, ← Parse.whole_moved, h.map_moved]
  unfold ofTokensWithin
  cases ht : Parse.whole limit (Token.significant ts) <;>
    cases hu : Parse.whole limit (Token.significant us)
  all_goals rw [ht, hu] at hw
  · exact congrArg Except.error (Rejection.unplaced_eq_of_moved (Except.error.inj hw) _ _)
  · cases hw
  · cases hw
  · exact congrArg Except.ok (Except.ok.inj hw)

/-! ## Lexemes apart from each other -/

namespace Lexeme

/-- A lexeme with text behind it came to its own end. -/
theorem endsBefore_next {b c : Char} {cs : List Char} (hs : (next c cs).1.isSignificant = true)
    (h : (next c cs).2 ≠ []) : (next c cs).1.endsBefore b = true := by
  have hm := (isMaximal_next c cs).extent
  generalize hn : next c cs = q at hs h hm
  obtain ⟨l, rest⟩ := q
  cases l with
  | string t value =>
    obtain ⟨inside, ht, hc⟩ := hm
    unfold ClosedOnce at hc
    split at hc
    · rename_i hcl
      simp [endsBefore, isUnterminated, ht, hcl]
    · exact absurd hc h
  | blank t | comment t => cases hs
  | _ => rfl

end Lexeme

namespace Token

theorem endsBefore_of_mem_dropLast (b : Char) (cs : List Char) :
    ∀ l ∈ (content cs).dropLast, l.endsBefore b = true := by
  induction hn : cs.length using Nat.strongRecOn generalizing cs with
  | ind n ih =>
    subst hn
    rcases cs with _ | ⟨c, cs⟩
    · nofun
    rw [content_cons]
    intro l hl
    by_cases hr : content (Lexeme.next c cs).2 = []
    · rw [hr, List.append_nil] at hl
      cases hs : (Lexeme.next c cs).1.isSignificant <;> simp [hs] at hl
    · rw [List.dropLast_append_of_ne_nil hr] at hl
      rcases List.mem_append.1 hl with hl | hl
      · obtain ⟨hm, hs⟩ := List.mem_filter.1 hl
        obtain rfl := List.mem_singleton.1 hm
        exact Lexeme.endsBefore_next hs fun hn => hr (by rw [hn]; rfl)
      · exact ih _ (Lexeme.length_next_lt c cs) _ rfl l hl

/-- Lexemes with a blank between each two are scanned again. -/
theorem content_intercalate {b : Char} (hb : Text.isBlank b = true) (cs : List Char) :
    content ([b].intercalate ((content cs).map (·.text.toList))) = content cs := by
  refine content_ofLexemes hb (fun l hl => ?_) (endsBefore_of_mem_dropLast b cs)
  obtain ⟨hm, hs⟩ := List.mem_filter.1 hl
  exact ⟨hs, forall_mem_lexemes Lexeme.readsBack_next l hm⟩

/-- The significant tokens of a text, each on a line of its own. -/
def apart (source : String) : String :=
  "\n".intercalate ((significant (scan source)).map (·.text))

theorem sameText_scan_apart (source : String) :
    SameText (significant (scan (apart source))) (significant (scan source)) := by
  have hb : Text.isBlank '\n' = true := by decide
  have hc := content_intercalate hb source.toList
  rw [← map_lexeme_significant, List.map_map] at hc
  have ht : (apart source).toList =
      ['\n'].intercalate (((significant (scan source)).map (·.text)).map String.toList) :=
    String.toList_intercalate
  rw [List.map_map] at ht
  rw [SameText, map_lexeme_significant, ht]
  exact hc

/-- Layout does not matter: a text has the same significant lexemes as these on lines of their own,
with their kinds, texts and values, and both are parsed to the same tree or with the same error,
whatever the limit for nesting is. -/
theorem scan_apart (source : String) :
    SameText (significant (scan (apart source))) (significant (scan source)) ∧
      ∀ limit, (Expr.ofTokensWithin limit (scan (apart source))).mapError ParseError.unplaced =
        (Expr.ofTokensWithin limit (scan source)).mapError ParseError.unplaced :=
  have h := sameText_scan_apart source
  ⟨h, Expr.ofTokensWithin_of_sameText h⟩

end Token

end Scriptlet
