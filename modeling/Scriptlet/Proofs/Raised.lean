import Scriptlet.Proofs.Agreement
import Scriptlet.Proofs.Outcome

/-!
# Raised limits

With a higher limit for nesting a script is parsed as before, or it was too deep before: no parser
makes anything else of a rejection for that reason (`whole_of_limit_le`).

* `same_of_limit_le`: what an evaluation or a parse ends in without running into its limit, it also
  ends in with a higher one.
-/

namespace Scriptlet

/-! ## Scripts -/

theorem Token.map_moved_id (ts : List Token) : ts.map (Token.moved id) = ts := List.map_id ts

namespace Parse

theorem answer_id {α : Type} (x : Except Rejection α) : answer id id x = x := by
  rcases x with ⟨cause, unread⟩ | a
  · have hc : cause.moved id = cause := by cases cause <;> rfl
    rw [answer, Rejection.moved, hc, Token.map_moved_id]
  · rfl

theorem expression_agrees_of_le {depth more : Nat} (h : depth ≤ more) :
    Agrees (· = .tooDeep) id (expression depth) (expression more) := by
  induction depth generalizing more with
  | zero => exact fun opens ts => .inl ⟨_, rfl, rfl⟩
  | succ depth ih =>
    obtain ⟨more, rfl⟩ : ∃ k, more = k + 1 := ⟨more - 1, by omega⟩
    exact levels_agrees (ih (by omega))

theorem whole_of_limit_le {depth more : Nat} (h : depth ≤ more) (ts : List Token) :
    (∃ r, whole depth ts = .error r ∧ r.cause = .tooDeep) ∨ whole more ts = whole depth ts := by
  have ha := whole_agrees (expression_agrees_of_le h) ts
  rwa [Agree, Token.map_moved_id, answer_id] at ha

end Parse

theorem Expr.ofTokensWithin_of_limit_le {depth more : Nat} (h : depth ≤ more) {tokens : List Token}
    (hd : ∀ error, ofTokensWithin depth tokens = .error error → error.cause ≠ .tooDeep) :
    ofTokensWithin more tokens = ofTokensWithin depth tokens := by
  unfold ofTokensWithin at hd ⊢
  obtain ⟨r, hr, hc⟩ | he := Parse.whole_of_limit_le h (Token.significant tokens)
  · rw [hr] at hd
    exact absurd hc (hd _ rfl)
  · rw [he]

/-! ## Evaluations -/

section
variable {depth more : Nat} (h : depth ≤ more) {rounds : Nat} {s : Session} {e : Expr}
include h

theorem eval_of_depth_le (hd : ∀ t, eval rounds depth e s ≠ .error (.error .tooDeep) t) :
    eval rounds more e s = eval rounds depth e s :=
  (eval_within_depth rounds h e).same s fun _ t hx hu => hd t (by rw [hx, hu])

theorem evaluateWithin_of_depth_le
    (hd : (s.evaluateWithin ⟨depth, rounds⟩ e).1 ≠ .error (.eval .tooDeep)) :
    s.evaluateWithin ⟨more, rounds⟩ e = s.evaluateWithin ⟨depth, rounds⟩ e := by
  have he : eval rounds more e s = eval rounds depth e s :=
    eval_of_depth_le h fun t ht => hd (by rw [Session.evaluateWithin, ht])
  unfold Session.evaluateWithin
  rw [he]

/-- A higher limit changes nothing that is finished. An evaluation that ends in anything but the
error about nesting ends in the same and in the same session with more room to nest, be it a part of
a program, which may exit by an escape, or a whole one. A text whose brackets are not too deep is
parsed to the same tree, or rejected with the same error at the same place. -/
theorem same_of_limit_le :
    (∀ rounds s e, (∀ t, eval rounds depth e s ≠ .error (.error .tooDeep) t) →
        eval rounds more e s = eval rounds depth e s) ∧
      (∀ (rounds : Nat) (s : Session) (e : Expr),
        (s.evaluateWithin ⟨depth, rounds⟩ e).1 ≠ .error (.eval .tooDeep) →
          s.evaluateWithin ⟨more, rounds⟩ e = s.evaluateWithin ⟨depth, rounds⟩ e) ∧
      ∀ source, (∀ error, Expr.ofTokensWithin depth (Token.scan source) = .error error →
          error.cause ≠ .tooDeep) →
        Expr.ofTokensWithin more (Token.scan source) =
          Expr.ofTokensWithin depth (Token.scan source) :=
  ⟨fun _ _ _ => eval_of_depth_le h, fun _ _ _ => evaluateWithin_of_depth_le h,
    fun _ => Expr.ofTokensWithin_of_limit_le h⟩

end

/-- A call that ends in another error, and a bracket that closes nothing. -/
theorem same_of_limit_le_errors :
    let s := Session.initial.withBuiltins
    let e := Expr.call "f" (.text "a")
    2 ≤ 5 ∧ (∀ t, eval 1 2 e s ≠ .error (.error .tooDeep) t) ∧
      eval 1 5 e s = .error (.error (.notCallable .null "f")) s ∧
      (s.evaluateWithin ⟨2, 1⟩ e).1 ≠ .error (.eval .tooDeep) ∧
      s.evaluateWithin ⟨5, 1⟩ e = (.error (.eval (.notCallable .null "f")), s) ∧
      Expr.ofTokensWithin 5 (Token.scan ")") = .error ⟨.unmatched .round, some 0⟩ := by
  intro s e
  have hv : eval 1 2 e s = .error (.error (.notCallable .null "f")) s := rfl
  have hw : s.evaluateWithin ⟨2, 1⟩ e = (.error (.eval (.notCallable .null "f")), s) := rfl
  have hp : Expr.ofTokensWithin 2 (Token.scan ")") = .error ⟨.unmatched .round, some 0⟩ := rfl
  obtain ⟨he, hr, ht⟩ := same_of_limit_le (show 2 ≤ 5 by decide)
  have hn : ∀ t, eval 1 2 e s ≠ .error (.error .tooDeep) t := by simp [hv]
  have hn' : (s.evaluateWithin ⟨2, 1⟩ e).1 ≠ .error (.eval .tooDeep) := by simp [hw]
  refine ⟨by decide, hn, (he 1 s e hn).trans hv, hn', (hr 1 s e hn').trans hw, (ht ")" ?_).trans hp⟩
  rintro error herr
  rw [hp] at herr
  obtain rfl := Except.error.inj herr
  nofun

end Scriptlet
