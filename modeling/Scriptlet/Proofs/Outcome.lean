import Scriptlet.Proofs.Monotone
import Scriptlet.Proofs.Rejected
import Scriptlet.Proofs.Values

/-!
# How scripts end

`Session.runWithin nesting limits s source` runs a script with given bounds, as `Session.run` does
with the ordinary ones. `Session.Reached` holds of the sessions that come out of the first one by
running scripts, whether these fail or not. They keep no log.

* `run_of_reached`: in such a session a script comes to a value, runs for ever, or fails in one of
  nine ways. None of them is a defect, and a script that is not parsed changes nothing.
-/

namespace Scriptlet

/-- The ways in which a script can fail. -/
inductive FailureKind where
  | unmatchedBracket
  | malformed
  | mismatch
  | badTarget
  | unboundElse
  | indexOutOfRange
  | keyNotFound
  | notCallable
  | tooDeep
deriving DecidableEq

def ParseError.kind (e : ParseError) : FailureKind :=
  match e.cause with
  | .unmatched _ => .unmatchedBracket
  | _ => .malformed

def EvalError.kind : EvalError → FailureKind
  | mismatch _ => .mismatch
  | badTarget _ => .badTarget
  | unboundElse => .unboundElse
  | indexOutOfRange _ => .indexOutOfRange
  | keyNotFound _ => .keyNotFound
  | notCallable _ _ => .notCallable
  | tooDeep => .tooDeep

namespace Failure

/-- The kind of a failure of the script. A defect would be a failure of its caller, and a script
that is cut off has not failed yet. -/
def kind? : Failure → Option FailureKind
  | parse e => some e.kind
  | eval e => some e.kind
  | defect _ => none
  | unfinished => none

/-- The offset that a failure is reported at. -/
def position : Failure → Option Nat
  | parse e => e.position
  | _ => none

/-- A failure is reported with its message and the offset. -/
theorem report_eq (f : Failure) :
    f.report = f.message ++ f.position.elim "" fun n => " @ " ++ toString n := by
  cases f with
  | parse e =>
    obtain ⟨cause, place⟩ := e
    cases place with
    | none => exact String.append_empty.symm
    | some n => exact String.append_assoc ..
  | _ => exact String.append_empty.symm

end Failure

namespace Session

/-- Runs a script whose brackets nest less deeply than a limit, within given limits. -/
def runWithin (nesting : Nat) (limits : Limits) (s : Session) (source : String) :
    Except Failure Value × Session :=
  match Expr.ofTokensWithin nesting (Token.scan source) with
  | .error e => (.error (.parse e), s)
  | .ok e => (s.record (.parsed source e)).evaluateWithin limits e

theorem run_eq_runWithin (s : Session) (source : String) :
    s.run source = s.runWithin nestingLimit .standard source := by
  have hp : Expr.parse source = Expr.ofTokensWithin nestingLimit (Token.scan source) := by
    unfold Expr.parse Expr.ofTokens
    with_reducible rfl
  unfold run runWithin evaluate
  generalize Expr.ofTokensWithin nestingLimit (Token.scan source) = r at hp ⊢
  cases r <;> rw [hp]

theorem runWithin_of_error {nesting : Nat} {limits : Limits} {s : Session} {source : String}
    {e : ParseError} (h : Expr.ofTokensWithin nesting (Token.scan source) = .error e) :
    s.runWithin nesting limits source = (.error (.parse e), s) := by
  rw [runWithin, h]

theorem runWithin_of_ok {nesting : Nat} {limits : Limits} {s : Session} {source : String}
    {e : Expr} (h : Expr.ofTokensWithin nesting (Token.scan source) = .ok e) :
    s.runWithin nesting limits source =
      (s.record (.parsed source e)).evaluateWithin limits e := by
  rw [runWithin, h]

/-- The session comes out of the first one by running scripts. The first one keeps no log, and so
does none of these sessions. -/
inductive Reached : Session → Prop
  | start : Reached Session.initial.withBuiltins
  | run {s : Session} (nesting : Nat) (limits : Limits) (source : String) :
      Reached s → Reached (s.runWithin nesting limits source).2

end Session

/-! ## Evaluations -/

section
variable {limits : Limits} {s : Session} {e : Expr}

theorem Session.Holds.record {V : Value → Prop} (h : s.Holds V) (event : Event) :
    (s.record event).Holds V := ⟨h.scope, h.store⟩

/-- The tree of a script meets no defect. -/
theorem evaluateWithin_ne_defect (hs : s.Holds Value.OfScript)
    (he : e.WellFormed Double.IsUnsigned) (d : Defect) (t : Session) :
    s.evaluateWithin limits e ≠ (.error (.defect d), t) := by
  have h := scripted.eval limits.rounds limits.depth he s hs
  unfold Session.evaluateWithin
  cases hr : eval limits.rounds limits.depth e s with
  | ok v t => simp
  | error x t =>
    rw [hr] at h
    cases x with
    | defect d => exact h.1.elim
    | error e => cases e <;> simp
    | _ => simp

theorem evaluateWithin_ne_parse (error : ParseError) (t : Session) :
    s.evaluateWithin limits e ≠ (.error (.parse error), t) := by
  unfold Session.evaluateWithin
  cases eval limits.rounds limits.depth e s with
  | ok v t => simp
  | error x t =>
    cases x with
    | error e => cases e <;> simp
    | _ => simp

/-- An evaluation that is not cut off goes the same way with more rounds. -/
theorem evaluateWithin_of_rounds_le {depth rounds more : Nat} (h : rounds ≤ more)
    (hu : (s.evaluateWithin ⟨depth, rounds⟩ e).1 ≠ .error .unfinished) :
    s.evaluateWithin ⟨depth, more⟩ e = s.evaluateWithin ⟨depth, rounds⟩ e := by
  have hs : eval more depth e s = eval rounds depth e s := by
    refine (eval_within_rounds h depth e).same s fun x t hx hxu => hu ?_
    rw [Session.evaluateWithin, hx, hxu]
  unfold Session.evaluateWithin
  rw [hs]

end

/-! ## Scripts -/

section
variable {s : Session} (h : s.Holds Value.OfScript) (nesting : Nat) (limits : Limits)
  (source : String)
include h

theorem Session.Holds.runWithin : (s.runWithin nesting limits source).2.Holds Value.OfScript := by
  cases hp : Expr.ofTokensWithin nesting (Token.scan source) with
  | error e => rwa [runWithin_of_error hp]
  | ok e =>
    rw [runWithin_of_ok hp]
    exact scripted.evaluateWithin limits (wellFormed_of_ofTokensWithin hp) (h.record _)

/-- A script meets no defect. -/
theorem Session.Holds.runWithin_ne_defect (d : Defect) :
    (s.runWithin nesting limits source).1 ≠ .error (.defect d) := by
  intro hd
  cases hp : Expr.ofTokensWithin nesting (Token.scan source) with
  | error e =>
    rw [runWithin_of_error hp] at hd
    cases hd
  | ok e =>
    rw [runWithin_of_ok hp] at hd
    exact evaluateWithin_ne_defect (h.record _) (wellFormed_of_ofTokensWithin hp) d _
      (Prod.ext hd rfl)

end

theorem Session.Reached.holds {s : Session} (h : s.Reached) : s.Holds Value.OfScript := by
  induction h with
  | start => exact (Session.Holds.initial _).withBuiltins trivial fun _ => trivial
  | run nesting limits source _ ih => exact ih.runWithin nesting limits source

/-- A script comes to its end from some bound on the rounds of a loop on, or it comes to none. -/
theorem runWithin_settles (nesting depth : Nat) (s : Session) (source : String) :
    (∃ r, r.1 ≠ .error .unfinished ∧
        ∃ n, ∀ rounds ≥ n, s.runWithin nesting ⟨depth, rounds⟩ source = r) ∨
      ∀ rounds, (s.runWithin nesting ⟨depth, rounds⟩ source).1 = .error .unfinished := by
  by_cases hu : ∀ rounds, (s.runWithin nesting ⟨depth, rounds⟩ source).1 = .error .unfinished
  · exact .inr hu
  obtain ⟨n, hn⟩ := not_forall.1 hu
  refine .inl ⟨_, hn, n, fun rounds hr => ?_⟩
  cases hp : Expr.ofTokensWithin nesting (Token.scan source) with
  | error e => rw [Session.runWithin_of_error hp, Session.runWithin_of_error hp]
  | ok e =>
    rw [Session.runWithin_of_ok hp] at hn ⊢
    rw [Session.runWithin_of_ok hp]
    exact evaluateWithin_of_rounds_le hr hn

/-- In a session that scripts have come to, a script comes to a value, runs for ever, or fails in
one of nine ways. If it is not parsed, the session stays as it was, and the failure has a place in
the text or at its end, unless brackets nest too deeply. No other failure has a place. -/
theorem run_of_reached {s : Session} (h : s.Reached) (nesting depth : Nat) (source : String) :
    s.run source = s.runWithin nestingLimit .standard source ∧
    ((∃ r, r.1 ≠ .error .unfinished ∧
        ∃ n, ∀ rounds ≥ n, s.runWithin nesting ⟨depth, rounds⟩ source = r) ∨
      ∀ rounds, (s.runWithin nesting ⟨depth, rounds⟩ source).1 = .error .unfinished) ∧
    ∀ rounds f t, s.runWithin nesting ⟨depth, rounds⟩ source = (.error f, t) →
      (f = .unfinished ∨ ∃ kind, f.kind? = some kind) ∧
      (∀ e, f = .parse e → t = s ∧ (f.position = none ↔ e.cause = .tooDeep) ∧
        ∀ n, f.position = some n → n ≤ source.length) ∧
      ∀ e, f = .eval e → f.position = none := by
  refine ⟨s.run_eq_runWithin source, runWithin_settles nesting depth s source, ?_⟩
  intro rounds f t hf
  cases hp : Expr.ofTokensWithin nesting (Token.scan source) with
  | error e =>
    rw [Session.runWithin_of_error hp, Prod.mk.injEq, Except.error.injEq] at hf
    obtain ⟨rfl, rfl⟩ := hf
    refine ⟨.inr ⟨_, rfl⟩, fun e' he => ?_, nofun⟩
    obtain rfl := Failure.parse.inj he
    exact ⟨rfl, position_of_error hp⟩
  | ok e =>
    rw [Session.runWithin_of_ok hp] at hf
    cases f with
    | parse e' => exact absurd hf (evaluateWithin_ne_parse e' t)
    | defect d =>
      exact absurd hf (evaluateWithin_ne_defect (h.holds.record _)
        (wellFormed_of_ofTokensWithin hp) d t)
    | eval e' => exact ⟨.inr ⟨_, rfl⟩, nofun, fun _ _ => rfl⟩
    | unfinished => exact ⟨.inl rfl, nofun, nofun⟩

/-- A bracket that closes nothing is a failure at the start of the text, after a script that ran as
well as before. -/
theorem run_of_reached_unmatched :
    let s := (Session.initial.withBuiltins.runWithin 1 ⟨2, 1⟩ "x").2
    s.Reached ∧ ∃ e, s.runWithin 1 ⟨2, 1⟩ ")" = (.error (.parse e), s) ∧
      (Failure.parse e).kind? = some .unmatchedBracket ∧ (Failure.parse e).position = some 0 ∧
      ∀ n, (Failure.parse e).position = some n → n ≤ 1 := by
  have hs := Session.Reached.start.run 1 ⟨2, 1⟩ "x"
  have hp : Expr.ofTokensWithin 1 (Token.scan ")") = .error ⟨.unmatched .round, some 0⟩ := rfl
  have hr (s : Session) : s.runWithin 1 ⟨2, 1⟩ ")" = _ := Session.runWithin_of_error hp
  obtain ⟨-, hparse, -⟩ := (run_of_reached hs 1 2 ")").2.2 1 _ _ (hr _)
  exact ⟨hs, _, hr _, rfl, rfl, (hparse _ rfl).2.2⟩

end Scriptlet
