import Scriptlet.Proofs.Unseen

/-!
# Evaluations and the log

A session without a log goes through an evaluation like the session with one, and is left without a
log (`unseen_unlogged`). So in two sessions that differ in nothing but their log an evaluation does
the same, up to the log (`blind_eval`).
-/

namespace Scriptlet

/-- The session without its log. -/
def Session.unlogged (s : Session) : Session := { s with log := none }

/-- The result of a run without the log of its session. -/
def unlogged {α : Type} : EStateM.Result Exit Session α → EStateM.Result Exit Session α :=
  through Session.unlogged

/-- No step of the evaluator looks at the log, and none starts one. -/
theorem unseen_unlogged : Session.Unseen Session.unlogged where
  scope _ := rfl
  store _ := rfl
  update _ _ _ := rfl
  write _ _ := rfl
  record _ _ := rfl

theorem Session.unlogged_record (s : Session) (event : Event) :
    (s.record event).unlogged = s.unlogged :=
  rfl

/-- Results that are alike up to the log are alike values or alike exits. -/
theorem unlogged_eq {α : Type} {r r' : EStateM.Result Exit Session α}
    (h : unlogged r = unlogged r') :
    (∃ a s t, r = .ok a s ∧ r' = .ok a t ∧ s.unlogged = t.unlogged) ∨
      ∃ e s t, r = .error e s ∧ r' = .error e t ∧ s.unlogged = t.unlogged := by
  cases r with
  | ok a s =>
    cases r' with
    | ok b t =>
      obtain ⟨rfl, ht⟩ := EStateM.Result.ok.inj h
      exact .inl ⟨a, s, t, rfl, rfl, ht⟩
    | error e t => cases h
  | error e s =>
    cases r' with
    | ok b t => cases h
    | error e' t =>
      obtain ⟨rfl, ht⟩ := EStateM.Result.error.inj h
      exact .inr ⟨e, s, t, rfl, rfl, ht⟩

/-! ## Blind runs -/

/-- What the run does does not depend on the log. -/
def Run.Blind {α : Type} (x : Run α) : Prop :=
  ∀ s t : Session, s.unlogged = t.unlogged → unlogged (x s) = unlogged (x t)

theorem Run.Ignores.blind {α : Type} {x : Run α} (h : x.Ignores Session.unlogged) : x.Blind := by
  intro s t hst
  calc unlogged (x s) = x s.unlogged := (h s).symm
    _ = x t.unlogged := by rw [hst]
    _ = unlogged (x t) := h t

/-- An evaluation does the same whatever the log is. -/
theorem blind_eval (rounds depth : Nat) (e : Expr) : (eval rounds depth e).Blind :=
  Run.Ignores.blind (unseen_unlogged.eval rounds depth e)

end Scriptlet
