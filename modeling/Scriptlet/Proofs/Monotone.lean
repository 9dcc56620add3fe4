import Scriptlet.Proofs.Frames

/-!
# Larger bounds

`Run.Within up x y`: wherever the run `x` does not give up, the run `y` does the same, where `up`
says which exits are a giving up. No handler of the evaluator may catch one of these, so a run that
gives up somewhere inside gives up as a whole.

* `eval_within_depth`, `eval_within_rounds`: an evaluation that does not come to the end of its room
  to nest, or of the rounds of a loop, goes the same way within larger bounds.
-/

namespace Scriptlet

namespace Run

variable {α β : Type}

/-- Wherever the run `x` does not give up, `y` does the same. The frames are in it for the same
reason as in `Keeps`. -/
structure Within (up : Exit → Prop) (x y : Run α) : Prop where
  keeps : x.Keeps fun _ _ => True
  same : ∀ s, (∀ e t, x s = .error e t → ¬ up e) → y s = x s

/-- The exits in the set are caught by nothing. -/
structure Uncaught (up : Exit → Prop) : Prop where
  stop : ¬ up .stop
  result (v : Value) : ¬ up (.result v)

namespace Within

variable {up : Exit → Prop}

theorem refl {x : Run α} (h : x.Keeps fun _ _ => True) : Within up x x := ⟨h, fun _ _ => rfl⟩

theorem of_up {e : Exit} (h : up e) (y : Run α) : Within up (throw e) y :=
  ⟨Session.stable_true.congruence.throw e, fun _ hs => absurd h (hs e _ rfl)⟩

theorem trans {x y z : Run α} (h : Within up x y) (h' : Within up y z) : Within up x z := by
  refine ⟨h.keeps, fun s hs => ?_⟩
  have hxy := h.same s hs
  rw [h'.same s (by rwa [hxy]), hxy]

theorem bind {x y : Run α} {f g : α → Run β} (h : Within up x y)
    (hf : ∀ a, Within up (f a) (g a)) : Within up (x >>= f) (y >>= g) := by
  refine ⟨Session.stable_true.congruence.bind (X := fun _ => x) (F := fun _ => f) h.keeps
    fun a => (hf a).keeps, fun s hs => ?_⟩
  have hx : ∀ e t, x s = .error e t → ¬ up e := fun e t he => hs e t (by rw [bind_apply, he])
  rw [bind_apply, bind_apply, h.same s hx]
  cases hxs : x s with
  | error e t => rfl
  | ok a t => exact (hf a).same t fun e u he => hs e u (by rw [bind_apply, hxs]; exact he)

theorem untilStop (hu : Uncaught up) {x y : Run α} (h : Within up x y) :
    Within up x.untilStop y.untilStop := by
  refine ⟨Session.stable_true.congruence.untilStop (X := fun _ => x) h.keeps, fun s hs => ?_⟩
  have hx : ∀ e t, x s = .error e t → ¬ up e := by
    intro e t he
    cases e with
    | stop => exact hu.stop
    | _ => exact hs _ t (by rw [untilStop_apply, he])
  rw [untilStop_apply, untilStop_apply, h.same s hx]

theorem enterFunction (hu : Uncaught up) {x y : Run Value} (h : Within up x y) (p : String)
    (v : Value) : Within up (Eval.enterFunction p v x) (Eval.enterFunction p v y) := by
  refine ⟨Session.stable_true.congruence.enterFunction (X := fun _ => x) p v h.keeps,
    fun s hs => ?_⟩
  have hb := (h.keeps (s.callee p v)).1
  have hx : ∀ e t, x (s.callee p v) = .error e t → ¬ up e := by
    intro e t he
    cases e with
    | result r => exact hu.result r
    | _ => exact hs _ _ (by rw [enterFunction_apply hb, he])
  have hy := h.same _ hx
  rw [enterFunction_apply hb, enterFunction_apply (by rwa [final, hy]), hy]

theorem congruence (hu : Uncaught up) :
    Congruence (ι := Unit) fun {_} x X => Within up x (X ()) where
  pure a := .refl (Session.stable_true.congruence.pure a)
  throw e := .refl (Session.stable_true.congruence.throw e)
  bind h hf := h.bind hf
  get name := .refl (Session.stable_true.congruence.get name)
  set name v := .refl (Session.stable_true.congruence.set name v)
  getItem c i := .refl (Session.stable_true.congruence.getItem c i)
  setItem c i v := .refl (Session.stable_true.congruence.setItem c i v)
  newArray := .refl Session.stable_true.congruence.newArray
  newDictionary := .refl Session.stable_true.congruence.newDictionary
  builtin b v := .refl (Session.stable_true.congruence.builtin b v)
  untilStop h := h.untilStop hu
  enterFunction p v h := h.enterFunction hu p v

/-- A loop with more rounds repeats what the loop with fewer does, round by round. -/
theorem loop (hu : Uncaught up) (hf : up .unfinished) {c d b e : Run Value} (hc : Within up c d)
    (hb : Within up b e) {rounds more : Nat} (h : rounds ≤ more) (last : Value) :
    Within up (Eval.loop c b rounds last) (Eval.loop d e more last) := by
  induction rounds generalizing more last with
  | zero => exact .of_up hf _
  | succ rounds ih =>
    obtain ⟨more, rfl⟩ : ∃ k, more = k + 1 := ⟨more - 1, by omega⟩
    refine (hc.untilStop hu).bind fun r => ?_
    cases r with
    | none => exact (congruence hu).pure last
    | some v =>
      cases hv : v.isTrue with
      | false => simpa only [hv, Bool.false_eq_true, if_false] using (congruence hu).pure v
      | true =>
        simp only [hv, if_true]
        refine (hb.untilStop hu).bind fun r => ?_
        cases r with
        | none => exact (congruence hu).pure v
        | some _ => exact ih (by omega) v

end Within

end Run

/-- Only a loop looks at the rounds. -/
theorem node_cases_loop (f : Expr → Run Value) (e : Expr) :
    (∃ c b, e = .binary .loop c b) ∨
      ∀ rounds more, Eval.node rounds f e = Eval.node more f e := by
  cases e with
  | binary op l r =>
    cases op with
    | loop => exact .inl ⟨l, r, rfl⟩
    | _ => exact .inr fun _ _ => rfl
  | root r => cases r <;> exact .inr fun _ _ => rfl
  | _ => exact .inr fun _ _ => rfl

/-- Too deep is the only giving up that has to do with nesting. -/
theorem uncaught_tooDeep : Run.Uncaught (· = .error .tooDeep) := ⟨nofun, nofun⟩

theorem uncaught_unfinished : Run.Uncaught (· = .unfinished) := ⟨nofun, nofun⟩

/-- With more room to nest an evaluation that is not too deep goes the same way. -/
theorem eval_within_depth (rounds : Nat) {depth more : Nat} (h : depth ≤ more) (e : Expr) :
    (eval rounds depth e).Within (· = .error .tooDeep) (eval rounds more e) := by
  induction depth generalizing more e with
  | zero =>
    have ht : ∀ y, (throw (.error .tooDeep) : Run Value).Within (· = .error .tooDeep) y :=
      Run.Within.of_up rfl
    exact ht _
  | succ depth ih =>
    obtain ⟨more, rfl⟩ : ∃ k, more = k + 1 := ⟨more - 1, by omega⟩
    exact (Run.Within.congruence uncaught_tooDeep).node (F := fun _ => eval rounds more)
      (ih (by omega)) rounds e

/-- With more rounds for each loop an evaluation that is not cut off goes the same way. -/
theorem eval_within_rounds {rounds more : Nat} (h : rounds ≤ more) (depth : Nat) (e : Expr) :
    (eval rounds depth e).Within (· = .unfinished) (eval more depth e) := by
  induction depth generalizing e with
  | zero => exact .refl (Session.stable_true.congruence.throw _)
  | succ depth ih =>
    obtain ⟨c, b, rfl⟩ | he := node_cases_loop (eval more depth) e
    · exact .loop uncaught_unfinished rfl (ih c) (ih b) h .null
    · have hn := (Run.Within.congruence uncaught_unfinished).node (F := fun _ => eval more depth)
        ih rounds e
      rwa [he rounds more] at hn

end Scriptlet
