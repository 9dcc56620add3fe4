import Scriptlet.Proofs.Frames

/-!
# Room to nest

`Run.Fits x s`: the run `x` does not fail in `s` for nesting too deeply. `Run.Settles x X`: wherever
`x` fits, the runs of the family `X` from some index on do what `x` does. Everything that the
evaluator is made of keeps this. For a call that takes that the body leaves the frames below alone:
a call that drops a frame of its caller could hide that its body does not fit.

* `settles_eval`: an evaluation that fits goes the same way with any more room.
-/

namespace Scriptlet

namespace Run

variable {α β : Type}

/-- The run has room enough to nest in the session. -/
def Fits (x : Run α) (s : Session) : Prop := ∀ t, x s ≠ .error (.error .tooDeep) t

/-- Everything that the evaluator is made of keeps the frames below. -/
theorem keepsBelow : Congruence (ι := Unit) fun {_} x _ => x.Keeps fun _ _ => True :=
  Session.stable_true.congruence

/-- Wherever the run fits, all runs of the family from some index on do the same. -/
structure Settles (x : Run α) (X : Nat → Run α) : Prop where
  keeps : x.Keeps fun _ _ => True
  eventually : ∀ s, x.Fits s → ∃ n, ∀ m ≥ n, X m s = x s

/-! ## What fits -/

section
variable {x : Run α} {f : α → Run β} {s t : Session} {a : α}

theorem Fits.of_eq {y : Run α} (h : x.Fits s) (hy : y s = x s) : y.Fits s := fun t => by
  rw [hy]
  exact h t

theorem Fits.of_ok (h : x s = .ok a t) : x.Fits s := by
  intro u hu
  rw [h] at hu
  cases hu

theorem Fits.left (h : (x >>= f).Fits s) : x.Fits s := by
  intro t ht
  refine h t ?_
  rw [bind_apply, ht]

theorem Fits.right (h : (x >>= f).Fits s) (hx : x s = .ok a t) : (f a).Fits t := by
  intro u hu
  refine h u ?_
  rw [bind_apply, hx]
  exact hu

theorem Fits.of_untilStop (h : x.untilStop.Fits s) : x.Fits s := by
  intro t ht
  refine h t ?_
  rw [untilStop_apply, ht]

theorem Fits.of_enterFunction {x : Run Value} {parameter : String} {v : Value}
    (hb : (x.final (s.callee parameter v)).scope.below = s.scope.frames)
    (h : (Eval.enterFunction parameter v x).Fits s) : x.Fits (s.callee parameter v) := by
  intro t ht
  refine h (t.returnTo s.scope) ?_
  rw [enterFunction_apply hb, ht]

end

/-! ## What settles -/

namespace Settles

variable {x : Run α} {X : Nat → Run α}

theorem const (hx : x.Keeps fun _ _ => True) : Settles x fun _ => x :=
  ⟨hx, fun _ _ => ⟨0, fun _ _ => rfl⟩⟩

theorem succ (h : Settles x X) : Settles x fun n => X (n + 1) := by
  refine ⟨h.keeps, fun s hs => ?_⟩
  obtain ⟨n, hn⟩ := h.eventually s hs
  exact ⟨n, fun m hm => hn (m + 1) (by omega)⟩

theorem of_succ (h : Settles x fun n => X (n + 1)) : Settles x X := by
  refine ⟨h.keeps, fun s hs => ?_⟩
  obtain ⟨n, hn⟩ := h.eventually s hs
  refine ⟨n + 1, fun m hm => ?_⟩
  obtain ⟨k, rfl⟩ : ∃ k, m = k + 1 := ⟨m - 1, by omega⟩
  exact hn k (by omega)

theorem bind {f : α → Run β} {F : Nat → α → Run β} (hx : Settles x X)
    (hf : ∀ a, Settles (f a) fun n => F n a) : Settles (x >>= f) fun n => X n >>= F n := by
  refine ⟨keepsBelow.bind (X := fun _ => x) (F := fun _ => f) hx.keeps
    fun a => (hf a).keeps, fun s hs => ?_⟩
  obtain ⟨n, hn⟩ := hx.eventually s hs.left
  cases hxs : x s with
  | error e t =>
    -- nothing behind `x` is run, so the bound of `x` is enough
    refine ⟨n, fun m hm => ?_⟩
    show (X m >>= F m) s = (x >>= f) s
    rw [bind_apply, bind_apply, hn m hm, hxs]
  | ok a t =>
    obtain ⟨k, hk⟩ := (hf a).eventually t (hs.right hxs)
    refine ⟨max n k, fun m hm => ?_⟩
    show (X m >>= F m) s = (x >>= f) s
    rw [bind_apply, bind_apply, hn m (by omega), hxs]
    exact hk m (by omega)

theorem untilStop (h : Settles x X) : Settles x.untilStop fun n => (X n).untilStop := by
  refine ⟨keepsBelow.untilStop (X := fun _ => x) h.keeps, fun s hs => ?_⟩
  obtain ⟨n, hn⟩ := h.eventually s hs.of_untilStop
  refine ⟨n, fun m hm => ?_⟩
  show (X m).untilStop s = x.untilStop s
  rw [untilStop_apply, untilStop_apply, hn m hm]

theorem enterFunction {x : Run Value} {X : Nat → Run Value} (h : Settles x X) (parameter : String)
    (v : Value) :
    Settles (Eval.enterFunction parameter v x) fun n => Eval.enterFunction parameter v (X n) := by
  refine ⟨keepsBelow.enterFunction (X := fun _ => x) parameter v h.keeps,
    fun s hs => ?_⟩
  have hb := (h.keeps (s.callee parameter v)).1
  obtain ⟨n, hn⟩ := h.eventually _ (hs.of_enterFunction hb)
  refine ⟨n, fun m hm => ?_⟩
  -- the bodies further up keep the frames because they do what `x` does
  have hbm : ((X m).final (s.callee parameter v)).scope.below = s.scope.frames := by
    rw [final, hn m hm]
    exact hb
  show Eval.enterFunction parameter v (X m) s = Eval.enterFunction parameter v x s
  rw [enterFunction_apply hb, enterFunction_apply hbm, hn m hm]

theorem congruence : Congruence fun {_} x X => Settles x X where
  pure a := .const (keepsBelow.pure a)
  throw e := .const (keepsBelow.throw e)
  bind hx hf := hx.bind hf
  get name := .const (keepsBelow.get name)
  set name v := .const (keepsBelow.set name v)
  getItem c i := .const (keepsBelow.getItem c i)
  setItem c i v := .const (keepsBelow.setItem c i v)
  newArray := .const keepsBelow.newArray
  newDictionary := .const keepsBelow.newDictionary
  builtin b v := .const (keepsBelow.builtin b v)
  untilStop hx := hx.untilStop
  enterFunction parameter v hx := hx.enterFunction parameter v

/-- A run that never fits settles for every family. -/
theorem tooDeep (X : Nat → Run α) : Settles (fail .tooDeep) X :=
  ⟨keepsBelow.throw (.error .tooDeep), fun s hs => absurd rfl (hs s)⟩

/-- Where a run fits, the family that it settles for fits somewhere. -/
theorem exists_fits {s : Session} (h : Settles x X) (hs : x.Fits s) : ∃ n, (X n).Fits s := by
  obtain ⟨n, hn⟩ := h.eventually s hs
  exact ⟨n, hs.of_eq (hn n (Nat.le_refl n))⟩

/-- Two runs that fit and that settle for one family do the same. -/
theorem agree {y : Run α} {s : Session} (hx : Settles x X) (hy : Settles y X) (hxs : x.Fits s)
    (hys : y.Fits s) : x s = y s := by
  obtain ⟨n, hn⟩ := hx.eventually s hxs
  obtain ⟨k, hk⟩ := hy.eventually s hys
  rw [← hn (max n k) (by omega), ← hk (max n k) (by omega)]

end Settles

end Run

/-- More room to nest does not change an evaluation that fits. -/
theorem settles_eval (rounds depth : Nat) (e : Expr) :
    (eval rounds depth e).Settles fun n => eval rounds n e := by
  induction depth generalizing e with
  | zero => exact .tooDeep _
  | succ depth ih =>
    refine .of_succ ?_
    exact Run.Settles.congruence.node (F := fun n => eval rounds n) ih rounds e

end Scriptlet
