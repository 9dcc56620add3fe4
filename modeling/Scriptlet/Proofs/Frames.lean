import Scriptlet.Program
import Scriptlet.Proofs.Congruence
import Scriptlet.Proofs.Run

/-!
# What an evaluation leaves of the frames

`Session.Stable R`: the relation `R` between sessions is kept by every single effect of the
evaluator and by a call whose body keeps it. Then `R` holds between the sessions before and after
any evaluation, however it ends (`Stable.keeps_eval`). On the way a body is known to leave the
frames below its own as they are, so a call is its body followed by the frame of the caller
(`enterFunction_apply`).

* `evaluateWithin_extends`: an evaluation changes no frame but the newest one, where it only rebinds
  names and adds new ones at the end, and a call changes no frame of its caller.
-/

namespace Scriptlet

/-- The scope `t` is the scope `s` with names rebound in its newest frame or added to its end. -/
structure Scope.Extends (s t : Scope) : Prop where
  below : t.below = s.below
  top : ∃ added, t.top.names = s.top.names ++ added ∧ added.Nodup ∧ ∀ n ∈ added, n ∉ s.top.names

namespace Session

/-- The session in which the body of a called function starts. -/
def callee (s : Session) (parameter : String) (v : Value) : Session :=
  (s.record (.called parameter v)).enter.set parameter v

/-- A session with the frames of the caller put back. -/
def returnTo (t : Session) (caller : Scope) : Session :=
  { t with scope := caller }.record (.left caller.depth)

theorem leave?_of_below {s t : Session} (h : t.scope.below = s.scope.frames) :
    t.leave? = some (t.returnTo s.scope) := by
  unfold leave? Scope.leave?
  rw [h]
  rfl

/-- The relation `R` is kept by every effect of an evaluation. -/
structure Stable (R : Session → Session → Prop) : Prop where
  refl (s : Session) : R s s
  trans {s t u : Session} : R s t → R t u → R s u
  set (s : Session) (name : String) (v : Value) : R s (s.set name v)
  write (s : Session) (slot : Slot) (v : Value) : R s { s with store := s.store.write slot v }
  newArray (s : Session) : R s { s with store := (s.store.newArray #[]).2 }
  newDictionary (s : Session) : R s { s with store := (s.store.newDictionary ∅).2 }
  writeLine (s : Session) (text : String) : R s (s.writeLine text)
  call {s t : Session} {parameter : String} {v : Value} :
    t.scope.below = s.scope.frames → R (s.callee parameter v) t → R s (t.returnTo s.scope)

end Session

/-! ## Calls -/

/-- A call runs its body in a frame of its own and goes on in the frames of its caller, if the body
keeps what is below its frame. -/
theorem enterFunction_apply {x : Run Value} {s : Session} {parameter : String} {v : Value}
    (h : (x.final (s.callee parameter v)).scope.below = s.scope.frames) :
    Eval.enterFunction parameter v x s =
      match x (s.callee parameter v) with
      | .ok a t => .ok a (t.returnTo s.scope)
      | .error (.result a) t => .ok a (t.returnTo s.scope)
      | .error e t => .error e (t.returnTo s.scope) := by
  have run : Eval.enterFunction parameter v x s = (do
      Run.set parameter v
      x.untilResult : Run Value).inFrame (s.record (.called parameter v)) := rfl
  have body : (do
      Run.set parameter v
      x.untilResult : Run Value) (s.record (.called parameter v)).enter =
        x.untilResult (s.callee parameter v) := rfl
  rw [run, Run.inFrame, body, Run.untilResult]
  cases hx : x (s.callee parameter v) with
  | ok a t =>
    rw [Run.final_ok hx] at h
    simp only [Session.leave?_of_below h]
  | error e t =>
    rw [Run.final_error hx] at h
    cases e <;> simp only [Session.leave?_of_below h]

theorem final_enterFunction {x : Run Value} {s : Session} {parameter : String} {v : Value}
    (h : (x.final (s.callee parameter v)).scope.below = s.scope.frames) :
    (Eval.enterFunction parameter v x).final s =
      (x.final (s.callee parameter v)).returnTo s.scope := by
  rw [Run.final, enterFunction_apply h, Run.final]
  cases x (s.callee parameter v) with
  | ok a t => rfl
  | error e t => cases e <;> rfl

/-! ## Stable relations -/

/-- The relation `R` holds between the sessions before and after the run, which keeps the frames
below the newest one. The frames are in it because a call can only be opened for a body that keeps
them. -/
def Run.Keeps {α : Type} (R : Session → Session → Prop) (x : Run α) : Prop :=
  ∀ s, (x.final s).scope.below = s.scope.below ∧ R s (x.final s)

theorem Session.stable_true : Session.Stable fun _ _ => True where
  refl _ := trivial
  trans _ _ := trivial
  set _ _ _ := trivial
  write _ _ _ := trivial
  newArray _ := trivial
  newDictionary _ := trivial
  writeLine _ _ := trivial
  call _ _ := trivial

namespace Session.Stable

variable {R : Session → Session → Prop} (h : Stable R)
include h

theorem congruence : Run.Congruence (ι := Unit) fun {_} x _ => x.Keeps R where
  pure _ s := ⟨rfl, h.refl s⟩
  throw _ s := ⟨rfl, h.refl s⟩
  bind {α β x X f F} hx hf s := by
    obtain ⟨hb, hr⟩ := hx s
    rw [Run.final_bind]
    cases hxs : x s with
    | ok a t =>
      rw [Run.final_ok hxs] at hb hr
      obtain ⟨hb', hr'⟩ := hf a t
      exact ⟨hb'.trans hb, h.trans hr hr'⟩
    | error e t =>
      rw [Run.final_error hxs] at hb hr
      exact ⟨hb, hr⟩
  get _ s := ⟨rfl, h.refl s⟩
  set name v s := ⟨rfl, h.set s name v⟩
  getItem c i s := by
    rw [Run.final, Run.getItem_apply]
    cases s.store.getItem c i <;> exact ⟨rfl, h.refl s⟩
  setItem c i v s := by
    rw [Run.final, Run.setItem_apply]
    cases s.store.slot c i with
    | ok slot => exact ⟨rfl, h.write s slot v⟩
    | error e => exact ⟨rfl, h.refl s⟩
  newArray s := ⟨rfl, h.newArray s⟩
  newDictionary s := ⟨rfl, h.newDictionary s⟩
  builtin b v s := by
    cases b with
    | print => exact ⟨rfl, h.writeLine s v.display⟩
    | len =>
      rw [Run.final, Run.len_apply]
      cases s.store.length v <;> exact ⟨rfl, h.refl s⟩
  untilStop {α x X} hx s := by
    rw [Run.final_untilStop]
    exact hx s
  enterFunction {x X} parameter v hx s := by
    obtain ⟨hb, hr⟩ := hx (s.callee parameter v)
    rw [final_enterFunction hb]
    exact ⟨rfl, h.call hb hr⟩

theorem keeps_eval (rounds depth : Nat) (e : Expr) : (eval rounds depth e).Keeps R := by
  induction depth generalizing e with
  | zero => exact h.congruence.throw (.error .tooDeep)
  | succ depth ih => exact h.congruence.node (F := fun _ => eval rounds depth) ih rounds e

end Session.Stable

/-- An evaluation keeps the frames below the newest one. -/
theorem below_eval (rounds depth : Nat) (e : Expr) (s : Session) :
    ((eval rounds depth e).final s).scope.below = s.scope.below :=
  (Session.stable_true.keeps_eval rounds depth e s).1

/-! ## The newest frame -/

namespace Scope

theorem Extends.refl (s : Scope) : s.Extends s := ⟨rfl, [], by simp, by simp, by simp⟩

theorem Extends.trans {s t u : Scope} (h : s.Extends t) (h' : t.Extends u) : s.Extends u := by
  obtain ⟨hb, added, ht, hn, hs⟩ := h
  obtain ⟨hb', added', ht', hn', hs'⟩ := h'
  refine ⟨hb'.trans hb, added ++ added', by rw [ht', ht, List.append_assoc], ?_, fun n hm => ?_⟩
  · refine List.nodup_append.2 ⟨hn, hn', fun a ha b hb hab => hs' b hb ?_⟩
    rw [ht]
    exact List.mem_append_right _ (hab ▸ ha)
  · rcases List.mem_append.1 hm with hm | hm
    · exact hs n hm
    · intro hc
      exact hs' n hm (by rw [ht]; exact List.mem_append_left _ hc)

theorem Extends.set (s : Scope) (name : String) (v : Value) : s.Extends (s.set name v) := by
  refine ⟨rfl, ?_⟩
  rw [show (s.set name v).top.names = (s.top.set name v).names from rfl, Bindings.names_set]
  by_cases hn : s.top.binds name = true
  · exact ⟨[], by simp [hn], by simp, by simp⟩
  · refine ⟨[name], by simp [hn], by simp, fun n hm hc => hn ?_⟩
    rw [List.mem_singleton.1 hm] at hc
    exact Bindings.binds_eq_true_iff.2 hc

end Scope

theorem extends_stable : Session.Stable fun s t => s.scope.Extends t.scope where
  refl s := .refl s.scope
  trans h h' := h.trans h'
  set s name v := .set s.scope name v
  write s _ _ := .refl s.scope
  newArray s := .refl s.scope
  newDictionary s := .refl s.scope
  writeLine s _ := .refl s.scope
  call _ _ := .refl _

/-! ## Evaluations -/

/-- The frames that too deep an evaluation would have left are none, so nothing is dropped. -/
theorem evaluateWithin_snd (limits : Limits) (s : Session) (e : Expr) :
    (s.evaluateWithin limits e).2 = (eval limits.rounds limits.depth e).final s := by
  have hb := below_eval limits.rounds limits.depth e s
  unfold Session.evaluateWithin
  cases hr : eval limits.rounds limits.depth e s with
  | ok v t => rw [Run.final_ok hr]
  | error x t =>
    rw [Run.final_error hr] at hb ⊢
    have hd : s.scope.depth = t.scope.depth := by rw [Scope.depth, Scope.depth, hb]
    cases x with
    | error e => cases e <;> simp [Session.restore, hd]
    | _ => rfl

/-- A call ends in the frames that its argument was evaluated in. -/
theorem scope_final_call (rounds depth : Nat) (name : String) (argument : Expr) (s : Session) :
    ((eval rounds (depth + 1) (.call name argument)).final s).scope =
      ((eval rounds depth argument).final s).scope := by
  have run : eval rounds (depth + 1) (.call name argument) =
      Eval.call (eval rounds depth) name argument := rfl
  rw [run, Eval.call, Run.final_bind]
  cases ha : eval rounds depth argument s with
  | error x t => rw [Run.final_error ha]
  | ok v t =>
    rw [Run.final_ok ha]
    simp only [Run.final_bind, Run.get_apply]
    cases t.scope.get name with
    | function parameter body =>
      simp only [final_enterFunction (below_eval rounds depth body _)]
      rfl
    | builtin b =>
      cases b with
      | print => rfl
      | len =>
        simp only [Run.final, Run.len_apply]
        cases t.store.length v <;> rfl
    | _ => rfl

/-- An evaluation, however it ends, leaves as many frames as there were. It changes no frame but the
newest one, where it rebinds names and adds new ones behind them, and a call changes no frame at all
after its argument. -/
theorem evaluateWithin_extends (limits : Limits) (s : Session) (e : Expr) :
    (s.evaluateWithin limits e).2.scope.depth = s.scope.depth ∧
      s.scope.Extends (s.evaluateWithin limits e).2.scope ∧
      ∀ (t : Session) (depth : Nat) (name : String) (argument : Expr),
        ((eval limits.rounds (depth + 1) (.call name argument)).final t).scope =
          ((eval limits.rounds depth argument).final t).scope := by
  obtain ⟨hb, he⟩ := extends_stable.keeps_eval limits.rounds limits.depth e s
  rw [evaluateWithin_snd]
  refine ⟨by rw [Scope.depth, Scope.depth, hb], he, fun t depth name argument => ?_⟩
  exact scope_final_call limits.rounds depth name argument t

end Scriptlet
