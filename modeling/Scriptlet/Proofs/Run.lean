import Scriptlet.Eval

/-!
# Runs in a given session

What each step of the evaluator does in a given session. The proofs about evaluations cite these
equations and leave the monad closed.
-/

namespace Scriptlet

namespace Run

variable {α β : Type} (s : Session)

theorem bind_apply (x : Run α) (f : α → Run β) :
    (x >>= f) s = match x s with
      | .ok a t => f a t
      | .error e t => .error e t := by
  simp only [Bind.bind, EStateM.bind]
  cases x s <;> rfl

theorem bind_of_ok {x : Run α} {f : α → Run β} {s t : Session} {a : α} (h : x s = .ok a t) :
    (x >>= f) s = f a t := by
  rw [bind_apply, h]

theorem bind_of_error {x : Run α} {f : α → Run β} {s t : Session} {e : Exit}
    (h : x s = .error e t) : (x >>= f) s = .error e t := by
  rw [bind_apply, h]

theorem bind_eq_ok {x : Run α} {f : α → Run β} {s u : Session} {b : β}
    (h : (x >>= f) s = .ok b u) : ∃ a t, x s = .ok a t ∧ f a t = .ok b u := by
  rw [bind_apply] at h
  cases hx : x s with
  | ok a t =>
    rw [hx] at h
    exact ⟨a, t, rfl, h⟩
  | error e t =>
    rw [hx] at h
    cases h

theorem get_apply (name : String) : Run.get name s = .ok (s.scope.get name) s := rfl

theorem set_apply (name : String) (v : Value) : Run.set name v s = .ok () (s.set name v) := rfl

theorem ofExcept_apply (r : Except EvalError α) :
    ofExcept r s = match r with
      | .ok a => .ok a s
      | .error e => .error (.error e) s := by
  cases r <;> rfl

theorem getItem_apply (c i : Value) :
    getItem c i s = match s.store.getItem c i with
      | .ok v => .ok v s
      | .error e => .error (.error e) s := by
  have run : getItem c i s = ofExcept (s.store.getItem c i) s := rfl
  rw [run, ofExcept_apply]
  cases s.store.getItem c i <;> rfl

theorem setItem_apply (c i v : Value) :
    setItem c i v s = match s.store.slot c i with
      | .ok slot => .ok () { s with store := s.store.write slot v }
      | .error e => .error (.error e) s := by
  have run : setItem c i v s = (do
      let slot ← ofExcept (s.store.slot c i)
      modify fun s => { s with store := s.store.write slot v } : Run Unit) s := rfl
  rw [run, bind_apply, ofExcept_apply]
  cases s.store.slot c i <;> rfl

theorem len_apply (v : Value) :
    Builtin.len.call v s = match s.store.length v with
      | .ok n => .ok (.number (Double.ofNat n)) s
      | .error e => .error (.error e) s := by
  have run : Builtin.len.call v s = (do
      let n ← ofExcept (s.store.length v)
      return .number (Double.ofNat n) : Run Value) s := rfl
  rw [run, bind_apply, ofExcept_apply]
  cases s.store.length v <;> rfl

theorem untilStop_apply (x : Run α) :
    x.untilStop s = match x s with
      | .ok a t => .ok (some a) t
      | .error .stop t => .ok none t
      | .error e t => .error e t := rfl

/-! ## The session at the end -/

/-- The session that a run ends in, whether it comes to a value or exits. -/
def final (x : Run α) (s : Session) : Session :=
  match x s with
  | .ok _ t => t
  | .error _ t => t

theorem final_ok {x : Run α} {s t : Session} {a : α} (h : x s = .ok a t) : x.final s = t := by
  rw [final, h]

theorem final_error {x : Run α} {s t : Session} {e : Exit} (h : x s = .error e t) :
    x.final s = t := by
  rw [final, h]

theorem final_bind (x : Run α) (f : α → Run β) :
    (x >>= f).final s = match x s with
      | .ok a t => (f a).final t
      | .error _ t => t := by
  rw [final, bind_apply]
  cases x s <;> rfl

theorem final_untilStop (x : Run α) : x.untilStop.final s = x.final s := by
  rw [final, untilStop_apply, final]
  cases x s with
  | ok a t => rfl
  | error e t => cases e <;> rfl

end Run

/-- An assignment that does not define a function. -/
theorem Eval.assign_of_ne_call {f : Expr → Run Value} {target : Expr}
    (h : ∀ n a, target ≠ .call n a) (e : Expr) :
    Eval.assign f target e = (do
      let v ← f e
      Eval.write f v target
      return v) := by
  unfold Eval.assign
  split
  · exact absurd rfl (h _ _)
  · exact absurd rfl (h _ _)
  · rfl

end Scriptlet
