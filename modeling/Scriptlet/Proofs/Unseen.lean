import Scriptlet.Proofs.Frames

/-!
# What an evaluation does not look at

`Session.Unseen g`: the function `g` leaves the variables and the containers of a session alone and
goes well with everything that an evaluation does to it. Then it makes no difference whether `g` is
applied before an evaluation or after it (`Unseen.eval`). The log of a session and the text that has
been printed can be changed in such a way.
-/

namespace Scriptlet

/-- A result with the session that it leaves changed by a function. -/
def through (g : Session → Session) {α : Type} :
    EStateM.Result Exit Session α → EStateM.Result Exit Session α
  | .ok a s => .ok a (g s)
  | .error e s => .error e (g s)

/-- The function changes nothing that an evaluation looks at, and does not mind what one does. -/
structure Session.Unseen (g : Session → Session) : Prop where
  scope (s : Session) : (g s).scope = s.scope
  store (s : Session) : (g s).store = s.store
  update (s : Session) (scope : Scope) (store : Store) :
    g { s with scope, store } = { g s with scope, store }
  write (s : Session) (text : String) : g (s.write text) = (g s).write text
  record (s : Session) (event : Event) : g (s.record event) = (g s).record event

/-- It makes no difference whether the session is changed before the run or after it. -/
def Run.Ignores (g : Session → Session) {α : Type} (x : Run α) : Prop :=
  ∀ s, x (g s) = through g (x s)

namespace Run.Ignores

variable {g : Session → Session} {α β : Type}

theorem bind {x : Run α} {f : α → Run β} (hx : x.Ignores g) (hf : ∀ a, (f a).Ignores g) :
    (x >>= f).Ignores g := by
  intro s
  rw [bind_apply, bind_apply, hx s]
  cases x s with
  | ok a t => exact hf a t
  | error e t => rfl

theorem untilStop {x : Run α} (hx : x.Ignores g) : x.untilStop.Ignores g := by
  intro s
  rw [untilStop_apply, untilStop_apply, hx s]
  cases x s with
  | ok a t => rfl
  | error e t => cases e <;> rfl

theorem untilResult {x : Run Value} (hx : x.Ignores g) : x.untilResult.Ignores g := by
  intro s
  rw [Run.untilResult, Run.untilResult, hx s]
  cases x s with
  | ok a t => rfl
  | error e t => cases e <;> rfl

end Run.Ignores

namespace Session.Unseen

variable {g : Session → Session} (h : Unseen g)
include h

/-! ## Sessions -/

theorem withScope (s : Session) (scope : Scope) : g { s with scope } = { g s with scope } := by
  have hs := h.update s scope s.store
  rw [hs, ← h.store s]

theorem withStore (s : Session) (store : Store) : g { s with store } = { g s with store } := by
  have hs := h.update s s.scope store
  rw [hs, ← h.scope s]

theorem set (s : Session) (name : String) (v : Value) : g (s.set name v) = (g s).set name v := by
  rw [Session.set, Session.set, h.scope, h.withScope]

theorem enter (s : Session) : g s.enter = (g s).enter := by
  rw [Session.enter, Session.enter, h.record, h.withScope, h.scope]

theorem leave? (s : Session) : (g s).leave? = s.leave?.map g := by
  rw [Session.leave?, Session.leave?, h.scope]
  cases s.scope.leave? with
  | none => rfl
  | some scope => rw [Option.map_some, h.record, h.withScope s scope]

theorem restore (s : Session) (depth : Int) : g (s.restore depth) = (g s).restore depth := by
  rw [Session.restore, Session.restore, h.scope, h.withScope]

/-! ## Runs -/

theorem ignores_set (name : String) (v : Value) : (Run.set name v).Ignores g := by
  intro s
  rw [Run.set_apply, Run.set_apply, ← h.set]
  rfl

theorem ignores_newEmpty (new : Store → Value × Store) : (Run.newEmpty new).Ignores g := by
  have run (s : Session) :
      Run.newEmpty new s = .ok (new s.store).1 { s with store := (new s.store).2 } := rfl
  intro s
  rw [run, run, h.store, through, h.withStore s (new s.store).2]

theorem ignores_inFrame {α : Type} {x : Run α} (hx : x.Ignores g) : x.inFrame.Ignores g := by
  intro s
  rw [Run.inFrame, Run.inFrame, ← h.enter, hx s.enter]
  cases x s.enter with
  | ok a t | error e t =>
    simp only [through, h.leave?]
    cases t.leave? <;> rfl

theorem ignores_enterFunction {x : Run Value} (hx : x.Ignores g) (parameter : String)
    (v : Value) : (Eval.enterFunction parameter v x).Ignores g := by
  have body : (do
      Run.set parameter v
      x.untilResult : Run Value).inFrame.Ignores g := by
    refine h.ignores_inFrame ?_
    exact .bind (h.ignores_set parameter v) fun _ => .untilResult hx
  intro s
  have hs := body (s.record (.called parameter v))
  rw [h.record] at hs
  exact hs

theorem congruence : Run.Congruence (ι := Unit) fun {_} x _ => x.Ignores g where
  pure _ _ := rfl
  throw _ _ := rfl
  bind hx hf := .bind hx hf
  get name s := by
    rw [Run.get_apply, Run.get_apply, h.scope]
    rfl
  set name v := h.ignores_set name v
  getItem c i s := by
    rw [Run.getItem_apply, Run.getItem_apply, h.store]
    cases s.store.getItem c i <;> rfl
  setItem c i v s := by
    rw [Run.setItem_apply, Run.setItem_apply, h.store]
    cases s.store.slot c i with
    | ok slot => exact congrArg (EStateM.Result.ok ()) (h.withStore s _).symm
    | error e => rfl
  newArray := h.ignores_newEmpty _
  newDictionary := h.ignores_newEmpty _
  builtin b v s := by
    cases b with
    | print => exact congrArg (EStateM.Result.ok v) (h.write s _).symm
    | len =>
      rw [Run.len_apply, Run.len_apply, h.store]
      cases s.store.length v <;> rfl
  untilStop hx := .untilStop hx
  enterFunction parameter v hx := h.ignores_enterFunction hx parameter v

/-- It makes no difference whether the session is changed before an evaluation or after it. -/
theorem eval (rounds depth : Nat) (e : Expr) (s : Session) :
    Scriptlet.eval rounds depth e (g s) = through g (Scriptlet.eval rounds depth e s) := by
  induction depth generalizing e s with
  | zero => rfl
  | succ depth ih =>
    exact h.congruence.node (F := fun _ => Scriptlet.eval rounds depth) ih rounds e s

/-! ## Scripts -/

theorem evaluateWithin (limits : Limits) (s : Session) (e : Expr) :
    (g s).evaluateWithin limits e =
      ((s.evaluateWithin limits e).1, g (s.evaluateWithin limits e).2) := by
  unfold Session.evaluateWithin
  rw [h.eval]
  cases Scriptlet.eval limits.rounds limits.depth e s with
  | ok v t => rfl
  | error x t =>
    cases x with
    | error e =>
      cases e with
      | tooDeep => simp only [through, h.restore, h.scope]
      | _ => rfl
    | _ => rfl

theorem evaluate (s : Session) (e : Expr) :
    (g s).evaluate e = ((s.evaluate e).1, g (s.evaluate e).2) := by
  unfold Session.evaluate
  exact h.evaluateWithin .standard s e

theorem run (s : Session) (source : String) :
    (g s).run source = ((s.run source).1, g (s.run source).2) := by
  unfold Session.run
  cases Expr.parse source with
  | error e => rfl
  | ok e =>
    simp only [← h.record]
    exact h.evaluate _ e

end Session.Unseen

end Scriptlet
