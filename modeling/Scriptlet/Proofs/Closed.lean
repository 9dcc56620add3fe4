import Scriptlet.Proofs.Growth
import Scriptlet.Proofs.Outcome

/-!
# References

`Session.Closed s`: every array and dictionary that a value of the session refers to is in its
store. Evaluations keep this, and what they come to refers to containers of the store as well
(`safe_eval`): a container is never taken away, so a reference that was good stays good. That is why
`Run.Safe` speaks of all stores that have grown out of a given one.

* `Session.Reached.closed`: sessions that scripts have come to are closed.
-/

namespace Scriptlet

/-- The value that leaves a function refers to a container of the store, if to one at all. -/
def Store.HasExit (s : Store) : Exit → Prop
  | .result v => s.Has v
  | _ => True

/-- No reference of the session leads nowhere. -/
def Session.Closed (s : Session) : Prop := s.Holds s.store.Has

theorem Value.IsScalar.has {v : Value} (h : v.IsScalar) (s : Store) : s.Has v := by
  cases v with
  | number x | text t => trivial
  | _ => exact h.elim

/-! ## Sessions -/

namespace Session.Closed

variable {s : Session}

theorem grow {store : Store} (h : s.Holds s.store.Has) (hg : s.store.Grows store)
    (hs : store.Holds store.Has) : Closed { s with store } :=
  ⟨fun f hf n v hv => hg.has (h.scope f hf n v hv), hs⟩

theorem get (h : s.Closed) (name : String) : s.store.Has (s.scope.get name) :=
  h.scope.get trivial name

theorem getItem (h : s.Closed) {c i v : Value} (hv : s.store.getItem c i = .ok v) :
    s.store.Has v :=
  h.store.getItem trivial hv

end Session.Closed

theorem Store.Holds.mono {V W : Value → Prop} {s : Store} (h : s.Holds V) (hW : ∀ v, V v → W v) :
    s.Holds W :=
  ⟨fun a v hv => hW v (h.items a v hv), fun a k v hv => hW v (h.entries a k v hv)⟩

/-! ## Runs -/

namespace Run

variable {α β : Type} {b c : Store}

/-- From every closed session whose store has grown out of a given one the run ends in a closed
session, with a store that has grown on and a result that is good there. -/
def Safe (b : Store) (V : Store → α → Prop) (x : Run α) : Prop :=
  ∀ s, b.Grows s.store → s.Closed → match x s with
    | .ok a t => s.store.Grows t.store ∧ t.Closed ∧ V t.store a
    | .error e t => s.store.Grows t.store ∧ t.Closed ∧ t.store.HasExit e

namespace Safe

variable {V : Store → α → Prop} {W : Store → β → Prop} {x : Run α} {f : α → Run β}

theorem pure {a : α} (h : ∀ c, b.Grows c → V c a) : (Pure.pure a : Run α).Safe b V :=
  fun s hb hs => ⟨.refl _, hs, h s.store hb⟩

theorem throw {e : Exit} (h : ∀ c, b.Grows c → c.HasExit e) :
    (MonadExcept.throw e : Run α).Safe b V :=
  fun s hb hs => ⟨.refl _, hs, h s.store hb⟩

theorem value {v : Value} (h : b.Has v) : (Pure.pure v : Run Value).Safe b Store.Has :=
  pure fun _ hc => hc.has h

theorem fail (e : EvalError) : (Run.fail e : Run α).Safe b V := throw fun _ _ => trivial

theorem bind (hx : x.Safe b V) (hf : ∀ a c, b.Grows c → V c a → (f a).Safe c W) :
    (x >>= f).Safe b W := by
  intro s hb hs
  have h := hx s hb hs
  rw [bind_apply]
  cases hxs : x s with
  | error e t =>
    rw [hxs] at h
    exact h
  | ok a t =>
    rw [hxs] at h
    obtain ⟨hst, ht, ha⟩ := h
    have h' := hf a t.store (hb.trans hst) ha t (.refl _) ht
    show match f a t with
      | .ok a u => s.store.Grows u.store ∧ u.Closed ∧ W u.store a
      | .error e u => s.store.Grows u.store ∧ u.Closed ∧ u.store.HasExit e
    cases hfa : f a t <;> rw [hfa] at h' <;> exact ⟨hst.trans h'.1, h'.2⟩

/-- A run whose result is of no use later. -/
theorem andThen {y : Run β} (hx : x.Safe b V) (hy : ∀ c, b.Grows c → y.Safe c W) :
    (do let _ ← x; y).Safe b W :=
  hx.bind fun _ c hc _ => hy c hc

theorem ofExcept (r : Except EvalError α) (h : ∀ a, r = .ok a → ∀ c, b.Grows c → V c a) :
    (Run.ofExcept r).Safe b V := by
  cases r with
  | ok a => exact pure (h a rfl)
  | error e => exact fail e

theorem get (name : String) : (Run.get name).Safe b Store.Has :=
  fun _ _ hs => ⟨.refl _, hs, hs.get name⟩

theorem set (name : String) {v : Value} (hv : b.Has v) :
    (Run.set name v).Safe b fun _ _ => True :=
  fun _ hb hs => ⟨.refl _, hs.set name (hb.has hv), trivial⟩

theorem getItem (c i : Value) : (Run.getItem c i).Safe b Store.Has := by
  intro s _ hs
  rw [getItem_apply]
  cases hv : s.store.getItem c i with
  | ok v => exact ⟨.refl _, hs, hs.getItem hv⟩
  | error e => exact ⟨.refl _, hs, trivial⟩

theorem setItem (c i : Value) {v : Value} (hv : b.Has v) :
    (Run.setItem c i v).Safe b fun _ _ => True := by
  intro s hb hs
  rw [setItem_apply]
  cases s.store.slot c i with
  | error e => exact ⟨.refl _, hs, trivial⟩
  | ok slot =>
    have hg := Store.Grows.write s.store slot v
    refine ⟨hg, .grow hs hg ?_, trivial⟩
    exact (hs.store.write slot (hb.has hv)).mono fun _ => hg.has

theorem newArray : (Run.newEmpty (·.newArray #[])).Safe b Store.Has := by
  intro s _ hs
  have hg := Store.Grows.newArray s.store #[]
  refine ⟨hg, .grow hs hg (hs.store.newArray.mono fun _ => hg.has), ?_⟩
  show s.store.arrays.size < (s.store.arrays.push #[]).size
  simp

theorem newDictionary : (Run.newEmpty (·.newDictionary ∅)).Safe b Store.Has := by
  intro s _ hs
  have hg := Store.Grows.newDictionary s.store ∅
  refine ⟨hg, .grow hs hg (hs.store.newDictionary.mono fun _ => hg.has), ?_⟩
  show s.store.dictionaries.size < (s.store.dictionaries.push ∅).size
  simp

theorem builtin (g : Builtin) {v : Value} (hv : b.Has v) : (g.call v).Safe b Store.Has := by
  intro s hb hs
  cases g with
  | print => exact ⟨.refl _, ⟨hs.scope, hs.store⟩, hb.has hv⟩
  | len =>
    rw [len_apply]
    cases s.store.length v with
    | ok n => exact ⟨.refl _, hs, trivial⟩
    | error e => exact ⟨.refl _, hs, trivial⟩

theorem apply (op : Operator) (v w : Value) :
    (Run.ofExcept (op.apply v w)).Safe b Store.Has :=
  ofExcept _ fun _ hu c _ => (Operator.apply_isScalar hu).has c

theorem unary (op : UnaryOp) {v : Value} (hv : b.Has v) : (op.apply v).Safe b Store.Has := by
  have number (g : Float → Float) :
      (do return .number (g (← Run.ofExcept v.toDouble)) : Run Value).Safe b Store.Has :=
    (ofExcept (V := fun _ _ => True) _ fun _ _ _ _ => trivial).bind fun _ _ _ _ => value trivial
  cases op with
  | plus => exact number fun x => x
  | minus => exact number fun x => -x
  | not => exact value trivial
  | result => exact throw fun _ hc => hc.has hv

theorem applyStrange (op : Form) (v w : Value) :
    (Eval.applyStrange op v w).Safe b Store.Has := by
  have double (c : Store) (v : Value) : (Run.ofExcept v.toDouble).Safe c fun _ _ => True :=
    ofExcept _ fun _ _ _ _ => trivial
  cases v with
  | number _ | null | text _ =>
    refine (double b _).andThen fun c _ => ?_
    refine (double c _).andThen fun _ _ => ?_
    exact throw fun _ _ => trivial
  | _ => exact fail _

/-- A break out of a loop carries nothing. -/
theorem untilStop (h : x.Safe b V) :
    x.untilStop.Safe b fun c r => ∀ a, r = some a → V c a := by
  intro s hb hs
  have hx := h s hb hs
  rw [untilStop_apply]
  cases hxs : x s with
  | ok a t =>
    rw [hxs] at hx
    exact ⟨hx.1, hx.2.1, fun a' ha => Option.some.inj ha ▸ hx.2.2⟩
  | error e t =>
    rw [hxs] at hx
    cases e with
    | stop => exact ⟨hx.1, hx.2.1, nofun⟩
    | _ => exact hx

/-- The body starts with its parameter bound, and the frames of the caller are good in the store
that the body leaves. -/
theorem enterFunction {x : Run Value} {p : String} {v : Value}
    (hb : ∀ s, (x.final s).scope.below = s.scope.below) (hv : b.Has v)
    (hx : x.Safe b Store.Has) : (Eval.enterFunction p v x).Safe b Store.Has := by
  intro s hbs hs
  have h := hx (s.callee p v) hbs (hs.callee p (hbs.has hv))
  rw [enterFunction_apply (hb (s.callee p v))]
  have back {t : Session} (hg : s.store.Grows t.store) (ht : t.Closed) :
      (t.returnTo s.scope).Closed :=
    ⟨fun f hf n w hw => hg.has (hs.scope f hf n w hw), ht.store⟩
  cases hxs : x (s.callee p v) with
  | ok a t =>
    rw [hxs] at h
    exact ⟨h.1, back h.1 h.2.1, h.2.2⟩
  | error e t =>
    rw [hxs] at h
    cases e <;> exact ⟨h.1, back h.1 h.2.1, h.2.2⟩

/-! ## Constructs over an evaluation of the parts -/

/-- Each repetition starts with a value of the condition before it, so the induction is on the
rounds that are left. -/
theorem loop {x y : Run Value} (hx : ∀ b, x.Safe b Store.Has) (hy : ∀ b, y.Safe b Store.Has)
    (rounds : Nat) {last : Value} (hl : b.Has last) :
    (Eval.loop x y rounds last).Safe b Store.Has := by
  induction rounds generalizing b last with
  | zero => exact throw fun _ _ => trivial
  | succ rounds ih =>
    refine (hx b).untilStop.bind fun r c hc hr => ?_
    cases r with
    | none => exact value (hc.has hl)
    | some v =>
      have hv : c.Has v := hr v rfl
      cases ht : v.isTrue with
      | false => simpa only [ht, Bool.false_eq_true, if_false] using value hv
      | true =>
        simp only [ht, if_true]
        refine (hy c).untilStop.bind fun r d hd _ => ?_
        cases r with
        | none => exact value (hd.has hv)
        | some _ => exact ih (hd.has hv)

section
variable {f : Expr → Run Value} (ih : ∀ e b, (f e).Safe b Store.Has)
include ih

theorem inTurn (e : Expr) (later : List Expr) : (Eval.inTurn f e later).Safe b Store.Has := by
  induction later generalizing e b with
  | nil => exact ih e b
  | cons next later ihl => exact (ih e b).andThen fun _ _ => ihl next

theorem applyInTurn {v : Value} (later : List (Operator × Expr)) (hv : b.Has v) :
    (Eval.applyInTurn f v later).Safe b Store.Has := by
  induction later generalizing v b with
  | nil => exact value hv
  | cons next later ihl =>
    obtain ⟨op, e⟩ := next
    refine (ih e b).bind fun w c _ _ => ?_
    refine (apply op v w).bind fun u d _ hu => ?_
    exact ihl hu

theorem branch (wanted : Bool) (cond body : Expr) (other : Option Expr) :
    (Eval.branch f wanted cond body other).Safe b Store.Has := by
  refine (ih cond b).bind fun v c _ hv => ?_
  split
  · exact ih body c
  · cases other with
    | none => exact value hv
    | some e => exact ih e c

theorem alternative (l r : Expr) : (Eval.alternative f l r).Safe b Store.Has := by
  unfold Eval.alternative
  split
  · exact branch ih _ _ _ _
  · exact fail _

theorem member (l r : Expr) : (Eval.member f l r).Safe b Store.Has := by
  refine (ih l b).bind fun v c _ _ => ?_
  split
  · exact getItem _ _
  · exact fail _
  · exact fail _

theorem write {v : Value} (hv : b.Has v) (target : Expr) :
    (Eval.write f v target).Safe b fun _ _ => True := by
  unfold Eval.write
  split
  · exact set _ hv
  · exact (ih _ b).bind fun _ _ hc _ => setItem _ _ (hc.has hv)
  · refine (ih _ b).bind fun i c hc _ => ?_
    refine (get _).bind fun _ d hd _ => ?_
    exact setItem _ i (hd.has (hc.has hv))
  · exact fail _

theorem assign (l r : Expr) : (Eval.assign f l r).Safe b Store.Has := by
  unfold Eval.assign
  split
  · exact (set _ (v := .function _ _) trivial).andThen fun _ _ => value trivial
  · exact fail _
  · refine (ih r b).bind fun v c _ hv => ?_
    refine (write ih hv _).andThen fun _ hd => ?_
    exact value (hd.has hv)

theorem element (name : String) (index : Expr) :
    (Eval.element f name index).Safe b Store.Has :=
  (get name).bind fun c d _ _ => (ih index d).bind fun i _ _ _ => getItem c i

theorem call (hb : ∀ e s, ((f e).final s).scope.below = s.scope.below) (name : String)
    (argument : Expr) : (Eval.call f name argument).Safe b Store.Has := by
  refine (ih argument b).bind fun v c _ hv => ?_
  refine (get name).bind fun g d hd _ => ?_
  cases g with
  | function p body => exact enterFunction (hb body) (hd.has hv) (ih body d)
  | builtin g => exact builtin g (hd.has hv)
  | _ => exact fail _

theorem binary (rounds : Nat) (op : BinaryOp) (l r : Expr) :
    (Eval.binary rounds f op l r).Safe b Store.Has := by
  cases op with
  | sequence => exact inTurn ih _ _
  | operator op => exact (ih _ b).bind fun v _ _ hv => applyInTurn ih _ hv
  | member => exact member ih l r
  | assign => exact assign ih l r
  | loop => exact loop (ih l) (ih r) rounds trivial
  | conditional wanted => exact branch ih wanted l r none
  | otherwise => exact alternative ih l r

theorem node (hb : ∀ e s, ((f e).final s).scope.below = s.scope.below) (rounds : Nat) (e : Expr) :
    (Eval.node rounds f e).Safe b Store.Has := by
  cases e with
  | number x | text s => exact value trivial
  | ident name => exact get name
  | root r =>
    cases r with
    | emptyArray => exact newArray
    | emptyDictionary => exact newDictionary
    | stop => exact throw fun _ _ => trivial
  | unary op e => exact (ih e b).bind fun _ _ _ hv => unary op hv
  | binary op l r => exact binary ih rounds op l r
  | element name index => exact element ih name index
  | call name argument => exact call ih hb name argument
  | strangeUnary op e => exact (ih e b).andThen fun _ _ => value trivial
  | strangeBinary op l r =>
    refine (ih l b).bind fun v c _ _ => ?_
    refine (ih r c).bind fun w _ _ _ => ?_
    exact applyStrange op v w
  | strange g => exact throw fun _ _ => trivial

end

end Safe

end Run

/-! ## Evaluations -/

theorem safe_eval (rounds depth : Nat) (e : Expr) (b : Store) :
    (eval rounds depth e).Safe b Store.Has := by
  induction depth generalizing e b with
  | zero => exact .fail .tooDeep
  | succ depth ih => exact .node ih (below_eval rounds depth) rounds e

theorem Session.Closed.eval_ok {rounds depth : Nat} {e : Expr} {s t : Session} {v : Value}
    (hs : s.Closed) (h : eval rounds depth e s = .ok v t) : t.Closed ∧ t.store.Has v := by
  have := safe_eval rounds depth e s.store s (.refl _) hs
  rw [h] at this
  exact this.2

/-- An evaluation of a closed session leaves a closed session. -/
theorem Session.Closed.evaluateWithin {s : Session} (hs : s.Closed) (limits : Limits) (e : Expr) :
    (s.evaluateWithin limits e).2.Closed := by
  have h := safe_eval limits.rounds limits.depth e s.store s (.refl _) hs
  rw [evaluateWithin_snd, Run.final]
  cases hr : eval limits.rounds limits.depth e s <;> rw [hr] at h <;> exact h.2.1

/-- In a session that scripts have come to, no reference leads nowhere. -/
theorem Session.Reached.closed {s : Session} (h : s.Reached) : s.Closed := by
  induction h with
  | start => exact (Session.Holds.initial _).withBuiltins trivial fun _ => trivial
  | @run s nesting limits source _ ih =>
    cases hp : Expr.ofTokensWithin nesting (Token.scan source) with
    | error e => rwa [runWithin_of_error hp]
    | ok e =>
      have hr : (s.record (.parsed source e)).Closed := Session.Holds.record ih _
      rw [runWithin_of_ok hp]
      exact hr.evaluateWithin limits e

end Scriptlet
