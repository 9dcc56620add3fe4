import Scriptlet.Eval

/-!
# Relations that the evaluator keeps

`Run.Congruence Φ`: the relation `Φ` between a run and a family of runs holds for the steps that
touch the session and is kept by sequencing, by leaving a loop and by calling a function. Nothing
else goes into the evaluation of a tree, so trees are related as soon as their parts are
(`Congruence.node`). What a run does to its session is such a relation (the family is ignored), and
so is how a run compares with the runs that have more room to nest.
-/

namespace Scriptlet

/-- The relation `Φ` is kept by everything that the evaluator is made of. -/
structure Run.Congruence {ι : Type} (Φ : ∀ {α : Type}, Run α → (ι → Run α) → Prop) : Prop where
  pure {α : Type} (a : α) : Φ (Pure.pure a) fun _ => Pure.pure a
  throw {α : Type} (x : Exit) : Φ (MonadExcept.throw x : Run α) fun _ => MonadExcept.throw x
  bind {α β : Type} {x : Run α} {X : ι → Run α} {f : α → Run β} {F : ι → α → Run β} :
    Φ x X → (∀ a, Φ (f a) fun i => F i a) → Φ (x >>= f) fun i => X i >>= F i
  get (name : String) : Φ (Run.get name) fun _ => Run.get name
  set (name : String) (v : Value) : Φ (Run.set name v) fun _ => Run.set name v
  getItem (c i : Value) : Φ (Run.getItem c i) fun _ => Run.getItem c i
  setItem (c i v : Value) : Φ (Run.setItem c i v) fun _ => Run.setItem c i v
  newArray : Φ (Run.newEmpty (·.newArray #[])) fun _ => Run.newEmpty (·.newArray #[])
  newDictionary : Φ (Run.newEmpty (·.newDictionary ∅)) fun _ => Run.newEmpty (·.newDictionary ∅)
  builtin (b : Builtin) (v : Value) : Φ (b.call v) fun _ => b.call v
  untilStop {α : Type} {x : Run α} {X : ι → Run α} :
    Φ x X → Φ x.untilStop fun i => (X i).untilStop
  enterFunction {x : Run Value} {X : ι → Run Value} (parameter : String) (v : Value) :
    Φ x X → Φ (Eval.enterFunction parameter v x) fun i => Eval.enterFunction parameter v (X i)

namespace Run.Congruence

variable {ι : Type} {Φ : ∀ {α : Type}, Run α → (ι → Run α) → Prop} (h : Congruence Φ)
include h

/-! ## Values that do not depend on the session -/

theorem ofExcept {α : Type} (r : Except EvalError α) :
    Φ (Run.ofExcept r) fun _ => Run.ofExcept r := by
  cases r with
  | ok a => exact h.pure a
  | error e => exact h.throw (.error e)

theorem unary (op : UnaryOp) (v : Value) : Φ (op.apply v) fun _ => op.apply v := by
  cases op with
  | plus => exact h.bind (h.ofExcept _) fun x => h.pure (Value.number x)
  | minus => exact h.bind (h.ofExcept _) fun x => h.pure (Value.number (-x))
  | not => exact h.pure _
  | result => exact h.throw (.result v)

theorem applyStrange (op : Form) (v w : Value) :
    Φ (Eval.applyStrange op v w) fun _ => Eval.applyStrange op v w := by
  cases v with
  | number _ | null | text _ =>
    refine h.bind (h.ofExcept _) fun _ => ?_
    refine h.bind (h.ofExcept _) fun _ => ?_
    exact h.throw _
  | _ => exact h.throw _

/-! ## Constructs over an evaluation of the parts -/

/-- Each repetition is a step of its own, so the induction is on the rounds that are left. -/
theorem loop {c b : Run Value} {C B : ι → Run Value} (hc : Φ c C) (hb : Φ b B) (rounds : Nat)
    (last : Value) : Φ (Eval.loop c b rounds last) fun i => Eval.loop (C i) (B i) rounds last := by
  induction rounds generalizing last with
  | zero => exact h.throw .unfinished
  | succ rounds ih =>
    refine h.bind (h.untilStop hc) fun r => ?_
    cases r with
    | none => exact h.pure last
    | some v =>
      cases hv : v.isTrue with
      | false => simpa only [hv, Bool.false_eq_true, if_false] using h.pure v
      | true =>
        simp only [hv, if_true]
        refine h.bind (h.untilStop hb) fun r => ?_
        cases r with
        | none => exact h.pure v
        | some _ => exact ih v

section
variable {f : Expr → Run Value} {F : ι → Expr → Run Value} (ih : ∀ e, Φ (f e) fun i => F i e)
include ih

theorem inTurn (e : Expr) (later : List Expr) :
    Φ (Eval.inTurn f e later) fun i => Eval.inTurn (F i) e later := by
  induction later generalizing e with
  | nil => exact ih e
  | cons next later ihl => exact h.bind (ih e) fun _ => ihl next

theorem applyInTurn (v : Value) (later : List (Operator × Expr)) :
    Φ (Eval.applyInTurn f v later) fun i => Eval.applyInTurn (F i) v later := by
  induction later generalizing v with
  | nil => exact h.pure v
  | cons next later ihl =>
    obtain ⟨op, e⟩ := next
    refine h.bind (ih e) fun w => ?_
    refine h.bind (h.ofExcept (op.apply v w)) fun u => ?_
    exact ihl u

theorem branch (wanted : Bool) (c e : Expr) (other : Option Expr) :
    Φ (Eval.branch f wanted c e other) fun i => Eval.branch (F i) wanted c e other := by
  refine h.bind (ih c) fun v => ?_
  split
  · exact ih e
  · cases other with
    | none => exact h.pure v
    | some e => exact ih e

theorem alternative (l r : Expr) :
    Φ (Eval.alternative f l r) fun i => Eval.alternative (F i) l r := by
  unfold Eval.alternative
  split
  · exact h.branch ih _ _ _ _
  · exact h.throw _

theorem member (l r : Expr) : Φ (Eval.member f l r) fun i => Eval.member (F i) l r := by
  refine h.bind (ih l) fun v => ?_
  split
  · exact h.getItem _ _
  · exact h.throw _
  · exact h.throw _

theorem write (v : Value) (target : Expr) :
    Φ (Eval.write f v target) fun i => Eval.write (F i) v target := by
  unfold Eval.write
  split
  · exact h.set _ v
  · exact h.bind (ih _) fun c => h.setItem c _ v
  · refine h.bind (ih _) fun i => ?_
    refine h.bind (h.get _) fun c => ?_
    exact h.setItem c i v
  · exact h.throw _

theorem assign (l r : Expr) : Φ (Eval.assign f l r) fun i => Eval.assign (F i) l r := by
  unfold Eval.assign
  split
  · exact h.bind (h.set _ _) fun _ => h.pure _
  · exact h.throw _
  · refine h.bind (ih r) fun v => ?_
    refine h.bind (h.write ih v _) fun _ => ?_
    exact h.pure v

theorem element (name : String) (index : Expr) :
    Φ (Eval.element f name index) fun i => Eval.element (F i) name index := by
  refine h.bind (h.get name) fun c => ?_
  refine h.bind (ih index) fun i => ?_
  exact h.getItem c i

theorem call (name : String) (argument : Expr) :
    Φ (Eval.call f name argument) fun i => Eval.call (F i) name argument := by
  refine h.bind (ih argument) fun v => ?_
  refine h.bind (h.get name) fun c => ?_
  cases c with
  | function parameter body => exact h.enterFunction parameter v (ih body)
  | builtin b => exact h.builtin b v
  | _ => exact h.throw _

theorem binary (rounds : Nat) (op : BinaryOp) (l r : Expr) :
    Φ (Eval.binary rounds f op l r) fun i => Eval.binary rounds (F i) op l r := by
  cases op with
  | sequence => exact h.inTurn ih _ _
  | operator op => exact h.bind (ih _) fun v => h.applyInTurn ih v _
  | member => exact h.member ih l r
  | assign => exact h.assign ih l r
  | loop => exact h.loop (ih l) (ih r) rounds .null
  | conditional wanted => exact h.branch ih wanted l r none
  | otherwise => exact h.alternative ih l r

/-- Trees are related if their parts are. -/
theorem node (rounds : Nat) (e : Expr) :
    Φ (Eval.node rounds f e) fun i => Eval.node rounds (F i) e := by
  cases e with
  | number x => exact h.pure _
  | text s => exact h.pure _
  | ident name => exact h.get name
  | root r =>
    cases r with
    | emptyArray => exact h.newArray
    | emptyDictionary => exact h.newDictionary
    | stop => exact h.throw .stop
  | unary op e => exact h.bind (ih e) fun v => h.unary op v
  | binary op l r => exact h.binary ih rounds op l r
  | element name index => exact h.element ih name index
  | call name argument => exact h.call ih name argument
  | strangeUnary op e => exact h.bind (ih e) fun _ => h.pure Value.null
  | strangeBinary op l r =>
    refine h.bind (ih l) fun v => ?_
    refine h.bind (ih r) fun w => ?_
    exact h.applyStrange op v w
  | strange f => exact h.throw _

end

end Run.Congruence

end Scriptlet
