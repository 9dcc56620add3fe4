import Scriptlet.Proofs.Frames

/-!
# Invariants of evaluation

`Run.Meets S X V x`: from every session in `S` the run `x` comes to a value in `V` or leaves by an
exit in `X`, and ends in a session in `S`. An `Invariant` is a choice of such sets, with one of
trees and one of names, that no single step of the evaluator leads out of. Other than a
`Session.Stable` relation it may tell trees and values apart, so it can speak of what a tree does
not do.

* `Invariant.eval`: the evaluation of a tree in the invariant stays in it, however it ends.
-/

namespace Scriptlet

/-- The subtrees that the evaluation of a tree may evaluate, each at its time. The right side of a
function definition is none of them. -/
def Expr.parts : Expr → List Expr
  | unary _ e => [e]
  | binary .assign (call _ _) _ => []
  | binary _ l r => [l, r]
  | element _ index => [index]
  | call _ argument => [argument]
  | strangeUnary _ e => [e]
  | strangeBinary _ l r => [l, r]
  | _ => []

/-- Only the definition of a function has sides that are no parts. -/
theorem Expr.parts_binary {op : BinaryOp} {l r : Expr}
    (h : op = .assign → ∀ name parameter, l ≠ .call name parameter) :
    parts (.binary op l r) = [l, r] := by
  cases op with
  | assign =>
    cases l with
    | call name parameter => exact absurd rfl (h rfl name parameter)
    | _ => simp [parts]
  | _ => simp [parts]

namespace Run

variable {α β : Type} {S : Session → Prop} {X : Exit → Prop} {V : α → Prop} {W : β → Prop}

/-- From every session in `S` the run comes to a value in `V` or leaves by an exit in `X`, and it
ends in a session in `S`. -/
def Meets (S : Session → Prop) (X : Exit → Prop) (V : α → Prop) (x : Run α) : Prop :=
  ∀ s, S s → match x s with
    | .ok a t => V a ∧ S t
    | .error e t => X e ∧ S t

namespace Meets

variable {x : Run α} {f : α → Run β}

theorem ok (h : x.Meets S X V) {s t : Session} {a : α} (hs : S s) (hx : x s = .ok a t) :
    V a ∧ S t := by
  have := h s hs
  rwa [hx] at this

theorem error (h : x.Meets S X V) {s t : Session} {e : Exit} (hs : S s) (hx : x s = .error e t) :
    X e ∧ S t := by
  have := h s hs
  rwa [hx] at this

theorem pure {a : α} (h : V a) : (Pure.pure a : Run α).Meets S X V := fun _ hs => ⟨h, hs⟩

theorem throw {e : Exit} (h : X e) : (MonadExcept.throw e : Run α).Meets S X V :=
  fun _ hs => ⟨h, hs⟩

theorem bind (hx : x.Meets S X V) (hf : ∀ a, V a → (f a).Meets S X W) :
    (x >>= f).Meets S X W := by
  intro s hs
  have h := hx s hs
  rw [bind_apply]
  cases hxs : x s with
  | ok a t =>
    rw [hxs] at h
    exact hf a h.1 t h.2
  | error e t =>
    rw [hxs] at h
    exact h

/-- A loop that is left comes to no value of the part that left it. -/
theorem untilStop (h : x.Meets S X V) :
    x.untilStop.Meets S (fun e => X e ∧ e ≠ .stop) fun o => ∀ a, o = some a → V a := by
  intro s hs
  have hx := h s hs
  rw [untilStop_apply]
  cases hxs : x s with
  | ok a t =>
    rw [hxs] at hx
    exact ⟨fun b hb => Option.some.inj hb ▸ hx.1, hx.2⟩
  | error e t =>
    rw [hxs] at hx
    cases e with
    | stop => exact ⟨nofun, hx.2⟩
    | _ => exact ⟨⟨hx.1, by simp⟩, hx.2⟩

theorem mono {S : Session → Prop} {X Y : Exit → Prop} {V V' : α → Prop} (h : x.Meets S X V)
    (hX : ∀ e, X e → Y e) (hV : ∀ a, V a → V' a) : x.Meets S Y V' := by
  intro s hs
  have hx := h s hs
  cases hxs : x s with
  | ok a t =>
    rw [hxs] at hx
    exact ⟨hV a hx.1, hx.2⟩
  | error e t =>
    rw [hxs] at hx
    exact ⟨hX e hx.1, hx.2⟩

/-- Each repetition starts with a value of the condition before it, so the induction is on the
rounds that are left. The loop lets no break out. -/
theorem loop {c b : Run Value} {V W : Value → Prop} (hc : c.Meets S X V) (hb : b.Meets S X W)
    (hu : X .unfinished) (rounds : Nat) {last : Value} (hl : V last) :
    (Eval.loop c b rounds last).Meets S (fun e => X e ∧ e ≠ .stop) V := by
  induction rounds generalizing last with
  | zero => exact throw ⟨hu, by simp⟩
  | succ rounds ih =>
    refine bind hc.untilStop fun r hr => ?_
    cases r with
    | none => exact pure hl
    | some v =>
      have hv : V v := hr v rfl
      cases ht : v.isTrue with
      | false => simpa only [ht, Bool.false_eq_true, if_false] using pure hv
      | true =>
        simp only [ht, if_true]
        refine bind hb.untilStop fun r _ => ?_
        cases r with
        | none => exact pure hv
        | some _ => exact ih hv

/-- A call starts in a session of its own and goes back to the frames of the caller. -/
theorem enterFunction {x : Run Value} {V : Value → Prop} {p : String} {v : Value}
    (hb : ∀ s, (x.final s).scope.below = s.scope.below) (hr : ∀ w, X (.result w) → V w)
    (hc : ∀ s, S s → S (s.callee p v)) (ht : ∀ s t, S s → S t → S (t.returnTo s.scope))
    (hx : x.Meets S X V) : (Eval.enterFunction p v x).Meets S X V := by
  intro s hs
  have h := hx (s.callee p v) (hc s hs)
  rw [enterFunction_apply (hb (s.callee p v))]
  cases hxs : x (s.callee p v) with
  | ok a t =>
    rw [hxs] at h
    exact ⟨h.1, ht s t hs h.2⟩
  | error e t =>
    rw [hxs] at h
    cases e with
    | result w => exact ⟨hr w h.1, ht s t hs h.2⟩
    | _ => exact ⟨h.1, ht s t hs h.2⟩

end Meets

end Run

/-! ## Results of operators -/

theorem Operator.numeric_eq_ok {op : Operator} {v w u : Value} (h : op.numeric v w = .ok u) :
    ∃ a b, v.toDouble = .ok a ∧ w.toDouble = .ok b ∧ u = op.onDoubles a b := by
  unfold Operator.numeric at h
  cases hv : v.toDouble with
  | error e => simp [hv, bind, Except.bind] at h
  | ok a =>
    cases hw : w.toDouble with
    | error e => simp [hv, hw, bind, Except.bind] at h
    | ok b =>
      simp only [hv, hw, bind, Except.bind, pure, Except.pure, Except.ok.injEq] at h
      exact ⟨a, b, rfl, rfl, h.symm⟩

/-- The value is a number or a text. -/
def Value.IsScalar : Value → Prop
  | number _ => True
  | text _ => True
  | _ => False

theorem Operator.numeric_isScalar {op : Operator} {v w u : Value} (h : op.numeric v w = .ok u) :
    u.IsScalar := by
  obtain ⟨x, y, -, -, rfl⟩ := Operator.numeric_eq_ok h
  cases op <;> trivial

theorem Operator.apply_isScalar {op : Operator} {v w u : Value} (h : op.apply v w = .ok u) :
    u.IsScalar := by
  have text (f : String → Value) (hf : ∀ s, (f s).IsScalar)
      (h : (do return f (← w.toText) : Except EvalError Value) = .ok u) : u.IsScalar := by
    cases hw : w.toText with
    | error e => simp [hw, bind, Except.bind] at h
    | ok s =>
      obtain rfl : f s = u := by simpa [hw, bind, Except.bind, pure, Except.pure] using h
      exact hf s
  unfold Operator.apply at h
  split at h
  · exact numeric_isScalar h
  · exact numeric_isScalar h
  · rename_i s
    split at h
    · exact text (fun t => .text (s ++ t)) (fun _ => trivial) h
    · rename_i c
      exact text (fun t => .ofBool (c.ofTexts s t)) (fun _ => trivial) h
    · exact numeric_isScalar h
  · cases h

theorem Operator.apply_ne_function {op : Operator} {v w : Value} (p : String) (b : Expr) :
    op.apply v w ≠ .ok (.function p b) :=
  fun h => (apply_isScalar h).elim

/-! ## Invariants -/

/-- Sets of names, trees, values, exits and sessions that no step of an evaluation leads out of.
Every error is in the set of exits, and every value that is no function in the set of values. -/
structure Invariant where
  name : String → Prop
  tree : Expr → Prop
  value : Value → Prop
  exit : Exit → Prop
  session : Session → Prop
  part {e p : Expr} : tree e → p ∈ e.parts → tree p
  target {n : String} {e : Expr} : tree (.binary .assign (.ident n) e) → name n
  definition {n p : String} {b : Expr} :
    tree (.binary .assign (.call n (.ident p)) b) → name n ∧ value (.function p b)
  plain {v : Value} : (∀ p b, v ≠ .function p b) → value v
  error (e : EvalError) : exit (.error e)
  unfinished : exit .unfinished
  stop : tree (.root .stop) → exit .stop
  result {e : Expr} {v : Value} : tree (.unary .result e) → value v → exit (.result v)
  notATree {f : Form} : tree (.strange f) → exit (.defect (.notATree f))
  noSuchOperator {op : Form} {l r : Expr} :
    tree (.strangeBinary op l r) → exit (.defect (.noSuchOperator op))
  get {s : Session} (n : String) : session s → value (s.scope.get n)
  item {s : Session} {c i v : Value} : session s → s.store.getItem c i = .ok v → value v
  set {s : Session} {n : String} {v : Value} :
    session s → name n → value v → session (s.set n v)
  write {s : Session} {c i v : Value} {slot : Slot} : session s → s.store.slot c i = .ok slot →
    value v → session { s with store := s.store.write slot v }
  newArray {s : Session} : session s → session { s with store := (s.store.newArray #[]).2 }
  newDictionary {s : Session} :
    session s → session { s with store := (s.store.newDictionary ∅).2 }
  writeLine {s : Session} (text : String) : session s → session (s.writeLine text)
  call {p : String} {b : Expr} {v : Value} {x : Run Value} :
    (∀ s, (x.final s).scope.below = s.scope.below) → value (.function p b) → value v →
    (tree b → x.Meets session exit value) →
    (Eval.enterFunction p v x).Meets session exit value

namespace Invariant

variable (I : Invariant)

/-- The run stays in the invariant and comes to a value in a given set. -/
abbrev Meets {α : Type} (V : α → Prop) (x : Run α) : Prop := x.Meets I.session I.exit V

/-! ## Single steps -/

section
variable {I} {α : Type}

theorem meets_ofExcept {V : α → Prop} (r : Except EvalError α) (h : ∀ a, r = .ok a → V a) :
    I.Meets V (Run.ofExcept r) := by
  cases r with
  | ok a => exact .pure (h a rfl)
  | error e => exact .throw (I.error e)

theorem meets_get (n : String) : I.Meets I.value (Run.get n) := fun _ hs => ⟨I.get n hs, hs⟩

theorem meets_set {n : String} {v : Value} (hn : I.name n) (hv : I.value v) :
    I.Meets (fun _ => True) (Run.set n v) := fun _ hs => ⟨trivial, I.set hs hn hv⟩

theorem meets_getItem (c i : Value) : I.Meets I.value (Run.getItem c i) := by
  intro s hs
  rw [Run.getItem_apply]
  cases h : s.store.getItem c i with
  | ok v => exact ⟨I.item hs h, hs⟩
  | error e => exact ⟨I.error e, hs⟩

theorem meets_setItem (c i : Value) {v : Value} (hv : I.value v) :
    I.Meets (fun _ => True) (Run.setItem c i v) := by
  intro s hs
  rw [Run.setItem_apply]
  cases h : s.store.slot c i with
  | ok slot => exact ⟨trivial, I.write hs h hv⟩
  | error e => exact ⟨I.error e, hs⟩

theorem meets_builtin (b : Builtin) {v : Value} (hv : I.value v) : I.Meets I.value (b.call v) := by
  intro s hs
  cases b with
  | print => exact ⟨hv, I.writeLine _ hs⟩
  | len =>
    rw [Run.len_apply]
    cases s.store.length v with
    | ok n => exact ⟨I.plain (by simp), hs⟩
    | error e => exact ⟨I.error e, hs⟩

theorem meets_apply (op : Operator) (v w : Value) : I.Meets I.value (Run.ofExcept (op.apply v w)) :=
  meets_ofExcept _ fun _ h => I.plain fun p b hu => op.apply_ne_function p b (hu ▸ h)

theorem meets_unary {op : UnaryOp} {e : Expr} {v : Value} (he : I.tree (.unary op e))
    (hv : I.value v) : I.Meets I.value (op.apply v) := by
  have number (f : Float → Float) :
      I.Meets I.value (do return .number (f (← Run.ofExcept v.toDouble))) :=
    .bind (V := fun _ => True) (meets_ofExcept _ fun _ _ => trivial) fun _ _ =>
      .pure (I.plain (by simp))
  cases op with
  | plus => exact number fun x => x
  | minus => exact number fun x => -x
  | not => exact .pure (I.plain (by simp [Value.ofBool]))
  | result => exact .throw (I.result he hv)

theorem meets_applyStrange {op : Form} {l r : Expr} (he : I.tree (.strangeBinary op l r))
    (v w : Value) : I.Meets I.value (Eval.applyStrange op v w) := by
  have double (v : Value) : I.Meets (fun _ => True) (Run.ofExcept v.toDouble) :=
    meets_ofExcept _ fun _ _ => trivial
  cases v with
  | number _ | null | text _ =>
    refine .bind (double _) fun _ _ => ?_
    refine .bind (double _) fun _ _ => ?_
    exact .throw (I.noSuchOperator he)
  | _ => exact .throw (I.error _)

theorem tree_statements {e : Expr} {later : List Expr} (he : I.tree e)
    (hl : ∀ r ∈ later, I.tree r) :
    I.tree (e.statements later).1 ∧ ∀ r ∈ (e.statements later).2, I.tree r := by
  fun_induction Expr.statements e later with
  | case1 later l r ih =>
    exact ih (I.part he (by simp [Expr.parts]))
      (List.forall_mem_cons.2 ⟨I.part he (by simp [Expr.parts]), hl⟩)
  | case2 e later _ => exact ⟨he, hl⟩

theorem tree_operands {e : Expr} {later : List (Operator × Expr)} (he : I.tree e)
    (hl : ∀ r ∈ later, I.tree r.2) :
    I.tree (e.operands later).1 ∧ ∀ r ∈ (e.operands later).2, I.tree r.2 := by
  fun_induction Expr.operands e later with
  | case1 later op l r ih =>
    exact ih (I.part he (by simp [Expr.parts]))
      (List.forall_mem_cons.2 ⟨I.part he (by simp [Expr.parts]), hl⟩)
  | case2 e later _ => exact ⟨he, hl⟩

end

/-! ## Constructs over an evaluation of the parts -/

section
variable {I} {f : Expr → Run Value} (ih : ∀ e, I.tree e → I.Meets I.value (f e))
include ih

theorem meets_inTurn {e : Expr} {later : List Expr} (he : I.tree e) (hl : ∀ r ∈ later, I.tree r) :
    I.Meets I.value (Eval.inTurn f e later) := by
  induction later generalizing e with
  | nil => exact ih e he
  | cons next later ihl =>
    obtain ⟨hn, hl⟩ := List.forall_mem_cons.1 hl
    exact .bind (ih e he) fun _ _ => ihl hn hl

theorem meets_applyInTurn {v : Value} {later : List (Operator × Expr)} (hv : I.value v)
    (hl : ∀ r ∈ later, I.tree r.2) : I.Meets I.value (Eval.applyInTurn f v later) := by
  induction later generalizing v with
  | nil => exact .pure hv
  | cons next later ihl =>
    obtain ⟨op, e⟩ := next
    obtain ⟨hn, hl⟩ := List.forall_mem_cons.1 hl
    refine .bind (ih e hn) fun w _ => ?_
    exact .bind (meets_apply op v w) fun u hu => ihl hu hl

theorem meets_branch {wanted : Bool} {c b : Expr} {o : Option Expr} (hc : I.tree c)
    (hb : I.tree b) (ho : ∀ e, o = some e → I.tree e) :
    I.Meets I.value (Eval.branch f wanted c b o) := by
  refine .bind (ih c hc) fun v hv => ?_
  split
  · exact ih b hb
  · cases o with
    | none => exact .pure hv
    | some e => exact ih e (ho e rfl)

theorem meets_alternative {l r : Expr} (he : I.tree (.binary .otherwise l r)) :
    I.Meets I.value (Eval.alternative f l r) := by
  have hl : I.tree l := I.part he (by simp [Expr.parts])
  have hr : I.tree r := I.part he (by simp [Expr.parts])
  unfold Eval.alternative
  split
  · exact meets_branch ih (I.part hl (by simp [Expr.parts])) (I.part hl (by simp [Expr.parts]))
      fun e h => Option.some.inj h ▸ hr
  · exact .throw (I.error _)

theorem meets_member {l r : Expr} (he : I.tree (.binary .member l r)) :
    I.Meets I.value (Eval.member f l r) := by
  refine .bind (ih l (I.part he (by simp [Expr.parts]))) fun v _ => ?_
  split
  · exact meets_getItem _ _
  · exact .throw (I.error _)
  · exact .throw (I.error _)

theorem meets_write {v : Value} {t e : Expr} (he : I.tree (.binary .assign t e))
    (ht : I.tree t) (hv : I.value v) : I.Meets (fun _ => True) (Eval.write f v t) := by
  unfold Eval.write
  split
  · exact meets_set (I.target he) hv
  · exact .bind (ih _ (I.part ht (by simp [Expr.parts]))) fun c _ => meets_setItem c _ hv
  · refine .bind (ih _ (I.part ht (by simp [Expr.parts]))) fun i _ => ?_
    refine .bind (meets_get _) fun c _ => ?_
    exact meets_setItem c i hv
  · exact .throw (I.error _)

theorem meets_assign {l r : Expr} (he : I.tree (.binary .assign l r)) :
    I.Meets I.value (Eval.assign f l r) := by
  unfold Eval.assign
  split
  · obtain ⟨hn, hv⟩ := I.definition he
    exact .bind (meets_set hn hv) fun _ _ => .pure hv
  · exact .throw (I.error _)
  · rename_i hne
    have hp : Expr.parts (.binary .assign l r) = [l, r] := Expr.parts_binary fun _ => hne
    refine .bind (ih r (I.part he (by simp [hp]))) fun v hv => ?_
    refine .bind (meets_write ih he (I.part he (by simp [hp])) hv) fun _ _ => ?_
    exact .pure hv

theorem meets_element {name : String} {index : Expr} (he : I.tree (.element name index)) :
    I.Meets I.value (Eval.element f name index) := by
  refine .bind (meets_get name) fun c _ => ?_
  refine .bind (ih index (I.part he (by simp [Expr.parts]))) fun i _ => ?_
  exact meets_getItem c i

theorem meets_call (hb : ∀ e s, ((f e).final s).scope.below = s.scope.below) {name : String}
    {argument : Expr} (he : I.tree (.call name argument)) :
    I.Meets I.value (Eval.call f name argument) := by
  refine .bind (ih argument (I.part he (by simp [Expr.parts]))) fun v hv => ?_
  refine .bind (meets_get name) fun c hc => ?_
  cases c with
  | function p b => exact I.call (hb b) hc hv (ih b)
  | builtin b => exact meets_builtin b hv
  | _ => exact .throw (I.error _)

theorem meets_binary (rounds : Nat) {op : BinaryOp} {l r : Expr} (he : I.tree (.binary op l r)) :
    I.Meets I.value (Eval.binary rounds f op l r) := by
  have parts (h : op ≠ .assign) : I.tree l ∧ I.tree r := by
    have hp : Expr.parts (.binary op l r) = [l, r] := Expr.parts_binary fun ho => absurd ho h
    exact ⟨I.part he (by simp [hp]), I.part he (by simp [hp])⟩
  cases op with
  | sequence =>
    obtain ⟨hl, hr⟩ := parts nofun
    obtain ⟨h1, h2⟩ := tree_statements hl (List.forall_mem_singleton.2 hr)
    exact meets_inTurn ih h1 h2
  | operator op =>
    obtain ⟨hl, hr⟩ := parts nofun
    have hs : ∀ x ∈ [(op, r)], I.tree x.2 := List.forall_mem_singleton.2 hr
    obtain ⟨h1, h2⟩ := tree_operands hl hs
    exact .bind (ih _ h1) fun v hv => meets_applyInTurn ih hv h2
  | member => exact meets_member ih he
  | assign => exact meets_assign ih he
  | loop =>
    obtain ⟨hl, hr⟩ := parts nofun
    exact (Run.Meets.loop (ih l hl) (ih r hr) I.unfinished rounds
      (I.plain (v := .null) nofun)).mono
      (fun _ h => h.1) fun _ h => h
  | conditional wanted =>
    obtain ⟨hl, hr⟩ := parts nofun
    exact meets_branch (o := none) ih hl hr nofun
  | otherwise => exact meets_alternative ih he

theorem meets_node (hb : ∀ e s, ((f e).final s).scope.below = s.scope.below) (rounds : Nat)
    {e : Expr} (he : I.tree e) : I.Meets I.value (Eval.node rounds f e) := by
  cases e with
  | number x => exact .pure (I.plain nofun)
  | text s => exact .pure (I.plain nofun)
  | ident name => exact meets_get name
  | root r =>
    cases r with
    | emptyArray => exact fun s hs => ⟨I.plain nofun, I.newArray hs⟩
    | emptyDictionary => exact fun s hs => ⟨I.plain nofun, I.newDictionary hs⟩
    | stop => exact .throw (I.stop he)
  | unary op e =>
    exact .bind (ih e (I.part he (by simp [Expr.parts]))) fun v hv => meets_unary he hv
  | binary op l r => exact meets_binary ih rounds he
  | element name index => exact meets_element ih he
  | call name argument => exact meets_call ih hb he
  | strangeUnary op e =>
    exact .bind (ih e (I.part he (by simp [Expr.parts]))) fun _ _ => .pure (I.plain nofun)
  | strangeBinary op l r =>
    refine .bind (ih l (I.part he (by simp [Expr.parts]))) fun v _ => ?_
    refine .bind (ih r (I.part he (by simp [Expr.parts]))) fun w _ => ?_
    exact meets_applyStrange he v w
  | strange f => exact .throw (I.notATree he)

end

/-- The evaluation of a tree in the invariant stays in it, however it ends. -/
theorem eval (rounds depth : Nat) {e : Expr} (he : I.tree e) :
    I.Meets I.value (Scriptlet.eval rounds depth e) := by
  induction depth generalizing e with
  | zero => exact .throw (I.error .tooDeep)
  | succ depth ih => exact meets_node (fun _ h => ih h) (below_eval rounds depth) rounds he

/-- The evaluation of a whole script ends in a session of the invariant. -/
theorem evaluateWithin (limits : Limits) {e : Expr} (he : I.tree e) {s : Session}
    (hs : I.session s) : I.session (s.evaluateWithin limits e).2 := by
  have h := I.eval limits.rounds limits.depth he s hs
  rw [evaluateWithin_snd, Run.final]
  cases hr : Scriptlet.eval limits.rounds limits.depth e s with
  | ok v t =>
    rw [hr] at h
    exact h.2
  | error x t =>
    rw [hr] at h
    exact h.2

end Invariant

end Scriptlet
