import Scriptlet.Proofs.Frames

/-!
# Evaluation with one map of names

`Session.view`: what a program can tell of a session, namely the value of every name, the containers
and what was printed. `View.eval` is an evaluator of its own that carries a view and knows no
frames: a name is read from the map, an assignment changes the map, and a call runs its body on a
copy of the map, of which only the containers and the output are kept.

* `eval_view`: the evaluator on a stack of frames does the same, and so sessions with the same view
  cannot be told apart, however many frames they have.
-/

namespace Scriptlet

/-- The value of every name, the containers, and everything printed so far. -/
structure View where
  value : String → Value
  store : Store
  output : String

namespace View

/-- A computation in a view. -/
abbrev Run := EStateM Exit View

/-- Gives a name a value. -/
def bind (w : View) (name : String) (v : Value) : View :=
  { w with value := fun n => if n = name then v else w.value n }

/-! ## The evaluator -/

def fail {α : Type} (e : EvalError) : Run α := throw (.error e)

def ofExcept {α : Type} : Except EvalError α → Run α
  | .ok a => pure a
  | .error e => fail e

def read (name : String) : Run Value := return (← get).value name

def getItem (container index : Value) : Run Value := do
  ofExcept ((← get).store.getItem container index)

def setItem (container index v : Value) : Run Unit := do
  let w ← get
  let store ← ofExcept (w.store.setItem container index v)
  set { w with store }

def newEmpty (new : Store → Value × Store) : Run Value :=
  modifyGet fun w => ((new w.store).1, { w with store := (new w.store).2 })

def builtin : Builtin → Value → Run Value
  | .print, v => do
    modify fun w => { w with output := w.output ++ (v.display ++ "\n") }
    return v
  | .len, v => do
    return .number (Double.ofNat (← ofExcept ((← get).store.length v)))

def unary : UnaryOp → Value → Run Value
  | .plus, v => do return .number (← ofExcept v.toDouble)
  | .minus, v => do return .number (-(← ofExcept v.toDouble))
  | .not, v => return .ofBool !v.isTrue
  | .result, v => throw (.result v)

/-- The break out of a loop as a value. -/
def untilStop {α : Type} (x : Run α) : Run (Option α) := fun w =>
  match x w with
  | .ok a w => .ok (some a) w
  | .error .stop w => .ok none w
  | .error e w => .error e w

/-- Runs the body of a function on a copy of the map and throws the copy away. -/
def enterFunction (parameter : String) (v : Value) (body : Run Value) : Run Value := fun w =>
  match body (w.bind parameter v) with
  | .ok r w' => .ok r { w' with value := w.value }
  | .error (.result r) w' => .ok r { w' with value := w.value }
  | .error e w' => .error e { w' with value := w.value }

def loop (condition body : Run Value) : Nat → Value → Run Value
  | 0, _ => throw .unfinished
  | rounds + 1, last => do
    match ← untilStop condition with
    | none => return last
    | some c =>
      if c.isTrue then
        match ← untilStop body with
        | none => return c
        | some _ => loop condition body rounds c
      else return c

section
variable (eval : Expr → Run Value)

def branch (wanted : Bool) (condition body : Expr) (other : Option Expr) : Run Value := do
  let c ← eval condition
  if c.isTrue = wanted then eval body
  else
    match other with
    | some e => eval e
    | none => return c

def alternative : Expr → Expr → Run Value
  | .binary (.conditional wanted) condition body, e => branch eval wanted condition body (some e)
  | _, _ => fail .unboundElse

def member (container key : Expr) : Run Value := do
  let c ← eval container
  match c, key with
  | .dictionary _, .ident name => getItem c (.text name)
  | .dictionary _, _ => fail (.mismatch .memberNotNamed)
  | _, _ => fail (.mismatch (.noMember c.kind))

def write (v : Value) : Expr → Run Unit
  | .ident name => modify (·.bind name v)
  | .binary .member container (.ident key) => do
    setItem (← eval container) (.text key) v
  | .element name index => do
    let i ← eval index
    setItem (← read name) i v
  | _ => fail (.badTarget .notAssignable)

def assign : Expr → Expr → Run Value
  | .call name (.ident parameter), body => do
    modify (·.bind name (.function parameter body))
    return .function parameter body
  | .call name _, _ => fail (.badTarget (.parameter name))
  | target, e => do
    let v ← eval e
    write eval v target
    return v

def element (name : String) (index : Expr) : Run Value := do
  let c ← read name
  getItem c (← eval index)

def call (name : String) (argument : Expr) : Run Value := do
  let v ← eval argument
  match ← read name with
  | .function parameter body => enterFunction parameter v (eval body)
  | .builtin b => builtin b v
  | f => fail (.notCallable f.kind name)

def applyStrange (op : Form) (left right : Value) : Run Value :=
  match left with
  | .number _ | .null | .text _ => do
    let _ ← ofExcept left.toDouble
    let _ ← ofExcept right.toDouble
    throw (.defect (.noSuchOperator op))
  | v => fail (.mismatch (.noOperator op.plain v.kind))

def binary (rounds : Nat) : BinaryOp → Expr → Expr → Run Value
  | .sequence, l, r => do
    let (first, later) := l.statements [r]
    later.foldlM (fun _ e => eval e) (← eval first)
  | .operator op, l, r => do
    let (first, later) := l.operands [(op, r)]
    later.foldlM (fun left (op, e) => do ofExcept (op.apply left (← eval e))) (← eval first)
  | .member, l, r => member eval l r
  | .assign, l, r => assign eval l r
  | .loop, l, r => loop (eval l) (eval r) rounds .null
  | .conditional wanted, l, r => branch eval wanted l r none
  | .otherwise, l, r => alternative eval l r

/-- The value of a tree in a view, by means of an evaluation of its parts. -/
def node (rounds : Nat) : Expr → Run Value
  | .number x => return .number x
  | .text s => return .text s
  | .ident name => read name
  | .root .emptyArray => newEmpty (·.newArray #[])
  | .root .emptyDictionary => newEmpty (·.newDictionary ∅)
  | .root .stop => throw .stop
  | .unary op e => do unary op (← eval e)
  | .binary op l r => binary eval rounds op l r
  | .element name index => element eval name index
  | .call name argument => call eval name argument
  | .strangeUnary _ e => do
    let _ ← eval e
    return .null
  | .strangeBinary op l r => do
    let v ← eval l
    let w ← eval r
    applyStrange op v w
  | .strange f => throw (.defect (.notATree f))

end

/-- The value of a tree in a view. -/
def eval (rounds : Nat) : Nat → Expr → Run Value
  | 0, _ => fail .tooDeep
  | depth + 1, e => node (eval rounds depth) rounds e

end View

/-! ## Views of sessions -/

/-- What a program can tell of a session. -/
def Session.view (s : Session) : View := ⟨s.scope.get, s.store, s.output⟩

/-- A result with the session that it leaves seen as a view. -/
def viewed {α : Type} : EStateM.Result Exit Session α → EStateM.Result Exit View α
  | .ok a s => .ok a s.view
  | .error e s => .error e s.view

theorem Scope.get_set (s : Scope) (name : String) (v : Value) (n : String) :
    (s.set name v).get n = if n = name then v else s.get n := by
  unfold Scope.get Scope.get? Scope.frames Scope.set
  by_cases h : n = name
  · subst h
    simp
  · simp [Bindings.get?_set_of_ne h, h, List.findSome?_cons]

theorem Session.view_set (s : Session) (name : String) (v : Value) :
    (s.set name v).view = s.view.bind name v := by
  simp only [Session.view, View.bind, View.mk.injEq]
  exact ⟨funext fun n => s.scope.get_set name v n, rfl, rfl⟩

theorem Session.view_callee (s : Session) (parameter : String) (v : Value) :
    (s.callee parameter v).view = s.view.bind parameter v :=
  Session.view_set (s.record (.called parameter v)).enter parameter v

/-- The computation in a view does what the run does in each session with this view. -/
def Shows {α : Type} (y : View.Run α) (x : Run α) : Prop := ∀ s, y s.view = viewed (x s)

namespace Shows

variable {α β : Type}

theorem pure (a : α) : Shows (Pure.pure a) (Pure.pure a) := fun _ => rfl

theorem throw (e : Exit) : Shows (MonadExcept.throw e : View.Run α) (MonadExcept.throw e) :=
  fun _ => rfl

theorem bind {x : Run α} {y : View.Run α} {f : α → Run β} {g : α → View.Run β}
    (hx : Shows y x) (hf : ∀ a, Shows (g a) (f a)) : Shows (y >>= g) (x >>= f) := by
  intro s
  have run : (y >>= g) s.view = match y s.view with
      | .ok a w => g a w
      | .error e w => .error e w := by
    simp only [Bind.bind, EStateM.bind]
    cases y s.view <;> rfl
  rw [run, Run.bind_apply, hx s]
  cases x s with
  | ok a t => exact hf a t
  | error e t => rfl

theorem ofExcept (r : Except EvalError α) : Shows (View.ofExcept r) (Run.ofExcept r) := by
  cases r with
  | ok a => exact .pure a
  | error e => exact .throw (.error e)

theorem read (name : String) : Shows (View.read name) (Run.get name) := fun _ => rfl

theorem set (name : String) (v : Value) : Shows (modify (·.bind name v)) (Run.set name v) := by
  intro s
  have run : (modify (·.bind name v) : View.Run PUnit) s.view = .ok () (s.view.bind name v) := rfl
  rw [run, Run.set_apply, viewed, Session.view_set]

theorem getItem (c i : Value) : Shows (View.getItem c i) (Run.getItem c i) :=
  fun s => ofExcept (s.store.getItem c i) s

theorem setItem (c i v : Value) : Shows (View.setItem c i v) (Run.setItem c i v) := by
  intro s
  have run : View.setItem c i v s.view = (do
      let store ← View.ofExcept (s.store.setItem c i v)
      MonadStateOf.set { s.view with store } : View.Run Unit) s.view := rfl
  rw [run, Run.setItem_apply, Store.setItem]
  cases s.store.slot c i <;> rfl

theorem builtin (b : Builtin) (v : Value) : Shows (View.builtin b v) (b.call v) := by
  cases b with
  | print => exact fun _ => rfl
  | len =>
    exact fun s => bind (ofExcept (s.store.length v))
      (fun n => pure (Value.number (Double.ofNat n))) s

theorem unary (op : UnaryOp) (v : Value) : Shows (View.unary op v) (op.apply v) := by
  cases op with
  | plus => exact bind (ofExcept _) fun x => pure (Value.number x)
  | minus => exact bind (ofExcept _) fun x => pure (Value.number (-x))
  | not => exact pure _
  | result => exact throw (.result v)

theorem applyStrange (op : Form) (v w : Value) :
    Shows (View.applyStrange op v w) (Eval.applyStrange op v w) := by
  unfold View.applyStrange Eval.applyStrange
  cases v with
  | number _ | null | text _ =>
    refine bind (ofExcept _) fun _ => ?_
    refine bind (ofExcept _) fun _ => ?_
    exact throw _
  | _ => exact throw _

theorem untilStop {x : Run α} {y : View.Run α} (h : Shows y x) :
    Shows (View.untilStop y) x.untilStop := by
  intro s
  rw [View.untilStop, h s, Run.untilStop_apply]
  cases x s with
  | ok a t => rfl
  | error e t => cases e <;> rfl

/-- The frame that a call takes off is the copy that is thrown away: what is left of the view is the
map of the caller. -/
theorem enterFunction {x : Run Value} {y : View.Run Value} (h : Shows y x)
    (hb : ∀ s, (x.final s).scope.below = s.scope.below) (parameter : String) (v : Value) :
    Shows (View.enterFunction parameter v y) (Eval.enterFunction parameter v x) := by
  intro s
  -- the body starts with the map of the caller and the parameter, whatever the frames are
  rw [View.enterFunction, enterFunction_apply (hb (s.callee parameter v)), ← Session.view_callee,
    h (s.callee parameter v)]
  cases x (s.callee parameter v) with
  | ok a t => rfl
  | error e t => cases e <;> rfl

theorem loop {c b : Run Value} {c' b' : View.Run Value} (hc : Shows c' c) (hb : Shows b' b)
    (rounds : Nat) (last : Value) :
    Shows (View.loop c' b' rounds last) (Eval.loop c b rounds last) := by
  induction rounds generalizing last with
  | zero => exact throw .unfinished
  | succ rounds ih =>
    refine bind (untilStop hc) fun r => ?_
    cases r with
    | none => exact pure last
    | some v =>
      cases hv : v.isTrue with
      | false => simpa only [hv, Bool.false_eq_true, if_false] using pure v
      | true =>
        simp only [hv, if_true]
        refine bind (untilStop hb) fun r => ?_
        cases r with
        | none => exact pure v
        | some _ => exact ih v

section
variable {f : Expr → Run Value} {g : Expr → View.Run Value} (ih : ∀ e, Shows (g e) (f e))
include ih

theorem inTurn (e : Expr) (later : List Expr) :
    Shows (do later.foldlM (fun _ e => g e) (← g e)) (Eval.inTurn f e later) := by
  induction later generalizing e with
  | nil =>
    have h : (do [].foldlM (fun _ e => g e) (← g e)) = g e := bind_pure (g e)
    rw [h]
    exact ih e
  | cons next later ihl => exact bind (ih e) fun _ => ihl next

theorem applyInTurn (v : Value) (later : List (Operator × Expr)) :
    Shows (later.foldlM (fun left (op, e) => do View.ofExcept (op.apply left (← g e))) v)
      (Eval.applyInTurn f v later) := by
  induction later generalizing v with
  | nil => exact pure v
  | cons next later ihl =>
    obtain ⟨op, e⟩ := next
    rw [List.foldlM_cons, bind_assoc]
    refine bind (ih e) fun w => ?_
    refine bind (ofExcept (op.apply v w)) fun u => ?_
    exact ihl u

theorem branch (wanted : Bool) (c e : Expr) (other : Option Expr) :
    Shows (View.branch g wanted c e other) (Eval.branch f wanted c e other) := by
  refine bind (ih c) fun v => ?_
  split
  · exact ih e
  · cases other with
    | none => exact pure v
    | some e => exact ih e

theorem alternative (l r : Expr) : Shows (View.alternative g l r) (Eval.alternative f l r) := by
  cases l with
  | binary op c b =>
    cases op with
    | conditional wanted => exact branch ih wanted c b (some r)
    | _ => exact throw _
  | _ => exact throw _

theorem member (l r : Expr) : Shows (View.member g l r) (Eval.member f l r) := by
  refine bind (ih l) fun v => ?_
  cases v with
  | dictionary _ =>
    cases r with
    | ident name => exact getItem _ _
    | _ => exact throw _
  | _ => exact throw _

theorem write (v : Value) (target : Expr) :
    Shows (View.write g v target) (Eval.write f v target) := by
  cases target with
  | ident name => exact set name v
  | binary op container key =>
    cases op with
    | member =>
      cases key with
      | ident name => exact bind (ih container) fun c => setItem c _ v
      | _ => exact throw _
    | _ => exact throw _
  | element name index =>
    refine bind (ih index) fun i => ?_
    refine bind (read name) fun c => ?_
    exact setItem c i v
  | _ => exact throw _

theorem assign (l r : Expr) : Shows (View.assign g l r) (Eval.assign f l r) := by
  have plain (target : Expr) :
      Shows (do let v ← g r; View.write g v target; Pure.pure v)
        (do let v ← f r; Eval.write f v target; Pure.pure v) := by
    refine bind (ih r) fun v => ?_
    refine bind (write ih v target) fun _ => ?_
    exact pure v
  cases l with
  | call name argument =>
    cases argument with
    | ident parameter => exact bind (set name _) fun _ => pure _
    | _ => exact throw _
  | _ => exact plain _

theorem element (name : String) (index : Expr) :
    Shows (View.element g name index) (Eval.element f name index) := by
  refine bind (read name) fun c => ?_
  refine bind (ih index) fun i => ?_
  exact getItem c i

theorem call (hb : ∀ e s, ((f e).final s).scope.below = s.scope.below) (name : String)
    (argument : Expr) : Shows (View.call g name argument) (Eval.call f name argument) := by
  refine bind (ih argument) fun v => ?_
  refine bind (read name) fun c => ?_
  cases c with
  | function parameter body => exact enterFunction (ih body) (hb body) parameter v
  | builtin b => exact builtin b v
  | _ => exact throw _

theorem binary (rounds : Nat) (op : BinaryOp) (l r : Expr) :
    Shows (View.binary g rounds op l r) (Eval.binary rounds f op l r) := by
  cases op with
  | sequence => exact inTurn ih _ _
  | operator op => exact bind (ih _) fun v => applyInTurn ih v _
  | member => exact member ih l r
  | assign => exact assign ih l r
  | loop => exact loop (ih l) (ih r) rounds .null
  | conditional wanted => exact branch ih wanted l r none
  | otherwise => exact alternative ih l r

theorem node (hb : ∀ e s, ((f e).final s).scope.below = s.scope.below) (rounds : Nat) (e : Expr) :
    Shows (View.node g rounds e) (Eval.node rounds f e) := by
  cases e with
  | number x => exact pure _
  | text s => exact pure _
  | ident name => exact read name
  | root r =>
    cases r with
    | emptyArray => exact fun _ => rfl
    | emptyDictionary => exact fun _ => rfl
    | stop => exact throw .stop
  | unary op e => exact bind (ih e) fun v => unary op v
  | binary op l r => exact binary ih rounds op l r
  | element name index => exact element ih name index
  | call name argument => exact call ih hb name argument
  | strangeUnary op e => exact bind (ih e) fun _ => pure Value.null
  | strangeBinary op l r =>
    refine bind (ih l) fun v => ?_
    refine bind (ih r) fun w => ?_
    exact applyStrange op v w
  | strange f => exact throw _

end

theorem eval (rounds depth : Nat) (e : Expr) :
    Shows (View.eval rounds depth e) (Scriptlet.eval rounds depth e) := by
  induction depth generalizing e with
  | zero => exact throw (.error .tooDeep)
  | succ depth ih => exact node ih (below_eval rounds depth) rounds e

end Shows

/-! ## Sessions with the same view -/

section
variable {limits : Limits} {s t : Session} {e : Expr}

theorem evaluateWithin_of_viewed_eq
    (h : viewed (eval limits.rounds limits.depth e s) =
      viewed (eval limits.rounds limits.depth e t)) :
    (s.evaluateWithin limits e).1 = (t.evaluateWithin limits e).1 ∧
      (s.evaluateWithin limits e).2.view = (t.evaluateWithin limits e).2.view := by
  rw [evaluateWithin_snd, evaluateWithin_snd]
  unfold Session.evaluateWithin
  cases hs : eval limits.rounds limits.depth e s with
  | ok v s' =>
    cases ht : eval limits.rounds limits.depth e t with
    | ok w t' =>
      rw [hs, ht] at h
      obtain ⟨hv, hview⟩ := EStateM.Result.ok.inj h
      rw [Run.final_ok hs, Run.final_ok ht, hv]
      exact ⟨rfl, hview⟩
    | error y t' => simp [hs, ht, viewed] at h
  | error x s' =>
    cases ht : eval limits.rounds limits.depth e t with
    | ok w t' => simp [hs, ht, viewed] at h
    | error y t' =>
      rw [hs, ht] at h
      obtain ⟨hx, hview⟩ := EStateM.Result.error.inj h
      rw [Run.final_error hs, Run.final_error ht, hx]
      refine ⟨?_, hview⟩
      cases y with
      | error y => cases y <;> rfl
      | _ => rfl

theorem viewed_eval_of_view_eq (h : s.view = t.view) (rounds depth : Nat) :
    viewed (eval rounds depth e s) = viewed (eval rounds depth e t) := by
  rw [← Shows.eval rounds depth e s, ← Shows.eval rounds depth e t, h]

theorem run_of_view_eq (h : s.view = t.view) (source : String) :
    (s.run source).1 = (t.run source).1 ∧ (s.run source).2.view = (t.run source).2.view := by
  unfold Session.run
  cases Expr.parse source with
  | error p => exact ⟨rfl, h⟩
  | ok e =>
    have parsed : (s.record (.parsed source e)).view = (t.record (.parsed source e)).view := h
    exact evaluateWithin_of_viewed_eq (viewed_eval_of_view_eq parsed _ _)

end

/-- The evaluator on a stack of frames does in each session what the evaluator with one map does in
its view. So two sessions with the same view, whatever their frames, are the same to every tree and
to every script, and have the same view again afterwards. -/
theorem eval_view (limits : Limits) (e : Expr) :
    (∀ s : Session, View.eval limits.rounds limits.depth e s.view =
      viewed (eval limits.rounds limits.depth e s)) ∧
    ∀ s t : Session, s.view = t.view →
      viewed (eval limits.rounds limits.depth e s) = viewed (eval limits.rounds limits.depth e t) ∧
      ((s.evaluateWithin limits e).1 = (t.evaluateWithin limits e).1 ∧
        (s.evaluateWithin limits e).2.view = (t.evaluateWithin limits e).2.view) ∧
      ∀ source, (s.run source).1 = (t.run source).1 ∧
        (s.run source).2.view = (t.run source).2.view := by
  refine ⟨Shows.eval limits.rounds limits.depth e, fun s t h => ?_⟩
  have hv := viewed_eval_of_view_eq (e := e) h limits.rounds limits.depth
  exact ⟨hv, evaluateWithin_of_viewed_eq hv, run_of_view_eq h⟩

/-- An empty frame on top changes no view: a function that rebinds a variable of its caller for
itself is called in a session with one frame, and in one with two. -/
theorem eval_view_enter :
    let s := Session.initial.set "x" (.text "a")
    let e : Expr := .binary .sequence
      (.binary .assign (.call "f" (.ident "y")) (.binary .assign (.ident "x") (.ident "y")))
      (.binary .sequence (.call "f" (.text "b")) (.ident "x"))
    s.scope.depth ≠ s.enter.scope.depth ∧ s.view = s.enter.view ∧
      (s.evaluateWithin ⟨9, 9⟩ e).1 = .ok (.text "a") ∧
      (s.enter.evaluateWithin ⟨9, 9⟩ e).1 = .ok (.text "a") :=
  ⟨by decide, rfl, rfl, ((eval_view ⟨9, 9⟩ _).2 _ _ rfl).2.1.1.symm.trans rfl⟩

end Scriptlet
