import Scriptlet.Proofs.Assigned

/-!
# Trees that only read

A tree with neither an assignment nor a call (`Expr.onlyReads`) makes new empty containers and does
nothing else to its session (`Session.Padded`). What is read is the same before and behind, so a
second evaluation goes the same way as the first one, step by step: `Run.Repeats` relates the two
runs, and the values of the two are the same or containers that each of them has made anew
(`Value.Alike`).

* `eval_onlyReads`: the evaluation of such a tree changes nothing, and evaluating it again right
  after gives the same outcome up to which new container it is.
-/

namespace Scriptlet

/-- The tree has neither an assignment nor a call in it. -/
def Expr.onlyReads : Expr → Bool
  | unary _ e => e.onlyReads
  | binary .assign _ _ => false
  | binary _ l r => l.onlyReads && r.onlyReads
  | element _ index => index.onlyReads
  | call _ _ => false
  | strangeUnary _ e => e.onlyReads
  | strangeBinary _ l r => l.onlyReads && r.onlyReads
  | _ => true

namespace Expr

theorem onlyReads_binary {op : BinaryOp} {l r : Expr}
    (h : (Expr.binary op l r).onlyReads = true) :
    op ≠ .assign ∧ l.onlyReads = true ∧ r.onlyReads = true := by
  cases op with
  | assign => cases h
  | _ => exact ⟨nofun, (Bool.and_eq_true _ _).mp h⟩

theorem onlyReads_statements {e : Expr} {later : List Expr} (he : e.onlyReads = true)
    (hl : ∀ r ∈ later, r.onlyReads = true) :
    (e.statements later).1.onlyReads = true ∧
      ∀ r ∈ (e.statements later).2, r.onlyReads = true := by
  fun_induction Expr.statements e later with
  | case1 later l r ih =>
    obtain ⟨-, h1, h2⟩ := onlyReads_binary he
    exact ih h1 (List.forall_mem_cons.2 ⟨h2, hl⟩)
  | case2 e later _ => exact ⟨he, hl⟩

theorem onlyReads_operands {e : Expr} {later : List (Operator × Expr)} (he : e.onlyReads = true)
    (hl : ∀ r ∈ later, r.2.onlyReads = true) :
    (e.operands later).1.onlyReads = true ∧
      ∀ r ∈ (e.operands later).2, r.2.onlyReads = true := by
  fun_induction Expr.operands e later with
  | case1 later op l r ih =>
    obtain ⟨-, h1, h2⟩ := onlyReads_binary he
    exact ih h1 (List.forall_mem_cons.2 ⟨h2, hl⟩)
  | case2 e later _ => exact ⟨he, hl⟩

end Expr

/-! ## New empty containers -/

namespace Store

section
variable {α : Type} {d : α} {xs ys zs : Array α}

/-- The second array of containers has new ones behind those of the first one, all empty. -/
def PaddedWith (d : α) (xs ys : Array α) : Prop := ∃ n, ys = xs ++ Array.replicate n d

namespace PaddedWith

theorem refl (d : α) (xs : Array α) : PaddedWith d xs xs := ⟨0, by simp⟩

theorem trans (h : PaddedWith d xs ys) (h' : PaddedWith d ys zs) : PaddedWith d xs zs := by
  obtain ⟨m, rfl⟩ := h
  obtain ⟨n, rfl⟩ := h'
  exact ⟨m + n, by rw [Array.append_assoc, Array.replicate_append_replicate]⟩

theorem push (d : α) (xs : Array α) : PaddedWith d xs (xs.push d) := ⟨1, by simp⟩

theorem size_le (h : PaddedWith d xs ys) : xs.size ≤ ys.size := by
  obtain ⟨n, rfl⟩ := h
  rw [Array.size_append]
  exact Nat.le_add_right _ _

/-- What is read at an address that there is no container at is empty, and so are the new ones. -/
theorem getD_eq (h : PaddedWith d xs ys) (a : Nat) : ys[a]?.getD d = xs[a]?.getD d := by
  obtain ⟨n, rfl⟩ := h
  rw [Array.getElem?_append, Array.getElem?_replicate]
  split
  · rfl
  · rename_i ha
    rw [Array.getElem?_eq_none (Nat.le_of_not_lt ha)]
    split <;> rfl

theorem getElem?_new (h : PaddedWith d xs ys) {a : Nat} (hx : xs.size ≤ a) (hy : a < ys.size) :
    ys[a]? = some d := by
  obtain ⟨n, rfl⟩ := h
  rw [Array.size_append, Array.size_replicate] at hy
  rw [Array.getElem?_append, if_neg (Nat.not_lt.2 hx), Array.getElem?_replicate,
    if_pos (by omega)]

end PaddedWith

end

/-- The second store has new empty containers behind those of the first one. -/
structure Padded (s t : Store) : Prop where
  arrays : PaddedWith #[] s.arrays t.arrays
  dictionaries : PaddedWith ∅ s.dictionaries t.dictionaries

namespace Padded

variable {s t u : Store}

theorem refl (s : Store) : s.Padded s := ⟨.refl _ _, .refl _ _⟩

theorem trans (h : s.Padded t) (h' : t.Padded u) : s.Padded u :=
  ⟨h.arrays.trans h'.arrays, h.dictionaries.trans h'.dictionaries⟩

theorem newArray (s : Store) : s.Padded (s.newArray #[]).2 := ⟨.push _ _, .refl _ _⟩

theorem newDictionary (s : Store) : s.Padded (s.newDictionary ∅).2 := ⟨.refl _ _, .push _ _⟩

theorem array (h : s.Padded t) (a : Nat) : t.array a = s.array a := h.arrays.getD_eq a

theorem dictionary (h : s.Padded t) (a : Nat) : t.dictionary a = s.dictionary a :=
  h.dictionaries.getD_eq a

theorem getItem (h : s.Padded t) (c i : Value) : t.getItem c i = s.getItem c i := by
  unfold Store.getItem
  simp only [h.array, h.dictionary]

end Padded

end Store

/-- The second session has new empty containers and is the first one apart from them. -/
structure Session.Padded (s t : Session) : Prop where
  store : s.store.Padded t.store
  eq : t = { s with store := t.store }

namespace Session.Padded

variable {s t u : Session}

theorem refl (s : Session) : s.Padded s := ⟨.refl s.store, rfl⟩

theorem trans (h : s.Padded t) (h' : t.Padded u) : s.Padded u :=
  ⟨h.store.trans h'.store, by rw [h'.eq, h.eq]⟩

theorem scope (h : s.Padded t) : t.scope = s.scope := by rw [h.eq]

theorem withStore (h : s.Padded t) {store : Store} (hs : t.store.Padded store) :
    s.Padded { t with store } :=
  h.trans ⟨hs, rfl⟩

end Session.Padded

/-! ## Values of two evaluations -/

/-- The values are one old value, or containers of one kind that stand behind those of their
stores. -/
inductive Value.Alike (old : Value → Prop) (s t : Store) : Value → Value → Prop
  | same {v : Value} : old v → Alike old s t v v
  | arrays {a b : Nat} : s.arrays.size ≤ a → t.arrays.size ≤ b → Alike old s t (.array a) (.array b)
  | dictionaries {a b : Nat} : s.dictionaries.size ≤ a → t.dictionaries.size ≤ b →
    Alike old s t (.dictionary a) (.dictionary b)

namespace Value.Alike

variable {old : Value → Prop} {s t : Store} {v v' w w' : Value}

theorem isTrue (h : Alike old s t v v') : v'.isTrue = v.isTrue := by cases h <;> rfl

theorem toDouble (h : Alike old s t v v') : v'.toDouble = v.toDouble := by cases h <;> rfl

theorem toText (h : Alike old s t v v') : v'.toText = v.toText := by cases h <;> rfl

theorem apply (op : Operator) (h : Alike old s t v v') (h' : Alike old s t w w') :
    op.apply v' w' = op.apply v w := by
  cases h with
  | same => unfold Operator.apply Operator.numeric; rw [h'.toDouble, h'.toText]
  | arrays | dictionaries => rfl

/-- A container is read alike in both evaluations, for a new one is empty. -/
theorem getItem (hp : s.Padded t) (h : Alike old s t v v') (h' : Alike old s t w w') :
    s.getItem v' w' = s.getItem v w := by
  cases h with
  | same =>
    cases h' with
    | same => rfl
    | arrays | dictionaries => cases v <;> rfl
  | @arrays a b ha hb =>
    have items : s.array b = s.array a := by
      rw [← hp.array b, Store.array, Store.array, Array.getElem?_eq_none ha,
        Array.getElem?_eq_none hb]
    cases h' with
    | same =>
      cases w with
      | number i => simp only [Store.getItem, items]
      | _ => rfl
    | arrays | dictionaries => rfl
  | @dictionaries a b ha hb =>
    have entries : s.dictionary b = s.dictionary a := by
      rw [← hp.dictionary b, Store.dictionary, Store.dictionary, Array.getElem?_eq_none ha,
        Array.getElem?_eq_none hb]
    cases h' with
    | same =>
      cases w with
      | text key => simp only [Store.getItem, entries]
      | _ => rfl
    | arrays | dictionaries => rfl

end Value.Alike

/-- The exits are one exit that carries no value, or results that are alike. -/
inductive Exit.Alike (old : Value → Prop) (s t : Store) : Exit → Exit → Prop
  | same {x : Exit} : (∀ v, x ≠ .result v) → Alike old s t x x
  | result {v w : Value} : v.Alike old s t w → Alike old s t (.result v) (.result w)

/-! ## Two runs -/

/-- The results are alike, and each of the two sessions has only been padded. -/
inductive SameEnd {α : Type} (old : Value → Prop) (s t : Session) (R : α → α → Prop) :
    EStateM.Result Exit Session α → EStateM.Result Exit Session α → Prop
  | ok {a b : α} {s' t' : Session} :
    R a b → s.Padded s' → t.Padded t' → SameEnd old s t R (.ok a s') (.ok b t')
  | error {x y : Exit} {s' t' : Session} :
    x.Alike old s.store t.store y → s.Padded s' → t.Padded t' →
    SameEnd old s t R (.error x s') (.error y t')

/-- The run `y`, in any padded session of `t`, does what `x` does in any padded session of `s`. -/
def Run.Repeats {α : Type} (old : Value → Prop) (s t : Session) (R : α → α → Prop)
    (x y : Run α) : Prop :=
  ∀ s' t', s.Padded s' → t.Padded t' → SameEnd old s t R (x s') (y t')

/-- The two runs come to values that are alike. -/
abbrev Run.RepeatsValue (old : Value → Prop) (s t : Session) (x y : Run Value) : Prop :=
  Run.Repeats old s t (Value.Alike old s.store t.store) x y

namespace Run.Repeats

variable {old : Value → Prop} {s t : Session} {v v' w w' : Value} {α β : Type}
  {R : α → α → Prop} {Q : β → β → Prop}

theorem pure {a b : α} (h : R a b) : Repeats old s t R (Pure.pure a) (Pure.pure b) :=
  fun _ _ hs ht => .ok h hs ht

theorem throw {x y : Exit} (h : x.Alike old s.store t.store y) :
    Repeats old s t R (MonadExcept.throw x) (MonadExcept.throw y) :=
  fun _ _ hs ht => .error h hs ht

theorem fail (e : EvalError) : Repeats old s t R (Run.fail e) (Run.fail e) := throw (.same (by simp))

theorem bind {x y : Run α} {f g : α → Run β} (h : Repeats old s t R x y)
    (hf : ∀ a b, R a b → Repeats old s t Q (f a) (g b)) :
    Repeats old s t Q (x >>= f) (y >>= g) := by
  intro s' t' hs ht
  have hxy := h s' t' hs ht
  rw [bind_apply, bind_apply]
  generalize x s' = p at hxy ⊢
  generalize y t' = q at hxy ⊢
  cases hxy with
  | ok hr hs ht => exact hf _ _ hr _ _ hs ht
  | error hx hs ht => exact .error hx hs ht

theorem ofExcept (r : Except EvalError α) (h : ∀ a, r = .ok a → R a a) :
    Repeats old s t R (Run.ofExcept r) (Run.ofExcept r) := by
  cases r with
  | ok a => exact pure (h a rfl)
  | error e => exact fail e

theorem untilStop {x y : Run α} (h : Repeats old s t R x y) :
    Repeats old s t (Option.Rel R) x.untilStop y.untilStop := by
  intro s' t' hs ht
  have hxy := h s' t' hs ht
  rw [untilStop_apply, untilStop_apply]
  generalize x s' = p at hxy ⊢
  generalize y t' = q at hxy ⊢
  cases hxy with
  | ok hr hs ht => exact .ok (.some hr) hs ht
  | @error x' y' _ _ hx hs ht =>
    cases hx with
    | result hv => exact .error (.result hv) hs ht
    | same hx =>
      cases x' with
      | stop => exact .ok .none hs ht
      | _ => exact .error (.same hx) hs ht

/-! ### Single steps -/

theorem newArray :
    RepeatsValue old s t (Run.newEmpty (·.newArray #[])) (Run.newEmpty (·.newArray #[])) := by
  intro s' t' hs ht
  exact .ok (.arrays hs.store.arrays.size_le ht.store.arrays.size_le)
    (hs.withStore (.newArray _)) (ht.withStore (.newArray _))

theorem newDictionary : RepeatsValue old s t (Run.newEmpty (·.newDictionary ∅))
    (Run.newEmpty (·.newDictionary ∅)) := by
  intro s' t' hs ht
  exact .ok (.dictionaries hs.store.dictionaries.size_le ht.store.dictionaries.size_le)
    (hs.withStore (.newDictionary _)) (ht.withStore (.newDictionary _))

theorem applyStrange (op : Form) (hv : v.Alike old s.store t.store v')
    (hw : w.Alike old s.store t.store w') :
    RepeatsValue old s t (Eval.applyStrange op v w) (Eval.applyStrange op v' w') := by
  have double (u : Value) : Run.Repeats old s t Eq (Run.ofExcept u.toDouble)
      (Run.ofExcept u.toDouble) := .ofExcept _ fun _ _ => rfl
  cases hv with
  | arrays | dictionaries => exact .fail _
  | same =>
    cases v with
    | number _ | null | text _ =>
      refine .bind (double _) fun _ _ _ => ?_
      rw [hw.toDouble]
      refine .bind (double _) fun _ _ _ => ?_
      exact .throw (.same (by simp))
    | _ => exact .fail _

/-! ### Constructs over runs of the parts -/

/-- Each repetition starts with a value of the condition before it, so the induction is on the
rounds that are left. -/
theorem loop {c c' b b' : Run Value} (hc : RepeatsValue old s t c c')
    (hb : RepeatsValue old s t b b') (rounds : Nat)
    (hv : v.Alike old s.store t.store v') :
    RepeatsValue old s t (Eval.loop c b rounds v) (Eval.loop c' b' rounds v') := by
  induction rounds generalizing v v' with
  | zero => exact .throw (.same (by simp))
  | succ rounds ih =>
    refine .bind hc.untilStop fun r r' hr => ?_
    cases hr with
    | none => exact .pure hv
    | @some u u' hu =>
      dsimp only
      rw [hu.isTrue]
      split
      · refine .bind hb.untilStop fun r r' hr => ?_
        cases hr with
        | none => exact .pure hu
        | some _ => exact ih hu
      · exact .pure hu

section
variable {f : Expr → Run Value}
  (ih : ∀ e : Expr, e.onlyReads = true → RepeatsValue old s t (f e) (f e))
include ih

theorem inTurn {e : Expr} {later : List Expr} (he : e.onlyReads = true)
    (hl : ∀ r ∈ later, r.onlyReads = true) :
    RepeatsValue old s t (Eval.inTurn f e later) (Eval.inTurn f e later) := by
  induction later generalizing e with
  | nil => exact ih e he
  | cons next later ihl =>
    obtain ⟨hn, hl⟩ := List.forall_mem_cons.1 hl
    exact .bind (ih e he) fun _ _ _ => ihl hn hl

theorem branch {wanted : Bool} {c b : Expr} {o : Option Expr} (hc : c.onlyReads = true)
    (hb : b.onlyReads = true) (ho : ∀ e, o = some e → e.onlyReads = true) :
    RepeatsValue old s t (Eval.branch f wanted c b o) (Eval.branch f wanted c b o) := by
  refine .bind (ih c hc) fun v v' hv => ?_
  rw [hv.isTrue]
  split
  · exact ih b hb
  · cases o with
    | none => exact .pure hv
    | some e => exact ih e (ho e rfl)

theorem alternative {l r : Expr} (hl : l.onlyReads = true) (hr : r.onlyReads = true) :
    RepeatsValue old s t (Eval.alternative f l r) (Eval.alternative f l r) := by
  unfold Eval.alternative
  split
  · obtain ⟨-, hc, hb⟩ := Expr.onlyReads_binary hl
    exact branch ih hc hb fun e he => Option.some.inj he ▸ hr
  · exact .fail _

end

end Run.Repeats

/-- The sessions that two evaluations start from. The second one has only been padded, and what is
old are the values of the first one and all that are no containers. -/
structure Twins (old : Value → Prop) (s t : Session) : Prop where
  padded : s.Padded t
  holds : s.Holds old
  null : old .null
  scalar {v : Value} : v.IsScalar → old v

namespace Twins

variable {old : Value → Prop} {s t : Session} (h : Twins old s t) {v v' w w' : Value}
include h

/-! ### Single steps -/

theorem scalarValue (hv : v.IsScalar) :
    Run.RepeatsValue old s t (Pure.pure v) (Pure.pure v) := .pure (.same (h.scalar hv))

theorem get (name : String) : Run.RepeatsValue old s t (Run.get name) (Run.get name) := by
  intro s' t' hs ht
  rw [Run.get_apply, Run.get_apply, hs.scope, ht.scope, h.padded.scope]
  exact .ok (.same (h.holds.scope.get h.null name)) hs ht

theorem getItem (hc : v.Alike old s.store t.store v') (hi : w.Alike old s.store t.store w') :
    Run.RepeatsValue old s t (Run.getItem v w) (Run.getItem v' w') := by
  intro s' t' hs ht
  rw [Run.getItem_apply, Run.getItem_apply, hs.store.getItem, ht.store.getItem,
    h.padded.store.getItem, hc.getItem h.padded.store hi]
  cases hr : s.store.getItem v w with
  | ok u => exact .ok (.same (h.holds.store.getItem h.null hr)) hs ht
  | error e => exact .error (.same (by simp)) hs ht

theorem apply (op : Operator) (hv : v.Alike old s.store t.store v')
    (hw : w.Alike old s.store t.store w') :
    Run.RepeatsValue old s t (Run.ofExcept (op.apply v w)) (Run.ofExcept (op.apply v' w')) := by
  rw [hv.apply op hw]
  exact .ofExcept _ fun u hu => .same (h.scalar (Operator.apply_isScalar hu))

theorem unary (op : UnaryOp) (hv : v.Alike old s.store t.store v') :
    Run.RepeatsValue old s t (op.apply v) (op.apply v') := by
  have number (f : Float → Float) :
      Run.RepeatsValue old s t (do return .number (f (← Run.ofExcept v.toDouble)))
        (do return .number (f (← Run.ofExcept v'.toDouble))) := by
    rw [hv.toDouble]
    refine .bind (R := Eq) (.ofExcept _ fun _ _ => rfl) fun x y hxy => ?_
    subst hxy
    exact h.scalarValue trivial
  cases op with
  | plus => exact number fun x => x
  | minus => exact number fun x => -x
  | not =>
    have same : Value.ofBool (!v'.isTrue) = Value.ofBool (!v.isTrue) := by rw [hv.isTrue]
    exact .pure (same ▸ .same (h.scalar trivial))
  | result => exact .throw (.result hv)

/-! ### Constructs over an evaluation of the parts -/

section
variable {f : Expr → Run Value}
  (ih : ∀ e : Expr, e.onlyReads = true → Run.RepeatsValue old s t (f e) (f e))
include ih

theorem applyInTurn {later : List (Operator × Expr)} (hv : v.Alike old s.store t.store v')
    (hl : ∀ r ∈ later, r.2.onlyReads = true) :
    Run.RepeatsValue old s t (Eval.applyInTurn f v later) (Eval.applyInTurn f v' later) := by
  induction later generalizing v v' with
  | nil => exact .pure hv
  | cons next later ihl =>
    obtain ⟨op, e⟩ := next
    obtain ⟨hn, hl⟩ := List.forall_mem_cons.1 hl
    refine .bind (ih e hn) fun w w' hw => ?_
    exact .bind (h.apply op hv hw) fun _ _ hu => ihl hu hl

theorem member {l : Expr} (hl : l.onlyReads = true) (r : Expr) :
    Run.RepeatsValue old s t (Eval.member f l r) (Eval.member f l r) := by
  refine .bind (ih l hl) fun v v' hv => ?_
  have key (k : String) : (Value.text k).Alike old s.store t.store (.text k) :=
    .same (h.scalar trivial)
  cases hv with
  | same hv =>
    cases v with
    | dictionary a =>
      cases r with
      | ident k => exact h.getItem (.same hv) (key k)
      | _ => exact .fail _
    | _ => exact .fail _
  | arrays => exact .fail _
  | dictionaries ha hb =>
    cases r with
    | ident k => exact h.getItem (.dictionaries ha hb) (key k)
    | _ => exact .fail _

theorem element (name : String) {index : Expr} (hi : index.onlyReads = true) :
    Run.RepeatsValue old s t (Eval.element f name index) (Eval.element f name index) := by
  refine .bind (h.get name) fun c c' hc => ?_
  exact .bind (ih index hi) fun i i' hi => h.getItem hc hi

theorem binary (rounds : Nat) {op : BinaryOp} {l r : Expr}
    (he : (Expr.binary op l r).onlyReads = true) :
    Run.RepeatsValue old s t (Eval.binary rounds f op l r) (Eval.binary rounds f op l r) := by
  obtain ⟨hop, hl, hr⟩ := Expr.onlyReads_binary he
  cases op with
  | sequence =>
    obtain ⟨h1, h2⟩ := Expr.onlyReads_statements hl (List.forall_mem_singleton.2 hr)
    exact .inTurn ih h1 h2
  | operator op =>
    have hs : ∀ x ∈ [(op, r)], x.2.onlyReads = true := List.forall_mem_singleton.2 hr
    obtain ⟨h1, h2⟩ := Expr.onlyReads_operands hl hs
    exact .bind (ih _ h1) fun v v' hv => h.applyInTurn ih hv h2
  | member => exact h.member ih hl r
  | assign => exact absurd rfl hop
  | loop => exact .loop (ih l hl) (ih r hr) rounds (.same h.null)
  | conditional wanted => exact .branch (o := none) ih hl hr nofun
  | otherwise => exact .alternative ih hl hr

theorem node (rounds : Nat) {e : Expr} (he : e.onlyReads = true) :
    Run.RepeatsValue old s t (Eval.node rounds f e) (Eval.node rounds f e) := by
  cases e with
  | number x | text x => exact h.scalarValue trivial
  | ident name => exact h.get name
  | root r =>
    cases r with
    | emptyArray => exact .newArray
    | emptyDictionary => exact .newDictionary
    | stop => exact .throw (.same (by simp))
  | unary op e => exact .bind (ih e he) fun v v' hv => h.unary op hv
  | binary op l r => exact h.binary ih rounds he
  | element name index => exact h.element ih name he
  | call name argument => cases he
  | strangeUnary op e => exact .bind (ih e he) fun _ _ _ => .pure (.same h.null)
  | strangeBinary op l r =>
    obtain ⟨hl, hr⟩ := (Bool.and_eq_true _ _).mp he
    refine .bind (ih l hl) fun v v' hv => ?_
    exact .bind (ih r hr) fun w w' hw => Run.Repeats.applyStrange op hv hw
  | strange g => exact .throw (.same (by simp))

end

/-! ### Evaluations -/

theorem eval (rounds depth : Nat) {e : Expr} (he : e.onlyReads = true) :
    Run.RepeatsValue old s t (eval rounds depth e) (eval rounds depth e) := by
  induction depth generalizing e with
  | zero => exact .fail .tooDeep
  | succ depth ih => exact h.node (fun _ => ih) rounds he

end Twins

/-! ## Evaluations -/

/-- The value of a second evaluation beside that of the first one: the same, or where that is a new
container another new one of the same kind, and both are empty. The stores are those before the first
evaluation, between the two and after the second one. -/
inductive Value.Again (s t u : Store) : Value → Value → Prop
  | same {v : Value} : s.Has v → Again s t u v v
  | newArray {a b : Nat} : s.arrays.size ≤ a → t.arrays[a]? = some #[] →
    t.arrays.size ≤ b → u.arrays[b]? = some #[] → Again s t u (.array a) (.array b)
  | newDictionary {a b : Nat} : s.dictionaries.size ≤ a → t.dictionaries[a]? = some ∅ →
    t.dictionaries.size ≤ b → u.dictionaries[b]? = some ∅ →
    Again s t u (.dictionary a) (.dictionary b)

/-- The second of two evaluations ends as the first one did, which started in a given session. -/
inductive EndsAgain (s : Session) :
    EStateM.Result Exit Session Value → EStateM.Result Exit Session Value → Prop
  | value {v w : Value} {t u : Session} :
    v.Again s.store t.store u.store w → EndsAgain s (.ok v t) (.ok w u)
  | result {v w : Value} {t u : Session} :
    v.Again s.store t.store u.store w → EndsAgain s (.error (.result v) t) (.error (.result w) u)
  | exit {x : Exit} {t u : Session} :
    (∀ v, x ≠ .result v) → EndsAgain s (.error x t) (.error x u)

theorem Value.Alike.again {s t u : Store} {v w : Value} (h : v.Alike s.Has s t w)
    (ht : s.Padded t) (hu : t.Padded u) (hv : t.Has v) (hw : u.Has w) : v.Again s t u w := by
  cases h with
  | same h => exact .same h
  | arrays ha hb =>
    exact .newArray ha (ht.arrays.getElem?_new ha hv) hb (hu.arrays.getElem?_new hb hw)
  | dictionaries ha hb =>
    exact .newDictionary ha (ht.dictionaries.getElem?_new ha hv) hb
      (hu.dictionaries.getElem?_new hb hw)

/-- Nothing but new empty containers comes of a tree that only reads. -/
theorem padded_eval (rounds depth : Nat) {e : Expr} (he : e.onlyReads = true) (s : Session) :
    s.Padded ((eval rounds depth e).final s) := by
  have everything : Twins (fun _ => True) s s :=
    ⟨.refl s, ⟨fun _ _ _ _ _ => trivial, fun _ _ _ => trivial, fun _ _ _ _ => trivial⟩, trivial,
      fun _ => trivial⟩
  have h := everything.eval rounds depth he s s (.refl s) (.refl s)
  rw [Run.final]
  cases hr : eval rounds depth e s <;> rw [hr] at h <;> cases h <;> assumption

/-- An evaluation of a tree without assignments and calls, however it ends, leaves the frames, the
output, the log and all containers as they were, and only adds new empty containers. Evaluating the
tree again right after ends in the same way: with the same error, or with the same number, text,
null, function or old container, or once more with a new empty container of the same kind. -/
theorem eval_onlyReads (rounds depth : Nat) {e : Expr} (he : e.onlyReads = true) (s : Session) :
    s.Padded ((eval rounds depth e).final s) ∧
      (s.Closed → EndsAgain s (eval rounds depth e s)
        (eval rounds depth e ((eval rounds depth e).final s))) := by
  have ht := padded_eval rounds depth he s
  refine ⟨ht, fun hs => ?_⟩
  have again : Twins s.store.Has s ((eval rounds depth e).final s) :=
    ⟨ht, hs, trivial, fun hv => hv.has s.store⟩
  have h := again.eval rounds depth he s _ (.refl s) (.refl _)
  have first := safe_eval rounds depth e s.store s (.refl _) hs
  generalize hr : eval rounds depth e s = r at h first
  cases r with
  | ok v t =>
    rw [Run.final_ok hr] at h again ⊢
    have second := safe_eval rounds depth e t.store t (.refl _) first.2.1
    generalize eval rounds depth e t = r' at h second
    cases h with
    | ok hv hs' hu => exact .value (hv.again again.padded.store hu.store first.2.2 second.2.2)
  | error x t =>
    rw [Run.final_error hr] at h again ⊢
    have second := safe_eval rounds depth e t.store t (.refl _) first.2.1
    generalize eval rounds depth e t = r' at h second
    cases h with
    | error hx hs' hu =>
      cases hx with
      | same hx => exact .exit hx
      | result hv => exact .result (hv.again again.padded.store hu.store first.2.2 second.2.2)

/-- Two evaluations leave a function with two arrays. -/
theorem eval_onlyReads_result :
    Session.withDictionary.Closed ∧
      ∃ t u, eval 1 2 (.unary .result (.root .emptyArray)) Session.withDictionary =
          .error (.result (.array 0)) t ∧
        eval 1 2 (.unary .result (.root .emptyArray)) t = .error (.result (.array 1)) u ∧
        Session.withDictionary.Padded t ∧
        EndsAgain Session.withDictionary (.error (.result (.array 0)) t)
          (.error (.result (.array 1)) u) := by
  refine ⟨Session.closed_withDictionary, _, _, rfl, rfl, ?_⟩
  obtain ⟨hp, ha⟩ := eval_onlyReads 1 2 (e := .unary .result (.root .emptyArray)) rfl
    Session.withDictionary
  exact ⟨hp, ha Session.closed_withDictionary⟩

end Scriptlet
