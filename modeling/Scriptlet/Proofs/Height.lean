import Scriptlet.Proofs.Escape
import Scriptlet.Proofs.Outcome
import Scriptlet.Proofs.Raised

/-!
# How deeply a tree nests

The height of a tree (`Expr.height`) counts a run of statements as one level, and a run of value
operators too, however long they are (`height_run`). A node that is neither a loop nor a call gives
up only where one of its parts does at its turn (`Turn.avoids_node`), and a part that has a turn is
less high than its node (`Turn.height_lt`). So an evaluation that meets no loop and no call needs no
more room than the height of its tree, and it is never cut off (`avoids_eval`).

* `length_costs_no_depth`: both, and that a run needs one level of room more than its parts.
-/

namespace Scriptlet

/-! ## Height -/

/-- The operators that are evaluated along the left edge of a tree. -/
inductive RunKind where
  | statements
  | operators
deriving DecidableEq

/-- The kind of run that an operator goes on with, if it goes on with any. -/
def BinaryOp.run : BinaryOp → Option RunKind
  | sequence => some .statements
  | operator _ => some .operators
  | _ => none

namespace Expr

/-- The kind of run that a tree is. -/
def run : Expr → Option RunKind
  | binary op _ _ => op.run
  | _ => none

/-- The number of levels of a tree. A tree on the left that is a part of the same run is on the same
level. -/
def height : Expr → Nat
  | unary _ e => e.height + 1
  | binary op l r =>
    max (if op.run.isSome ∧ l.run = op.run then l.height else l.height + 1) (r.height + 1)
  | element _ index => index.height + 1
  | call _ argument => argument.height + 1
  | strangeUnary _ e => e.height + 1
  | strangeBinary _ l r => max l.height r.height + 1
  | _ => 1

/-- The tree has neither a loop nor a call outside of function definitions. -/
def runsThrough : Expr → Bool
  | unary _ e => e.runsThrough
  | binary .loop _ _ => false
  | binary .assign (call _ _) _ => true
  | binary _ l r => l.runsThrough && r.runsThrough
  | element _ index => index.runsThrough
  | call _ _ => false
  | strangeUnary _ e => e.runsThrough
  | strangeBinary _ l r => l.runsThrough && r.runsThrough
  | _ => true

theorem runsThrough_assign {target : Expr} (h : ∀ n a, target ≠ call n a) (e : Expr) :
    (binary .assign target e).runsThrough = (target.runsThrough && e.runsThrough) := by
  cases target with
  | call n a => exact absurd rfl (h n a)
  | _ => rfl

theorem height_pos (e : Expr) : 0 < e.height := by
  cases e with
  | binary op l r =>
    simp only [height]
    omega
  | _ => simp [height]

theorem height_lt_left {op : BinaryOp} {l : Expr} (h : l.run ≠ op.run ∨ op.run = none) (r : Expr) :
    l.height < (binary op l r).height := by
  have hne : ¬ (op.run.isSome ∧ l.run = op.run) := by
    rintro ⟨hs, hl⟩
    rcases h with h | h
    · exact h hl
    · simp [h] at hs
  simp only [height, if_neg hne]
  omega

theorem height_le_left (op : BinaryOp) (l r : Expr) : l.height ≤ (binary op l r).height := by
  simp only [height]
  split <;> omega

theorem height_lt_right (op : BinaryOp) (l r : Expr) : r.height < (binary op l r).height := by
  simp only [height]
  omega

theorem run_ne_statements {e : Expr} (h : ∀ l r, e ≠ binary .sequence l r) :
    e.run ≠ some .statements := by
  intro hr
  cases e with
  | binary op l r =>
    cases op with
    | sequence => exact h l r rfl
    | _ => cases hr
  | _ => cases hr

theorem run_ne_operators {e : Expr} (h : ∀ op l r, e ≠ binary (.operator op) l r) :
    e.run ≠ some .operators := by
  intro hr
  cases e with
  | binary op l r =>
    cases op with
    | operator op => exact h op l r rfl
    | _ => cases hr
  | _ => cases hr

theorem height_lt_index (n : String) (i : Expr) : i.height < (element n i).height :=
  Nat.lt_succ_self _

/-- The tree that operators and their right sides make of a tree on their left. -/
def runFrom (first : Expr) (later : List (BinaryOp × Expr)) : Expr :=
  later.foldl (fun l (op, r) => binary op l r) first

theorem height_runFrom_of_run {k : RunKind} {e : Expr} (he : e.run = some k)
    {later : List (BinaryOp × Expr)} (hl : ∀ p ∈ later, p.1.run = some k) :
    (e.runFrom later).height = later.foldl (fun h p => max h (p.2.height + 1)) e.height := by
  induction later generalizing e with
  | nil => rfl
  | cons p later ih =>
    obtain ⟨op, r⟩ := p
    obtain ⟨hop, hl⟩ := List.forall_mem_cons.1 hl
    have hh : (binary op e r).height = max e.height (r.height + 1) := by
      simp [height, he, show op.run = some k from hop]
    rw [runFrom, List.foldl_cons, List.foldl_cons, ← hh]
    exact ih hop hl

/-- A run of any length is one level above its highest part. -/
theorem height_run {k : RunKind} {first : Expr} (hf : first.run ≠ some k)
    {later : List (BinaryOp × Expr)} (hl : ∀ p ∈ later, p.1.run = some k) (hne : later ≠ []) :
    (first.runFrom later).height = later.foldl (fun h p => max h p.2.height) first.height + 1 := by
  obtain ⟨⟨op, r⟩, later, rfl⟩ := List.exists_cons_of_ne_nil hne
  obtain ⟨hop, hl⟩ := List.forall_mem_cons.1 hl
  have hop : op.run = some k := hop
  have hh : (binary op first r).height = max first.height r.height + 1 := by
    simp only [height, hop, Option.isSome_some, true_and, if_neg hf]
    omega
  have hfold : ∀ (later : List (BinaryOp × Expr)) (h : Nat),
      later.foldl (fun h p => max h (p.2.height + 1)) (h + 1) =
        later.foldl (fun h p => max h p.2.height) h + 1 := by
    intro later
    induction later with
    | nil => exact fun h => rfl
    | cons p later ih =>
      intro h
      rw [List.foldl_cons, List.foldl_cons, ← ih]
      congr 1
      omega
  rw [List.foldl_cons, ← hfold, ← hh]
  exact height_runFrom_of_run (e := binary op first r) hop hl

end Expr

/-! ## Giving up -/

/-- The evaluation was not finished for want of room or of rounds. -/
inductive Exit.IsLimit : Exit → Prop
  | unfinished : IsLimit .unfinished
  | tooDeep : IsLimit (.error .tooDeep)

/-- The run does not exit in one of some ways. -/
def Run.Avoids {α : Type} (up : Exit → Prop) (x : Run α) (s : Session) : Prop :=
  ∀ e t, x s = .error e t → ¬ up e

/-- The run has room enough if it does not exit for want of it. -/
theorem Run.fits_iff_avoids {α : Type} {x : Run α} {s : Session} :
    x.Fits s ↔ x.Avoids (· = .error .tooDeep) s := by
  constructor
  · rintro h _ t hx rfl
    exact h t hx
  · exact fun h t hx => h _ t hx rfl

/-- The value does not fail for want of room. -/
def NeverTooDeep {α : Type} (r : Except EvalError α) : Prop := r ≠ .error .tooDeep

theorem neverTooDeep_toDouble (v : Value) : NeverTooDeep v.toDouble := by
  unfold Value.toDouble NeverTooDeep
  split
  · exact nofun
  · exact nofun
  · split <;> exact nofun
  · exact nofun

theorem neverTooDeep_toText (v : Value) : NeverTooDeep v.toText := by
  unfold Value.toText NeverTooDeep
  split <;> exact nofun

theorem NeverTooDeep.bind {α β : Type} {r : Except EvalError α} {f : α → Except EvalError β}
    (hr : NeverTooDeep r) (hf : ∀ a, NeverTooDeep (f a)) : NeverTooDeep (r >>= f) := by
  cases r with
  | ok a => exact hf a
  | error e =>
    intro h
    exact hr (congrArg Except.error (Except.error.inj h))

theorem neverTooDeep_ok {α : Type} (a : α) : NeverTooDeep (Pure.pure a : Except EvalError α) :=
  nofun

theorem neverTooDeep_apply (op : Operator) (v w : Value) : NeverTooDeep (op.apply v w) := by
  have numeric : NeverTooDeep (op.numeric v w) :=
    (neverTooDeep_toDouble v).bind fun _ => (neverTooDeep_toDouble w).bind fun _ =>
      neverTooDeep_ok _
  unfold Operator.apply
  split
  · exact numeric
  · exact numeric
  · split
    · exact (neverTooDeep_toText w).bind fun _ => neverTooDeep_ok _
    · exact (neverTooDeep_toText w).bind fun _ => neverTooDeep_ok _
    · exact numeric
  · exact nofun

theorem neverTooDeep_getItem (s : Store) (c i : Value) : NeverTooDeep (s.getItem c i) := by
  unfold Store.getItem NeverTooDeep
  split
  · split <;> exact nofun
  · split <;> exact nofun
  · exact nofun

theorem neverTooDeep_slot (s : Store) (c i : Value) : NeverTooDeep (s.slot c i) := by
  unfold Store.slot NeverTooDeep
  split
  · exact nofun
  · split <;> exact nofun
  · exact nofun

namespace Run.Avoids

variable {α β : Type} {up : Exit → Prop} {s t : Session}

theorem of_ok {x : Run α} {a : α} (h : x s = .ok a t) : x.Avoids up s := by
  intro e u hu
  rw [h] at hu
  cases hu

theorem of_eq {x y : Run α} (h : x.Avoids up s) (hy : y s = x s) : y.Avoids up s := by
  intro e u hu
  exact h e u (hy ▸ hu)

theorem bind {x : Run α} {f : α → Run β} (hx : x.Avoids up s)
    (hf : ∀ a t, x s = .ok a t → (f a).Avoids up t) : (x >>= f).Avoids up s := by
  intro e u h
  rw [bind_apply] at h
  cases hxs : x s with
  | ok a t =>
    rw [hxs] at h
    exact hf a t hxs e u h
  | error e' t =>
    rw [hxs] at h
    cases h
    exact hx e u hxs

section
variable (hup : ∀ e, up e → e.IsLimit)
include hup

theorem throw {e : Exit} (h : ¬ e.IsLimit) : (MonadExcept.throw e : Run α).Avoids up s := by
  rintro e' t he hu
  cases he
  exact h (hup e hu)

theorem fail {e : EvalError} (h : e ≠ .tooDeep) : (Run.fail e : Run α).Avoids up s := by
  refine throw hup fun hl => ?_
  cases hl
  exact h rfl

theorem ofExcept {r : Except EvalError α} (h : NeverTooDeep r) : (Run.ofExcept r).Avoids up s := by
  cases r with
  | ok a => exact of_ok rfl
  | error e => exact fail hup fun he => h (congrArg _ he)

theorem getItem (c i : Value) : (Run.getItem c i).Avoids up s :=
  (ofExcept hup (neverTooDeep_getItem s.store c i)).of_eq rfl

theorem setItem (c i v : Value) : (Run.setItem c i v).Avoids up s := by
  refine of_eq (x := do
    let slot ← Run.ofExcept (s.store.slot c i)
    modify fun s => { s with store := s.store.write slot v }) ?_ rfl
  exact (ofExcept hup (neverTooDeep_slot s.store c i)).bind fun _ _ _ => of_ok rfl

theorem unary (op : UnaryOp) (v : Value) : (op.apply v).Avoids up s := by
  have number (f : Float → Float) :
      (do return .number (f (← Run.ofExcept v.toDouble)) : Run Value).Avoids up s :=
    (ofExcept hup (neverTooDeep_toDouble v)).bind fun _ _ _ => of_ok rfl
  cases op with
  | plus => exact number fun x => x
  | minus => exact number fun x => -x
  | not => exact of_ok rfl
  | result => exact throw hup nofun

theorem applyStrange (op : Form) (v w : Value) : (Eval.applyStrange op v w).Avoids up s := by
  have double (v : Value) (s : Session) : (Run.ofExcept v.toDouble).Avoids up s :=
    ofExcept hup (neverTooDeep_toDouble v)
  cases v with
  | number _ | null | text _ =>
    refine (double _ s).bind fun _ t _ => ?_
    refine (double _ t).bind fun _ _ _ => ?_
    exact throw hup nofun
  | _ => exact fail hup nofun

end

end Run.Avoids

/-! ## Parts at their turns -/

namespace Turn

variable {f : Expr → Run Value} {e o : Expr} {s t : Session} {up : Exit → Prop}

/-- The induction goes down the left edge of the tree, as the turns do. -/
theorem avoids_sequence
    (h : ∀ o t, (∀ r, Turn f (.binary .sequence e r) s o t) → (f o).Avoids up t) :
    (Eval.sequence f e).Avoids up s := by
  induction e with
  | binary op a b iha _ =>
    by_cases hop : op = .sequence
    · subst hop
      rw [Eval.sequence_append]
      refine (iha fun o t ht => h o t fun r => .earlier (ht b)).bind fun v t hv => ?_
      exact h b t fun r => .earlier (.last hv)
    · rw [(Eval.sequence_cases (.binary op a b)).resolve_left (by simp [hop])]
      exact h _ s fun r => .first (by simp [hop])
  | _ => exact h _ s fun r => .first nofun

section
variable (hup : ∀ e, up e → e.IsLimit)
include hup

theorem avoids_operators
    (h : ∀ o t, (∀ op r, Turn f (.binary (.operator op) e r) s o t) → (f o).Avoids up t) :
    (Eval.operators f e).Avoids up s := by
  induction e with
  | binary op a b iha _ =>
    by_cases hop : ∃ op', op = .operator op'
    · obtain ⟨op, rfl⟩ := hop
      rw [Eval.operators_append]
      refine (iha fun o t ht => h o t fun op' r => .inner (ht op b)).bind fun v t hv => ?_
      refine (h b t fun op' r => .inner (.right hv)).bind fun w _ _ => ?_
      exact .ofExcept hup (neverTooDeep_apply op v w)
    · have hne : ∀ op' a' b', Expr.binary op a b ≠ .binary (.operator op') a' b' := by
        intro op' a' b' he
        exact hop ⟨op', (Expr.binary.inj he).1⟩
      rw [(Eval.operators_cases (.binary op a b)).resolve_left fun ⟨op', a', b', he⟩ =>
        hne op' a' b' he]
      exact h _ s fun op' r => .leftmost hne
  | _ =>
    rw [(Eval.operators_cases _).resolve_left (by simp)]
    exact h _ s fun op' r => .leftmost nofun

theorem avoids_write {target : Expr} {v : Value} (he : f e s = .ok v t)
    (h : ∀ o u, Turn f (.binary .assign target e) s o u → (f o).Avoids up u) :
    (Eval.write f v target).Avoids up t := by
  have place : (Run.fail (.badTarget .notAssignable) : Run Unit).Avoids up t := .fail hup nofun
  cases target with
  | ident n => exact .of_ok rfl
  | binary op c key =>
    cases op with
    | member =>
      cases key with
      | ident key => exact (h _ _ (.memberTarget he)).bind fun c _ _ => .setItem hup c _ v
      | _ => exact place
    | _ => exact place
  | element n i =>
    refine (h _ _ (.elementTarget he)).bind fun i u _ => ?_
    refine Run.Avoids.bind (.of_ok (Run.get_apply u n)) fun c _ _ => ?_
    exact .setItem hup c i v
  | _ => exact place

theorem avoids_assign {target : Expr}
    (h : ∀ o u, Turn f (.binary .assign target e) s o u → (f o).Avoids up u) :
    (Eval.assign f target e).Avoids up s := by
  by_cases hc : ∃ n a, target = .call n a
  · obtain ⟨n, a, rfl⟩ := hc
    cases a with
    | ident p => exact .of_ok rfl
    | _ => exact .fail hup nofun
  · have hne : ∀ n a, target ≠ .call n a := fun n a ht => hc ⟨n, a, ht⟩
    rw [Eval.assign_of_ne_call hne]
    refine (h _ _ (.assigned hne)).bind fun v t he => ?_
    exact (avoids_write hup he h).bind fun _ _ _ => .of_ok rfl

/-- A node that is neither a loop nor a call gives up only where a part does at its turn. -/
theorem avoids_node (rounds : Nat) (hl : ∀ c b, e ≠ .binary .loop c b) (hc : ∀ n a, e ≠ .call n a)
    (h : ∀ o t, Turn f e s o t → (f o).Avoids up t) : (Eval.node rounds f e).Avoids up s := by
  cases e with
  | number x | text x | ident n => exact .of_ok rfl
  | strange w => exact .throw hup nofun
  | root r =>
    cases r with
    | stop => exact .throw hup nofun
    | _ => exact .of_ok rfl
  | unary op e => exact (h _ _ .operand).bind fun v _ _ => .unary hup op v
  | element n i =>
    refine Run.Avoids.bind (.of_ok (Run.get_apply s n)) fun c t hg => ?_
    cases hg
    exact (h _ _ .index).bind fun i _ _ => .getItem hup _ i
  | call n a => exact absurd rfl (hc n a)
  | strangeUnary op e => exact (h _ _ .strangeOperand).bind fun _ _ _ => .of_ok rfl
  | strangeBinary op l r =>
    refine (h _ _ .strangeLeft).bind fun v t hv => ?_
    refine (h _ _ (.strangeRight hv)).bind fun w _ _ => ?_
    exact .applyStrange hup op v w
  | binary op l r =>
    cases op with
    | loop => exact absurd rfl (hl l r)
    | sequence =>
      rw [Eval.node_sequence, Eval.sequence_append]
      refine (avoids_sequence fun o t ht => h o t (ht r)).bind fun v t hv => ?_
      exact h r t (.last hv)
    | operator op =>
      rw [Eval.node_operator, Eval.operators_append]
      refine (avoids_operators hup fun o t ht => h o t (ht op r)).bind fun v t hv => ?_
      refine (h r t (.right hv)).bind fun w _ _ => ?_
      exact .ofExcept hup (neverTooDeep_apply op v w)
    | member =>
      refine (h _ _ .container).bind fun v _ _ => ?_
      split
      · exact .getItem hup _ _
      · exact .fail hup nofun
      · exact .fail hup nofun
    | assign => exact avoids_assign hup h
    | conditional wanted =>
      refine (h _ _ .condition).bind fun v t hv => ?_
      dsimp only
      split
      · rename_i hw
        exact h _ _ (.branch hv hw)
      · exact .of_ok rfl
    | otherwise =>
      by_cases hcond : ∃ wanted c b, l = .binary (.conditional wanted) c b
      · obtain ⟨wanted, c, b, rfl⟩ := hcond
        refine (h _ _ .otherCondition).bind fun v t hv => ?_
        dsimp only
        split
        · rename_i hw
          exact h _ _ (.otherBranch hv hw)
        · rename_i hw
          exact h _ _ (.alternative hv hw)
      · show (Eval.alternative f l r).Avoids up s
        unfold Eval.alternative
        split
        · exact absurd ⟨_, _, _, rfl⟩ hcond
        · exact .fail hup nofun

end

/-- A part that has a turn is less high than its node. -/
theorem height_lt (h : Turn f e s o t) : o.height < e.height := by
  have other {op : BinaryOp} (hop : op.run = none) (l r : Expr) :
      l.height < (Expr.binary op l r).height := Expr.height_lt_left (.inr hop) r
  induction h with
  | first hl => exact Expr.height_lt_left (.inl fun h => Expr.run_ne_statements hl h) _
  | leftmost hl => exact Expr.height_lt_left (.inl fun h => Expr.run_ne_operators hl h) _
  | earlier _ ih | inner _ ih => exact Nat.lt_of_lt_of_le ih (Expr.height_le_left _ _ _)
  | last _ | right _ | assigned _ | branch _ _ | alternative _ _ => exact Expr.height_lt_right _ _ _
  | container | condition => exact other rfl _ _
  | otherCondition | memberTarget _ => exact Nat.lt_trans (other rfl _ _) (other rfl _ _)
  | elementTarget _ => exact Nat.lt_trans (Expr.height_lt_index _ _) (other rfl _ _)
  | otherBranch _ _ => exact Nat.lt_trans (Expr.height_lt_right _ _ _) (other rfl _ _)
  | operand | index | argument | strangeOperand => exact Nat.lt_succ_self _
  | strangeLeft => exact Nat.lt_succ_of_le (Nat.le_max_left _ _)
  | strangeRight _ => exact Nat.lt_succ_of_le (Nat.le_max_right _ _)

/-- The parts that have a turn have no loop and no call if their node has none. -/
theorem runsThrough (h : Turn f e s o t) (he : e.runsThrough) : o.runsThrough := by
  have both {op : BinaryOp} {l r : Expr} (h : (Expr.binary op l r).runsThrough)
      (hop : op ≠ .assign) : l.runsThrough ∧ r.runsThrough := by
    cases op <;> simp_all [Expr.runsThrough]
  induction h with
  | first _ | leftmost _ | container | condition => exact (both he nofun).1
  | last _ | right _ | branch _ _ | alternative _ _ => exact (both he nofun).2
  | earlier _ ih | inner _ ih => exact ih (both he nofun).1
  | otherCondition => exact (both (both he nofun).1 nofun).1
  | otherBranch _ _ => exact (both (both he nofun).1 nofun).2
  | assigned hc =>
    rw [Expr.runsThrough_assign hc, Bool.and_eq_true] at he
    exact he.2
  | memberTarget _ =>
    rw [Expr.runsThrough_assign (by simp), Bool.and_eq_true] at he
    exact (both he.1 nofun).1
  | elementTarget _ =>
    rw [Expr.runsThrough_assign (by simp), Bool.and_eq_true] at he
    exact he.1
  | operand | index | strangeOperand => exact he
  | argument => cases he
  | strangeLeft =>
    rw [Expr.runsThrough, Bool.and_eq_true] at he
    exact he.1
  | strangeRight _ =>
    rw [Expr.runsThrough, Bool.and_eq_true] at he
    exact he.2

end Turn

/-! ## Evaluations -/

/-- With room for the height of a tree that has neither a loop nor a call, its evaluation neither
fails for want of room nor is cut off. -/
theorem avoids_eval (rounds : Nat) {depth : Nat} {e : Expr} (he : e.runsThrough)
    (hd : e.height ≤ depth) (s : Session) : (eval rounds depth e).Avoids Exit.IsLimit s := by
  induction depth generalizing e s with
  | zero => exact absurd e.height_pos (by omega)
  | succ depth ih =>
    have hl (c b : Expr) : e ≠ .binary .loop c b := by
      rintro rfl
      cases he
    have hc (n : String) (a : Expr) : e ≠ .call n a := by
      rintro rfl
      cases he
    refine Turn.avoids_node (fun _ => id) rounds hl hc fun o t ht => ?_
    have := ht.height_lt
    exact ih (ht.runsThrough he) (by omega) t

/-- With any room such an evaluation is not cut off: with more room it would be cut off too. -/
theorem eval_ne_unfinished (rounds depth : Nat) {e : Expr} (he : e.runsThrough) (s t : Session) :
    eval rounds depth e s ≠ .error .unfinished t := by
  intro h
  have hmore : eval rounds (depth + e.height) e s = .error .unfinished t := by
    rw [eval_of_depth_le (Nat.le_add_right depth e.height) fun u hu => ?_, h]
    rw [h] at hu
    cases hu
  exact avoids_eval rounds he (Nat.le_add_left e.height depth) s _ t hmore .unfinished

/-- A run of statements or of value operators has room exactly if each of its operands has room on
the level below, at its turn. -/
theorem fits_run_iff (rounds depth : Nat) {op : BinaryOp} (hop : op.run.isSome) (l r : Expr)
    (s : Session) :
    (eval rounds (depth + 1) (.binary op l r)).Fits s ↔
      ∀ o t, Turn (eval rounds depth) (.binary op l r) s o t → (eval rounds depth o).Fits t := by
  constructor
  · intro h o t ht u hu
    exact h u (ht.node_of_turn rounds hu)
  · intro h
    have hl (c b : Expr) : Expr.binary op l r ≠ .binary .loop c b := by
      rintro ⟨⟩
      cases hop
    have hup : ∀ e, e = Exit.error .tooDeep → e.IsLimit := by
      rintro _ rfl
      exact .tooDeep
    refine Run.fits_iff_avoids.2 (Turn.avoids_node hup rounds hl nofun fun o t ht => ?_)
    exact Run.fits_iff_avoids.1 (h o t ht)

section
variable {e : Expr} (he : e.runsThrough) (s : Session)
include he

theorem evaluateWithin_ne_unfinished (limits : Limits) :
    (s.evaluateWithin limits e).1 ≠ .error .unfinished := by
  have hu := eval_ne_unfinished limits.rounds limits.depth he s
  unfold Session.evaluateWithin
  cases hr : eval limits.rounds limits.depth e s with
  | ok v t => simp
  | error x t =>
    cases x with
    | unfinished => exact absurd hr (hu t)
    | error e => cases e <;> simp
    | _ => simp

theorem evaluateWithin_ne_tooDeep {limits : Limits} (hd : e.height ≤ limits.depth) :
    (s.evaluateWithin limits e).1 ≠ .error (.eval .tooDeep) := by
  have hu := avoids_eval limits.rounds he hd s
  unfold Session.evaluateWithin
  cases hr : eval limits.rounds limits.depth e s with
  | ok v t => simp
  | error x t =>
    cases x with
    | error e =>
      cases e with
      | tooDeep => exact absurd .tooDeep (hu _ t hr)
      | _ => simp
    | _ => simp

/-- Room for the height is all that such an evaluation can use, and it needs no round of a loop. -/
theorem evaluateWithin_of_height_le {limits : Limits} (hd : e.height ≤ limits.depth) :
    s.evaluateWithin limits e = s.evaluateWithin ⟨e.height, 0⟩ e := by
  have hfits : (s.evaluateWithin ⟨e.height, limits.rounds⟩ e).1 ≠ .error (.eval .tooDeep) :=
    evaluateWithin_ne_tooDeep he s (Nat.le_refl _)
  have hdepth := evaluateWithin_of_depth_le hd hfits
  have hrounds := evaluateWithin_of_rounds_le (Nat.zero_le limits.rounds)
    (evaluateWithin_ne_unfinished he s ⟨e.height, 0⟩)
  exact hdepth.trans hrounds

end

/-- The length of a run costs no depth. A tree that has neither a loop nor a call outside of
function definitions is evaluated to its end in every session and within all limits; with room for
its height it does not fail for nesting too deeply, and comes to the same as with just that room and
no round for a loop. A run of statements or of value operators is one level higher than its highest
part, however long it is. And whatever the parts of a run are, it has room if and only if each part
has room one level below, at its turn. -/
theorem length_costs_no_depth :
    (∀ (e : Expr) (limits : Limits) (s : Session), e.runsThrough →
      (s.evaluateWithin limits e).1 ≠ .error .unfinished ∧
      (e.height ≤ limits.depth → (s.evaluateWithin limits e).1 ≠ .error (.eval .tooDeep) ∧
        s.evaluateWithin limits e = s.evaluateWithin ⟨e.height, 0⟩ e)) ∧
    (∀ (k : RunKind) (first : Expr) (later : List (BinaryOp × Expr)), first.run ≠ some k →
      (∀ p ∈ later, p.1.run = some k) → later ≠ [] →
      (first.runFrom later).height =
        later.foldl (fun h p => max h p.2.height) first.height + 1) ∧
    ∀ (rounds depth : Nat) (op : BinaryOp) (l r : Expr) (s : Session), op.run.isSome →
      ((eval rounds (depth + 1) (.binary op l r)).Fits s ↔
        ∀ o t, Turn (eval rounds depth) (.binary op l r) s o t →
          (eval rounds depth o).Fits t) := by
  refine ⟨fun e limits s he => ?_, ?_, ?_⟩
  · refine ⟨evaluateWithin_ne_unfinished he s limits, fun hd => ?_⟩
    exact ⟨evaluateWithin_ne_tooDeep he s hd, evaluateWithin_of_height_le he s hd⟩
  · intro k first later hf hl hne
    exact Expr.height_run hf hl hne
  · intro rounds depth op l r s hop
    exact fits_run_iff rounds depth hop l r s

/-- A run of three operands, the last of which is two levels high: three levels are enough for it,
and as its parts have room on two, it has room on three. -/
theorem length_costs_no_depth_three :
    let later : List (BinaryOp × Expr) :=
      [(.operator (.comparison .equal), .text "b"),
        (.operator (.arithmetic .add), .unary .not (.text "c"))]
    let e := (Expr.text "a").runFrom later
    let s := Session.initial
    e.height = 3 ∧ e.runsThrough ∧
      (s.evaluateWithin ⟨3, 0⟩ e).1 ≠ .error .unfinished ∧
      (s.evaluateWithin ⟨3, 0⟩ e).1 ≠ .error (.eval .tooDeep) ∧
      (eval 0 3 e).Fits s := by
  intro later e s
  obtain ⟨hends, hheight, hfits⟩ := length_costs_no_depth
  have hthree : e.height = 3 :=
    hheight .operators (.text "a") later nofun (by decide) (by decide)
  obtain ⟨hfinished, hdeep⟩ := hends e ⟨3, 0⟩ s rfl
  refine ⟨hthree, rfl, hfinished, (hdeep (Nat.le_of_eq hthree)).1, ?_⟩
  refine (hfits 0 2 (.operator (.arithmetic .add)) _ _ s rfl).2 fun o t ht => ?_
  have hlow : o.height < 3 := Nat.lt_of_lt_of_eq ht.height_lt hthree
  exact fun u hu => avoids_eval 0 (ht.runsThrough rfl) (Nat.le_of_lt_succ hlow) t _ u hu .tooDeep

end Scriptlet
