import Scriptlet.Proofs.Invariant
import Scriptlet.Proofs.Plain

/-!
# Where escapes go

`Turn f e s o t`: the evaluation of the tree `e` in the session `s`, by means of an evaluation `f`
of parts, evaluates the part `o` in the session `t`. The relation says when it is the turn of a
part, and for every node but a loop the turns, and the body of the function that a call finds, are
all that the node depends on (`node_eq_of_turns`).

* `node_of_turn`: however a part exits at its turn, its node exits in the same way and in the same
  session, so nothing is done behind it.
* `resultFree`: the invariant of trees without a result outside of function definitions.
* `eval_escapes`: where breaks and results are stopped, and that they pass everything else.
-/

namespace Scriptlet

/-! ## Turns -/

/-- The part `o` of the tree `e` has its turn in the session `t` when `e` is evaluated in `s`. The
statements of a sequence have their turns one behind the other, and so have the operands of a run of
value operators; both reach down the left edge of the tree. -/
inductive Turn (f : Expr → Run Value) : Expr → Session → Expr → Session → Prop
  | operand {op : UnaryOp} {e : Expr} {s : Session} : Turn f (.unary op e) s e s
  | first {l r : Expr} {s : Session} :
      (∀ a b, l ≠ .binary .sequence a b) → Turn f (.binary .sequence l r) s l s
  | earlier {a b r o : Expr} {s t : Session} : Turn f (.binary .sequence a b) s o t →
      Turn f (.binary .sequence (.binary .sequence a b) r) s o t
  | last {l r : Expr} {s t : Session} {v : Value} :
      Eval.sequence f l s = .ok v t → Turn f (.binary .sequence l r) s r t
  | leftmost {op : Operator} {l r : Expr} {s : Session} :
      (∀ op' a b, l ≠ .binary (.operator op') a b) → Turn f (.binary (.operator op) l r) s l s
  | inner {op op' : Operator} {a b r o : Expr} {s t : Session} :
      Turn f (.binary (.operator op') a b) s o t →
      Turn f (.binary (.operator op) (.binary (.operator op') a b) r) s o t
  | right {op : Operator} {l r : Expr} {s t : Session} {v : Value} :
      Eval.operators f l s = .ok v t → Turn f (.binary (.operator op) l r) s r t
  | container {c key : Expr} {s : Session} : Turn f (.binary .member c key) s c s
  | assigned {target e : Expr} {s : Session} :
      (∀ n a, target ≠ .call n a) → Turn f (.binary .assign target e) s e s
  | memberTarget {c e : Expr} {key : String} {s t : Session} {v : Value} :
      f e s = .ok v t → Turn f (.binary .assign (.binary .member c (.ident key)) e) s c t
  | elementTarget {n : String} {i e : Expr} {s t : Session} {v : Value} :
      f e s = .ok v t → Turn f (.binary .assign (.element n i) e) s i t
  | condition {wanted : Bool} {c b : Expr} {s : Session} :
      Turn f (.binary (.conditional wanted) c b) s c s
  | branch {wanted : Bool} {c b : Expr} {s t : Session} {v : Value} :
      f c s = .ok v t → v.isTrue = wanted → Turn f (.binary (.conditional wanted) c b) s b t
  | otherCondition {wanted : Bool} {c b e : Expr} {s : Session} :
      Turn f (.binary .otherwise (.binary (.conditional wanted) c b) e) s c s
  | otherBranch {wanted : Bool} {c b e : Expr} {s t : Session} {v : Value} :
      f c s = .ok v t → v.isTrue = wanted →
      Turn f (.binary .otherwise (.binary (.conditional wanted) c b) e) s b t
  | alternative {wanted : Bool} {c b e : Expr} {s t : Session} {v : Value} :
      f c s = .ok v t → v.isTrue ≠ wanted →
      Turn f (.binary .otherwise (.binary (.conditional wanted) c b) e) s e t
  | index {n : String} {i : Expr} {s : Session} : Turn f (.element n i) s i s
  | argument {n : String} {a : Expr} {s : Session} : Turn f (.call n a) s a s
  | strangeOperand {op : Form} {e : Expr} {s : Session} : Turn f (.strangeUnary op e) s e s
  | strangeLeft {op : Form} {l r : Expr} {s : Session} : Turn f (.strangeBinary op l r) s l s
  | strangeRight {op : Form} {l r : Expr} {s t : Session} {v : Value} :
      f l s = .ok v t → Turn f (.strangeBinary op l r) s r t

namespace Turn

variable {f : Expr → Run Value} {e o : Expr} {s t u : Session} {x : Exit}

/-- However a part exits at its turn, its node exits in the same way and in the same session. -/
theorem node_of_turn (rounds : Nat) (h : Turn f e s o t) (ho : f o t = .error x u) :
    Eval.node rounds f e s = .error x u := by
  induction h with
  | operand => exact Run.bind_of_error ho
  | @first l r s hl =>
    rw [Eval.node_sequence, Eval.sequence_append,
      (Eval.sequence_cases l).resolve_left fun ⟨a, b, h⟩ => hl a b h]
    exact Run.bind_of_error ho
  | @earlier a b r o s t _ ih =>
    rw [Eval.node_sequence, Eval.sequence_append]
    exact Run.bind_of_error (ih ho)
  | last hl =>
    rw [Eval.node_sequence, Eval.sequence_append, Run.bind_of_ok hl]
    exact ho
  | @leftmost op l r s hl =>
    rw [Eval.node_operator, Eval.operators_append,
      (Eval.operators_cases l).resolve_left fun ⟨op, a, b, h⟩ => hl op a b h]
    exact Run.bind_of_error ho
  | @inner op op' a b r o s t _ ih =>
    rw [Eval.node_operator, Eval.operators_append]
    exact Run.bind_of_error (ih ho)
  | right hl =>
    rw [Eval.node_operator, Eval.operators_append, Run.bind_of_ok hl]
    exact Run.bind_of_error ho
  | container => exact Run.bind_of_error ho
  | @assigned target e s hc =>
    exact (congrFun (Eval.assign_of_ne_call hc e) s).trans (Run.bind_of_error ho)
  | memberTarget he => exact (Run.bind_of_ok he).trans (Run.bind_of_error (Run.bind_of_error ho))
  | elementTarget he => exact (Run.bind_of_ok he).trans (Run.bind_of_error (Run.bind_of_error ho))
  | condition => exact Run.bind_of_error ho
  | branch hc hw =>
    refine (Run.bind_of_ok hc).trans ?_
    rw [if_pos hw]
    exact ho
  | otherCondition => exact Run.bind_of_error ho
  | otherBranch hc hw =>
    refine (Run.bind_of_ok hc).trans ?_
    rw [if_pos hw]
    exact ho
  | alternative hc hw =>
    refine (Run.bind_of_ok hc).trans ?_
    rw [if_neg hw]
    exact ho
  | @index n i s => exact (Run.bind_of_ok (Run.get_apply s n)).trans (Run.bind_of_error ho)
  | argument => exact Run.bind_of_error ho
  | strangeOperand => exact Run.bind_of_error ho
  | strangeLeft => exact Run.bind_of_error ho
  | strangeRight hl => exact (Run.bind_of_ok hl).trans (Run.bind_of_error ho)

/-! ## Nothing but turns -/

variable {g : Expr → Run Value}

theorem bind_congr_of_eq {α β : Type} {y z : Run α} {k k' : α → Run β} (h : z s = y s)
    (hk : ∀ a t, y s = .ok a t → k' a t = k a t) : (z >>= k') s = (y >>= k) s := by
  rw [Run.bind_apply, Run.bind_apply, h]
  cases hy : y s with
  | ok a t => exact hk a t hy
  | error e t => rfl

theorem sequence_congr
    (h : ∀ o t, (∀ r, Turn f (.binary .sequence e r) s o t) → g o t = f o t) :
    Eval.sequence g e s = Eval.sequence f e s := by
  induction e with
  | binary op a b iha _ =>
    by_cases hop : op = .sequence
    · subst hop
      rw [Eval.sequence_append, Eval.sequence_append]
      refine bind_congr_of_eq (iha fun o t ht => h o t fun r => .earlier (ht b)) fun v t hv => ?_
      exact h b t fun r => .earlier (.last hv)
    · have hne : ∀ a' b', Expr.binary op a b ≠ .binary .sequence a' b' := by simp [hop]
      have hc := (Eval.sequence_cases (.binary op a b)).resolve_left (by simp [hop])
      rw [hc, hc]
      exact h _ s fun r => .first hne
  | _ => exact h _ s fun r => .first nofun

theorem operators_congr
    (h : ∀ o t, (∀ op r, Turn f (.binary (.operator op) e r) s o t) → g o t = f o t) :
    Eval.operators g e s = Eval.operators f e s := by
  induction e with
  | binary op a b iha _ =>
    by_cases hop : ∃ op', op = .operator op'
    · obtain ⟨op, rfl⟩ := hop
      rw [Eval.operators_append, Eval.operators_append]
      refine bind_congr_of_eq (iha fun o t ht => h o t fun op' r => .inner (ht op b))
        fun v t hv => ?_
      exact bind_congr_of_eq (h b t fun op' r => .inner (.right hv)) fun _ _ _ => rfl
    · have hne : ∀ op' a' b', Expr.binary op a b ≠ .binary (.operator op') a' b' := by
        intro op' a' b' he
        exact hop ⟨op', (Expr.binary.inj he).1⟩
      have hc := (Eval.operators_cases (.binary op a b)).resolve_left fun ⟨op', a', b', he⟩ =>
        hne op' a' b' he
      rw [hc, hc]
      exact h _ s fun op' r => .leftmost hne
  | _ =>
    rw [(Eval.operators_cases _).resolve_left (by simp),
      (Eval.operators_cases _).resolve_left (by simp)]
    exact h _ s fun op' r => .leftmost nofun

theorem write_congr {target : Expr} {v : Value}
    (he : f e s = .ok v t) (h : ∀ o u, Turn f (.binary .assign target e) s o u → g o u = f o u) :
    Eval.write g v target t = Eval.write f v target t := by
  cases target with
  | binary op c key =>
    cases op with
    | member =>
      cases key with
      | ident key => exact bind_congr_of_eq (h _ _ (.memberTarget he)) fun _ _ _ => rfl
      | _ => rfl
    | _ => rfl
  | element n i => exact bind_congr_of_eq (h _ _ (.elementTarget he)) fun _ _ _ => rfl
  | _ => rfl

theorem assign_congr {target : Expr}
    (h : ∀ o u, Turn f (.binary .assign target e) s o u → g o u = f o u) :
    Eval.assign g target e s = Eval.assign f target e s := by
  have plain (hc : ∀ n a, target ≠ .call n a) :
      (do let v ← g e; Eval.write g v target; return v) s =
        (do let v ← f e; Eval.write f v target; return v) s := by
    refine bind_congr_of_eq (h _ _ (.assigned hc)) fun v t he => ?_
    exact bind_congr_of_eq (write_congr he h) fun _ _ _ => rfl
  cases target with
  | call n a => cases a <;> rfl
  | _ => exact plain nofun

theorem enterFunction_congr {x y : Run Value} {p : String} {v : Value}
    (h : y (s.callee p v) = x (s.callee p v)) :
    Eval.enterFunction p v y s = Eval.enterFunction p v x s := by
  have run (z : Run Value) : Eval.enterFunction p v z s = (do
      Run.set p v
      z.untilResult : Run Value).inFrame (s.record (.called p v)) := rfl
  have body (z : Run Value) : (do
      Run.set p v
      z.untilResult : Run Value) (s.record (.called p v)).enter =
        z.untilResult (s.callee p v) := rfl
  rw [run, run, Run.inFrame, Run.inFrame, body, body, Run.untilResult, Run.untilResult, h]

/-- What a node that is no loop does depends on the parts at their turns and, if it is a call, on
the body that it finds. -/
theorem node_eq_of_turns (rounds : Nat) (hl : ∀ c b, e ≠ .binary .loop c b)
    (h : ∀ o t, Turn f e s o t → g o t = f o t)
    (hb : ∀ n a v t p b, e = .call n a → f a s = .ok v t → t.scope.get n = .function p b →
      g b (t.callee p v) = f b (t.callee p v)) :
    Eval.node rounds g e s = Eval.node rounds f e s := by
  cases e with
  | number x | text x | ident n | strange w => rfl
  | root r => cases r <;> rfl
  | unary op e => exact bind_congr_of_eq (h _ _ .operand) fun _ _ _ => rfl
  | element n i =>
    refine bind_congr_of_eq rfl fun c t hc => ?_
    rw [Run.get_apply] at hc
    cases hc
    exact bind_congr_of_eq (h _ _ .index) fun _ _ _ => rfl
  | call n a =>
    refine bind_congr_of_eq (h _ _ .argument) fun v t hv => ?_
    refine bind_congr_of_eq rfl fun c u hc => ?_
    rw [Run.get_apply] at hc
    cases hc
    cases hn : t.scope.get n with
    | function p b => exact enterFunction_congr (hb n a v t p b rfl hv hn)
    | _ => rfl
  | strangeUnary op e => exact bind_congr_of_eq (h _ _ .strangeOperand) fun _ _ _ => rfl
  | strangeBinary op l r =>
    refine bind_congr_of_eq (h _ _ .strangeLeft) fun v t hv => ?_
    exact bind_congr_of_eq (h _ _ (.strangeRight hv)) fun _ _ _ => rfl
  | binary op l r =>
    cases op with
    | loop => exact absurd rfl (hl l r)
    | sequence =>
      rw [Eval.node_sequence, Eval.node_sequence, Eval.sequence_append, Eval.sequence_append]
      refine bind_congr_of_eq (sequence_congr fun o t ht => h o t (ht r)) fun v t hv => ?_
      exact h r t (.last hv)
    | operator op =>
      rw [Eval.node_operator, Eval.node_operator, Eval.operators_append, Eval.operators_append]
      refine bind_congr_of_eq (operators_congr fun o t ht => h o t (ht op r)) fun v t hv => ?_
      exact bind_congr_of_eq (h r t (.right hv)) fun _ _ _ => rfl
    | member => exact bind_congr_of_eq (h _ _ .container) fun _ _ _ => rfl
    | conditional wanted =>
      refine bind_congr_of_eq (h _ _ .condition) fun v t hv => ?_
      dsimp only
      split
      · rename_i hw
        exact h _ _ (.branch hv hw)
      · rfl
    | otherwise =>
      cases l with
      | binary op c b =>
        cases op with
        | conditional wanted =>
          refine bind_congr_of_eq (h _ _ .otherCondition) fun v t hv => ?_
          dsimp only
          split
          · rename_i hw
            exact h _ _ (.otherBranch hv hw)
          · rename_i hw
            exact h _ _ (.alternative hv hw)
        | _ => rfl
      | _ => rfl
    | assign => exact assign_congr h

end Turn

/-! ## Results -/

/-- No result is given outside of the bodies of function definitions. -/
def Expr.resultFree : Expr → Bool
  | unary .result _ => false
  | unary _ e => e.resultFree
  | binary .assign (call _ (ident _)) _ => true
  | binary _ l r => l.resultFree && r.resultFree
  | element _ index => index.resultFree
  | call _ argument => argument.resultFree
  | strangeUnary _ e => e.resultFree
  | strangeBinary _ l r => l.resultFree && r.resultFree
  | _ => true

theorem Expr.resultFree_of_mem_parts {e p : Expr} (he : e.resultFree = true) (hp : p ∈ e.parts) :
    p.resultFree = true := by
  cases e with
  | unary op e => cases op <;> simp_all [parts, resultFree]
  | binary op l r =>
    by_cases hc : op = .assign ∧ ∃ n a, l = .call n a
    · obtain ⟨rfl, n, a, rfl⟩ := hc
      simp [parts] at hp
    · have hparts : parts (.binary op l r) = [l, r] :=
        parts_binary fun ho n a hl => hc ⟨ho, n, a, hl⟩
      have hboth : resultFree (.binary op l r) = (l.resultFree && r.resultFree) := by
        rw [resultFree]
        simp_all
      rw [hboth, Bool.and_eq_true] at he
      rw [hparts, List.mem_cons, List.mem_singleton] at hp
      rcases hp with rfl | rfl
      · exact he.1
      · exact he.2
  | strangeBinary op l r =>
    simp only [resultFree, Bool.and_eq_true] at he
    simp only [parts, List.mem_cons, List.not_mem_nil, or_false] at hp
    rcases hp with rfl | rfl
    · exact he.1
    · exact he.2
  | _ => simp_all [parts, resultFree]

/-- A call gives no result to its caller, whatever its body does. -/
theorem enterFunction_ne_result {x : Run Value} {p : String} {v : Value} {s : Session}
    (h : (x.final (s.callee p v)).scope.below = s.scope.frames) (r : Value) (t : Session) :
    Eval.enterFunction p v x s ≠ .error (.result r) t := by
  rw [enterFunction_apply h]
  cases x (s.callee p v) with
  | ok a u => exact nofun
  | error e u => cases e <;> exact nofun

/-- Trees without a result of their own give none. Their values may be any functions, since a call
stops the result of its body. -/
def resultFree : Invariant where
  name _ := True
  tree e := e.resultFree = true
  value _ := True
  exit x := ∀ v, x ≠ .result v
  session _ := True
  part := Expr.resultFree_of_mem_parts
  target _ := trivial
  definition _ := ⟨trivial, trivial⟩
  plain _ := trivial
  error _ := nofun
  unfinished := nofun
  stop _ := nofun
  result h := by simp [Expr.resultFree] at h
  notATree _ := nofun
  noSuchOperator _ := nofun
  get _ _ := trivial
  item _ _ := trivial
  set _ _ _ := trivial
  write _ _ _ := trivial
  newArray _ := trivial
  newDictionary _ := trivial
  writeLine _ _ := trivial
  call {p b v x} hb _ _ _ s _ := by
    have h := enterFunction_ne_result (hb (s.callee p v))
    cases hr : Eval.enterFunction p v x s with
    | ok a t => exact ⟨trivial, trivial⟩
    | error e t => exact ⟨fun r he => h r t (he ▸ hr), trivial⟩

/-! ## Breaks -/

theorem loop_ne_stop (c b : Run Value) (rounds : Nat) (last : Value) (s t : Session) :
    Eval.loop c b rounds last s ≠ .error .stop t := by
  have any (x : Run Value) : x.Meets (fun _ => True) (fun _ => True) fun _ => True := by
    intro s _
    cases x s <;> exact ⟨trivial, trivial⟩
  have hl : (Eval.loop c b rounds last).Meets (fun _ => True) (fun e => True ∧ e ≠ .stop)
      fun _ => True := .loop (any c) (any b) trivial rounds trivial
  exact fun h => (hl.error trivial h).1.2 rfl

theorem eval_loop_ne_stop (rounds depth : Nat) (c b : Expr) (s t : Session) :
    eval rounds depth (.binary .loop c b) s ≠ .error .stop t := by
  cases depth with
  | zero => exact nofun
  | succ depth => exact loop_ne_stop _ _ _ _ s t

/-- A break in the body of a called function is a break of the call, in the frames of the caller. -/
theorem eval_call_of_stop {rounds depth : Nat} {n p : String} {a b : Expr} {v : Value}
    {s t u : Session} (ha : eval rounds depth a s = .ok v t)
    (hn : t.scope.get n = .function p b)
    (hb : eval rounds depth b (t.callee p v) = .error .stop u) :
    eval rounds (depth + 1) (.call n a) s = .error .stop (u.returnTo t.scope) := by
  have enter : eval rounds (depth + 1) (.call n a) s =
      Eval.enterFunction p v (eval rounds depth b) t := by
    change Eval.call (eval rounds depth) n a s = _
    rw [Eval.call, Run.bind_of_ok ha, Run.bind_of_ok (Run.get_apply t n), hn]
  rw [enter, enterFunction_apply (below_eval rounds depth b (t.callee p v)), hb]

/-- Where escapes go. A loop lets no break out. A tree without a result of its own gives none,
whatever it calls. A break in the body of a called function leaves the call, and the frame of the
call is gone. However a part exits at its turn, an escape included, its node exits in the same way
and in the same session, so nothing more is done; and apart from loops the turns and the body of the
called function are all that a node depends on. At the top an escape is the value it carries. -/
theorem eval_escapes (rounds depth : Nat) :
    (∀ c b s t, eval rounds depth (.binary .loop c b) s ≠ .error .stop t) ∧
    (∀ e : Expr, e.resultFree → ∀ s v t, eval rounds depth e s ≠ .error (.result v) t) ∧
    (∀ n a s v t p b u, eval rounds depth a s = .ok v t → t.scope.get n = .function p b →
      eval rounds depth b (t.callee p v) = .error .stop u →
      ∃ w, eval rounds (depth + 1) (.call n a) s = .error .stop w ∧
        w.scope = t.scope ∧ w.store = u.store ∧ w.output = u.output) ∧
    (∀ e s o t x u, Turn (eval rounds depth) e s o t → eval rounds depth o t = .error x u →
      eval rounds (depth + 1) e s = .error x u) ∧
    (∀ f g e s, (∀ c b, e ≠ .binary .loop c b) → (∀ o t, Turn f e s o t → g o t = f o t) →
      (∀ n a v t p b, e = .call n a → f a s = .ok v t → t.scope.get n = .function p b →
        g b (t.callee p v) = f b (t.callee p v)) →
      Eval.node rounds g e s = Eval.node rounds f e s) ∧
    ∀ s e t, (eval rounds depth e s = .error .stop t →
        s.evaluateWithin ⟨depth, rounds⟩ e = (.ok .null, t)) ∧
      ∀ v, eval rounds depth e s = .error (.result v) t →
        s.evaluateWithin ⟨depth, rounds⟩ e = (.ok v, t) := by
  refine ⟨eval_loop_ne_stop rounds depth, fun e he s v t h => ?_, ?_, ?_, ?_, ?_⟩
  · exact ((resultFree.eval rounds depth he).error trivial h).1 v rfl
  · intro n a s v t p b u ha hn hb
    exact ⟨_, eval_call_of_stop ha hn hb, rfl, rfl, rfl⟩
  · intro e s o t x u ht ho
    exact ht.node_of_turn rounds ho
  · intro f g e s hl h hb
    exact Turn.node_eq_of_turns rounds hl h hb
  · intro s e t
    refine ⟨fun h => ?_, fun v h => ?_⟩
    · rw [Session.evaluateWithin, h]
    · rw [Session.evaluateWithin, h]

/-- A function whose body is a break, called in front of a print: the break leaves the call and the
sequence, and nothing is printed. A function that gives a result, called from a tree without one. -/
theorem eval_escapes_call :
    let s := (Session.initial.set "f" (.function "x" (.root .stop))).set "g"
      (.function "x" (.unary .result (.ident "x")))
    let e : Expr := .binary .sequence (.call "f" (.text "a")) (.call "print" (.text "b"))
    (∃ w, eval 1 3 e s = .error .stop w ∧ w.scope = s.scope ∧ w.output = "") ∧
      Expr.resultFree (.call "g" (.text "c")) ∧
      (∀ v t, eval 1 2 (.call "g" (.text "c")) s ≠ .error (.result v) t) ∧
      ∀ t, eval 1 2 (.binary .loop (.text "d") (.call "f" (.text "a"))) s ≠ .error .stop t := by
  intro s e
  obtain ⟨hloop, hfree, -⟩ := eval_escapes 1 2
  obtain ⟨w, hw, hscope, -, hout⟩ := (eval_escapes 1 1).2.2.1 "f" (.text "a") s _ s "x"
    (.root .stop) _ rfl rfl rfl
  have hturn : Turn (eval 1 2) e s (.call "f" (.text "a")) s := .first nofun
  exact ⟨⟨w, (eval_escapes 1 2).2.2.2.1 e s _ s _ w hturn hw, hscope, hout⟩, rfl,
    hfree _ rfl s, hloop _ _ s⟩

end Scriptlet
