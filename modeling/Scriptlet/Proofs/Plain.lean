import Scriptlet.Proofs.Depth

/-!
# Evaluation by plain recursion

`Plain.eval` is the evaluator without flattened trees: a sequence is its left part followed by its
right part, and a value operator is applied to the values of its two operands. It needs a level of
nesting for each statement and for each operator, where `eval` runs along the left edge of the tree.

* `eval_eq_plain_eval`: where both have room to nest they do the same, and one has room somewhere if
  the other has.
-/

namespace Scriptlet

namespace Plain

/-- The value of a tree by means of an evaluation of its parts, each part on its own. -/
def node (rounds : Nat) (eval : Expr → Run Value) : Expr → Run Value
  | .binary .sequence l r => do
    let _ ← eval l
    eval r
  | .binary (.operator op) l r => do
    let v ← eval l
    let w ← eval r
    Run.ofExcept (op.apply v w)
  | e => Eval.node rounds eval e

/-- The value of a tree by plain recursion. -/
def eval (rounds : Nat) : Nat → Expr → Run Value
  | 0, _ => Run.fail .tooDeep
  | depth + 1, e => node rounds (eval rounds depth) e

/-- Only sequences and value operators are evaluated in another way. -/
theorem node_cases (rounds : Nat) (e : Expr) :
    (∃ l r, e = .binary .sequence l r) ∨ (∃ op l r, e = .binary (.operator op) l r) ∨
      ∀ f, node rounds f e = Eval.node rounds f e := by
  cases e with
  | binary op l r =>
    cases op with
    | sequence => exact .inl ⟨l, r, rfl⟩
    | operator op => exact .inr (.inl ⟨op, l, r, rfl⟩)
    | _ => exact .inr (.inr fun _ => rfl)
  | _ => exact .inr (.inr fun _ => rfl)

end Plain

/-! ## Flattened trees -/

namespace Eval

variable (f : Expr → Run Value)

/-- Evaluates the statements on the left edge of a tree. -/
def sequence (e : Expr) : Run Value := inTurn f (e.statements []).1 (e.statements []).2

/-- Evaluates the operands on the left edge of a tree and applies the operators between them. -/
def operators (e : Expr) : Run Value := do
  let v ← f (e.operands []).1
  applyInTurn f v (e.operands []).2

theorem node_sequence (rounds : Nat) (l r : Expr) :
    node rounds f (.binary .sequence l r) = sequence f (.binary .sequence l r) := rfl

theorem node_operator (rounds : Nat) (op : Operator) (l r : Expr) :
    node rounds f (.binary (.operator op) l r) = operators f (.binary (.operator op) l r) := rfl

theorem statements_append (e : Expr) (later : List Expr) :
    e.statements later = ((e.statements []).1, (e.statements []).2 ++ later) := by
  induction e generalizing later with
  | binary op l r ihl _ =>
    cases op with
    | sequence =>
      rw [Expr.statements, Expr.statements, ihl (r :: later), ihl [r]]
      simp
    | _ => rfl
  | _ => rfl

theorem operands_append (e : Expr) (later : List (Operator × Expr)) :
    e.operands later = ((e.operands []).1, (e.operands []).2 ++ later) := by
  induction e generalizing later with
  | binary op l r ihl _ =>
    cases op with
    | operator op =>
      rw [Expr.operands, Expr.operands, ihl ((op, r) :: later), ihl [(op, r)]]
      simp
    | _ => rfl
  | _ => rfl

theorem inTurn_append (e : Expr) (later : List Expr) (r : Expr) (rest : List Expr) :
    inTurn f e (later ++ r :: rest) = (do
      let _ ← inTurn f e later
      inTurn f r rest) := by
  induction later generalizing e with
  | nil => rfl
  | cons next later ih =>
    rw [List.cons_append, inTurn, ih, inTurn, bind_assoc]

theorem applyInTurn_append (v : Value) (later : List (Operator × Expr)) (op : Operator) (r : Expr) :
    applyInTurn f v (later ++ [(op, r)]) = (do
      let u ← applyInTurn f v later
      let w ← f r
      Run.ofExcept (op.apply u w)) := by
  induction later generalizing v with
  | nil =>
    rw [List.nil_append, applyInTurn, applyInTurn, pure_bind]
    refine bind_congr fun w => ?_
    exact bind_pure _
  | cons next later ih =>
    obtain ⟨op', e⟩ := next
    rw [List.cons_append, applyInTurn, applyInTurn, bind_assoc]
    refine bind_congr fun w => ?_
    rw [bind_assoc]
    exact bind_congr fun u => ih u

theorem sequence_append (l r : Expr) :
    sequence f (.binary .sequence l r) = (do
      let _ ← sequence f l
      f r) := by
  unfold sequence
  rw [Expr.statements, statements_append l [r]]
  exact inTurn_append f _ _ r []

theorem operators_append (op : Operator) (l r : Expr) :
    operators f (.binary (.operator op) l r) = (do
      let v ← operators f l
      let w ← f r
      Run.ofExcept (op.apply v w)) := by
  unfold operators
  rw [Expr.operands, operands_append l [(op, r)], bind_assoc]
  exact bind_congr fun v => applyInTurn_append f v _ op r

/-- A tree that is no sequence is its own only statement. -/
theorem sequence_cases (e : Expr) :
    (∃ l r, e = .binary .sequence l r) ∨ ∀ f, sequence f e = f e := by
  cases e with
  | binary op l r =>
    cases op with
    | sequence => exact .inl ⟨l, r, rfl⟩
    | _ => exact .inr fun _ => rfl
  | _ => exact .inr fun _ => rfl

/-- A tree that is no application of a value operator is its own only operand. -/
theorem operators_cases (e : Expr) :
    (∃ op l r, e = .binary (.operator op) l r) ∨ ∀ f, operators f e = f e := by
  cases e with
  | binary op l r =>
    cases op with
    | operator op => exact .inl ⟨op, l, r, rfl⟩
    | _ => exact .inr fun f => bind_pure (f _)
  | _ => exact .inr fun f => bind_pure (f _)

end Eval

/-! ## From flattened trees to plain recursion -/

section
variable {rounds depth : Nat}
  (ih : ∀ e, (eval rounds depth e).Settles fun n => Plain.eval rounds n e)
include ih

/-- The induction goes down the left edge, where plain recursion needs a level of its own for each
statement. -/
theorem settles_sequence_plain (e : Expr) :
    (Eval.sequence (eval rounds depth) e).Settles fun n => Plain.eval rounds n e := by
  induction e with
  | binary op l r ihl _ =>
    obtain ⟨l', r', h⟩ | h := Eval.sequence_cases (.binary op l r)
    · cases h
      -- the last statement is evaluated at `depth` here and one level further up in the family
      rw [Eval.sequence_append]
      exact .of_succ (ihl.bind fun _ => ih r)
    · rw [h]
      exact ih _
  | _ => exact ih _

theorem settles_operators_plain (e : Expr) :
    (Eval.operators (eval rounds depth) e).Settles fun n => Plain.eval rounds n e := by
  induction e with
  | binary op l r ihl _ =>
    obtain ⟨op', l', r', h⟩ | h := Eval.operators_cases (.binary op l r)
    · cases h
      rw [Eval.operators_append]
      refine .of_succ (ihl.bind fun v => (ih r).bind fun w => ?_)
      exact Run.Settles.congruence.ofExcept _
    · rw [h]
      exact ih _
  | _ =>
    rw [(Eval.operators_cases _).resolve_left (by simp)]
    exact ih _

end

theorem settles_plain (rounds depth : Nat) (e : Expr) :
    (eval rounds depth e).Settles fun n => Plain.eval rounds n e := by
  induction depth generalizing e with
  | zero => exact .tooDeep _
  | succ depth ih =>
    obtain ⟨l, r, rfl⟩ | ⟨op, l, r, rfl⟩ | h := Plain.node_cases rounds e
    · exact settles_sequence_plain ih (.binary .sequence l r)
    · exact settles_operators_plain ih (.binary (.operator op) l r)
    · have hn := Run.Settles.congruence.node (F := fun n => Plain.eval rounds n) ih rounds e
      refine .of_succ ?_
      simp only [Plain.eval, h]
      exact hn

/-! ## From plain recursion to flattened trees -/

section
variable {x : Run Value} {rounds : Nat} {e : Expr}

/-- A flattened sequence takes the room that its tree takes, or less. -/
theorem settles_sequence (h : x.Settles fun n => eval rounds n e) :
    x.Settles fun n => Eval.sequence (eval rounds n) e := by
  obtain ⟨l, r, rfl⟩ | he := Eval.sequence_cases e
  · exact h.succ
  · simp only [he]
    exact h

theorem settles_operators (h : x.Settles fun n => eval rounds n e) :
    x.Settles fun n => Eval.operators (eval rounds n) e := by
  obtain ⟨op, l, r, rfl⟩ | he := Eval.operators_cases e
  · exact h.succ
  · simp only [he]
    exact h

end

theorem plain_settles (rounds depth : Nat) (e : Expr) :
    (Plain.eval rounds depth e).Settles fun n => eval rounds n e := by
  induction depth generalizing e with
  | zero => exact .tooDeep _
  | succ depth ih =>
    refine .of_succ ?_
    obtain ⟨l, r, rfl⟩ | ⟨op, l, r, rfl⟩ | h := Plain.node_cases rounds e
    · simp only [eval, Eval.node_sequence, Eval.sequence_append]
      exact (settles_sequence (ih l)).bind fun _ => ih r
    · simp only [eval, Eval.node_operator, Eval.operators_append]
      refine (settles_operators (ih l)).bind fun v => (ih r).bind fun w => ?_
      exact Run.Settles.congruence.ofExcept _
    · rw [Plain.eval, h]
      exact Run.Settles.congruence.node (F := fun n => eval rounds n) ih rounds e

/-! ## Both evaluators -/

/-- Wherever both have room to nest, evaluation along the left edges and plain recursion come to the
same value or exit in the same way, and leave the same session. The one has room enough at some
depth exactly if the other has. -/
theorem eval_eq_plain_eval (rounds : Nat) (e : Expr) (s : Session) :
    (∀ depth depth', (eval rounds depth e).Fits s → (Plain.eval rounds depth' e).Fits s →
      eval rounds depth e s = Plain.eval rounds depth' e s) ∧
    ((∃ depth, (eval rounds depth e).Fits s) ↔ ∃ depth, (Plain.eval rounds depth e).Fits s) := by
  refine ⟨fun depth depth' h h' => ?_, ?_, ?_⟩
  · exact (settles_eval rounds depth e).agree (plain_settles rounds depth' e) h h'
  · rintro ⟨depth, h⟩
    exact (settles_plain rounds depth e).exists_fits h
  · rintro ⟨depth, h⟩
    exact (plain_settles rounds depth e).exists_fits h

/-- Two statements in front of a sum of three texts: plain recursion needs a level more. -/
theorem eval_eq_plain_eval_texts :
    let e : Expr := .binary .sequence (.binary .sequence (.text "a") (.ident "b"))
      (.binary (.operator (.arithmetic .add))
        (.binary (.operator (.arithmetic .add)) (.text "c") (.ident "d")) (.text "e"))
    (eval 1 3 e).Fits .initial ∧ (Plain.eval 1 4 e).Fits .initial ∧
      ¬(Plain.eval 1 3 e).Fits .initial ∧
      eval 1 3 e .initial = Plain.eval 1 4 e .initial ∧
      eval 1 3 e .initial = .ok (.text "ce") .initial := by
  intro e
  have h : (eval 1 3 e).Fits .initial := .of_ok rfl
  have h' : (Plain.eval 1 4 e).Fits .initial := .of_ok rfl
  exact ⟨h, h', fun hn => hn .initial rfl, (eval_eq_plain_eval 1 e .initial).1 3 4 h h', rfl⟩

end Scriptlet
