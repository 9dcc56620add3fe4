import Scriptlet.Proofs.Plain

/-!
# Bracketing of statements

The leaves of a tree are the statements that its sequences put one after the other, however these
nest (`Expr.leaves`). The evaluator runs along the left edge of a sequence and goes into the nested
ones on the right, each of them one level further down. Up to the room that this takes it runs the
leaves and nothing else.

* `settles_leaves`, `leaves_settle`: a tree and its leaves in turn do the same with enough room.
* `eval_bracketing`: so trees with the same leaves do the same.
-/

namespace Scriptlet

/-! ## Leaves -/

/-- The statements of a tree, without the sequences that bracket them. -/
def Expr.leaves : Expr → List Expr
  | binary .sequence l r => l.leaves ++ r.leaves
  | e => [e]

/-- A tree is a sequence of two others or its own only leaf. -/
theorem Expr.leaves_cases (e : Expr) :
    (∃ l r, e = binary .sequence l r) ∨ (∀ l r, e ≠ binary .sequence l r) ∧ e.leaves = [e] := by
  cases e with
  | binary op l r =>
    cases op with
    | sequence => exact .inl ⟨l, r, rfl⟩
    | _ => exact .inr ⟨nofun, rfl⟩
  | _ => exact .inr ⟨nofun, rfl⟩

theorem Expr.exists_leaves (e : Expr) : ∃ first later, e.leaves = first :: later := by
  induction e with
  | binary op l r ihl _ =>
    obtain ⟨l', r', h⟩ | ⟨-, h⟩ := leaves_cases (binary op l r)
    · cases h
      obtain ⟨first, later, hl⟩ := ihl
      exact ⟨first, later ++ r.leaves, by rw [leaves, hl, List.cons_append]⟩
    · exact ⟨_, _, h⟩
  | _ => exact ⟨_, _, rfl⟩

namespace Eval

/-- The trees are evaluated from left to right, each of them once and in the session that the one
before it leaves, until one exits. The result is that of the last one evaluated. -/
inductive OneByOne (f : Expr → Run Value) :
    List Expr → Session → EStateM.Result Exit Session Value → Prop
  | last (e : Expr) (s : Session) : OneByOne f [e] s (f e s)
  | exit {e : Expr} {s t : Session} {x : Exit} (later : List Expr) :
      f e s = .error x t → OneByOne f (e :: later) s (.error x t)
  | next {e : Expr} {later : List Expr} {s t : Session} {v : Value}
      {r : EStateM.Result Exit Session Value} :
      f e s = .ok v t → OneByOne f later t r → OneByOne f (e :: later) s r

variable (f : Expr → Run Value)

/-- Evaluates the trees of a list in turn. -/
def each : List Expr → Run Value
  | [] => return .null
  | e :: later => inTurn f e later

theorem oneByOne_inTurn (e : Expr) (later : List Expr) (s : Session) :
    OneByOne f (e :: later) s (inTurn f e later s) := by
  induction later generalizing e s with
  | nil => exact .last e s
  | cons next later ih =>
    rw [inTurn, Run.bind_apply]
    cases h : f e s with
    | ok v t => exact .next h (ih next t)
    | error x t => exact .exit _ h

theorem each_leaves_sequence (l r : Expr) :
    each f (Expr.binary .sequence l r).leaves = (do
      let _ ← each f l.leaves
      each f r.leaves) := by
  obtain ⟨e, later, hl⟩ := l.exists_leaves
  obtain ⟨e', later', hr⟩ := r.exists_leaves
  rw [Expr.leaves, hl, hr]
  exact inTurn_append f e later e' later'

end Eval

/-! ## Trees and their leaves -/

/-- A tree does what its leaves in turn do. The outer induction is on the room, for what stands on
the right of a sequence, and the inner one goes down the left edge. -/
theorem settles_leaves (rounds depth : Nat) (e : Expr) :
    (eval rounds depth e).Settles fun n => Eval.each (eval rounds n) e.leaves := by
  induction depth generalizing e with
  | zero => exact .tooDeep _
  | succ depth ih =>
    have left (e : Expr) : (Eval.sequence (eval rounds depth) e).Settles
        fun n => Eval.each (eval rounds n) e.leaves := by
      induction e with
      | binary op l r ihl _ =>
        obtain ⟨l', r', h⟩ | h := Eval.sequence_cases (.binary op l r)
        · cases h
          simp only [Eval.sequence_append, Eval.each_leaves_sequence]
          exact ihl.bind fun _ => ih r
        · rw [h]
          exact ih _
      | _ => exact ih _
    obtain ⟨l, r, rfl⟩ | ⟨-, h⟩ := e.leaves_cases
    · exact left (.binary .sequence l r)
    · rw [h]
      exact settles_eval rounds (depth + 1) e

/-- Leaves in turn do what the tree does. -/
theorem leaves_settle (rounds n : Nat) (e : Expr) :
    (Eval.each (eval rounds n) e.leaves).Settles fun depth => eval rounds depth e := by
  induction e with
  | binary op l r ihl ihr =>
    obtain ⟨l', r', h⟩ | ⟨-, h⟩ := Expr.leaves_cases (.binary op l r)
    · cases h
      refine .of_succ ?_
      simp only [eval, Eval.node_sequence, Eval.sequence_append, Eval.each_leaves_sequence]
      exact (settles_sequence ihl).bind fun _ => ihr
    · rw [h]
      exact settles_eval rounds n _
  | _ => exact settles_eval rounds n _

/-- The bracketing of statements is irrelevant. Wherever two trees with the same leaves both have
room to nest, they come to the same value or exit in the same way, and leave the same session. The
one has room enough at some depth exactly if the other has. What both do is to run the leaves from
left to right until one exits, and the result is that of the last one. -/
theorem eval_bracketing (rounds : Nat) (e : Expr) (s : Session) :
    (∀ e', e'.leaves = e.leaves →
      (∀ depth depth', (eval rounds depth e).Fits s → (eval rounds depth' e').Fits s →
        eval rounds depth e s = eval rounds depth' e' s) ∧
      ((∃ depth, (eval rounds depth e).Fits s) ↔ ∃ depth, (eval rounds depth e').Fits s)) ∧
    ∀ depth, (eval rounds depth e).Fits s →
      ∃ n, ∀ m ≥ n, Eval.OneByOne (eval rounds m) e.leaves s (eval rounds depth e s) := by
  have fits {e e' : Expr} (he : e'.leaves = e.leaves) :
      (∃ depth, (eval rounds depth e).Fits s) → ∃ depth, (eval rounds depth e').Fits s := by
    rintro ⟨depth, h⟩
    obtain ⟨n, hn⟩ := (settles_leaves rounds depth e).exists_fits h
    rw [← he] at hn
    exact (leaves_settle rounds n e').exists_fits hn
  refine ⟨fun e' he => ⟨fun depth depth' h h' => ?_, fits he, fits he.symm⟩, fun depth h => ?_⟩
  · have hx := settles_leaves rounds depth e
    rw [← he] at hx
    exact hx.agree (settles_leaves rounds depth' e') h h'
  · obtain ⟨n, hn⟩ := (settles_leaves rounds depth e).eventually s h
    obtain ⟨first, later, hl⟩ := e.exists_leaves
    refine ⟨n, fun m hm => ?_⟩
    rw [← hn m hm, hl]
    exact Eval.oneByOne_inTurn _ first later s

/-- Four statements, the third of which is an escape. In pairs they take a level more than along
the left edge. -/
theorem eval_bracketing_stop :
    let pairs : Expr := .binary .sequence (.binary .sequence (.text "a") (.text "b"))
      (.binary .sequence (.root .stop) (.text "d"))
    let chain : Expr := .binary .sequence (.binary .sequence
      (.binary .sequence (.text "a") (.text "b")) (.root .stop)) (.text "d")
    chain.leaves = pairs.leaves ∧ (eval 1 3 pairs).Fits .initial ∧
      ¬(eval 1 2 pairs).Fits .initial ∧ (eval 1 2 chain).Fits .initial ∧
      eval 1 3 pairs .initial = eval 1 2 chain .initial ∧
      eval 1 2 chain .initial = .error .stop .initial := by
  intro pairs chain
  have hl : chain.leaves = pairs.leaves := rfl
  have h : (eval 1 3 pairs).Fits .initial := fun t ht => by cases ht
  have h' : (eval 1 2 chain).Fits .initial := fun t ht => by cases ht
  exact ⟨hl, h, fun hn => hn .initial rfl, h',
    ((eval_bracketing 1 pairs .initial).1 chain hl).1 3 2 h h', rfl⟩

end Scriptlet
