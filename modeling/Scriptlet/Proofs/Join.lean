import Scriptlet.Proofs.Outcome
import Scriptlet.Proofs.ParseFront
import Scriptlet.Proofs.Plain
import Scriptlet.Proofs.Unlogged

/-!
# Scripts in two parts

Two scripts with a semicolon on a line of its own between them are one script. Its tree is a
sequence into which the statements of the second script are nested one by one, so its evaluation is
that of the first tree and then that of the second (`eval_joined_within`), within a level of nesting
more or less.

* `run_joined`: the script does what its two parts do one after the other. If the first part comes
  to no plain value, the second part is not run.
-/

namespace Scriptlet

/-! ## Texts -/

namespace Token

/-- A semicolon on a line of its own is a lexeme of its own. -/
theorem content_joined {source : String}
    (h : ∀ t, (scan source).getLast? = some t → t.lexeme.isUnterminated = false)
    (later : String) :
    content (source ++ "\n;\n" ++ later).toList =
      content source.toList ++ .symbol .semicolon :: content later.toList := by
  have hl : (source ++ "\n;\n" ++ later).toList =
      source.toList ++ '\n' :: (';' :: '\n' :: later.toList) := by
    rw [String.toList_append, String.toList_append]
    simp
  have hlast : ∀ l, (lexemes source.toList source.toList).getLast? = some l →
      l.isUnterminated = false ∧ (Lexeme.isLineEnd '\n' = true ∨ ∀ t, l ≠ .comment t) := by
    intro l hl
    rw [← map_lexeme_place 0 (lexemes source.toList source.toList), List.getLast?_map,
      Option.map_eq_some_iff] at hl
    obtain ⟨t, ht, rfl⟩ := hl
    exact ⟨h t ht, .inl rfl⟩
  rw [hl, content_append (by decide) _ _ hlast]
  have hs : Lexeme.next ';' ('\n' :: later.toList) =
      (.symbol .semicolon, '\n' :: later.toList) := rfl
  rw [content_cons, hs, content_cons_of_blank (by decide)]
  rfl

end Token

theorem whole_of_ofTokensWithin {limit : Nat} {tokens : List Token} {e : Expr} :
    Expr.ofTokensWithin limit tokens = .ok e ↔
      Parse.whole limit (Token.significant tokens) = .ok e := by
  unfold Expr.ofTokensWithin
  cases Parse.whole limit (Token.significant tokens) with
  | ok e' => simp
  | error r => simp

/-- Two scripts that are parsed are also parsed as one, if the first one leaves no string and no
comment open. -/
theorem ofTokensWithin_joined {limit : Nat} {source later : String} {a b : Expr}
    (ha : Expr.ofTokensWithin limit (Token.scan source) = .ok a)
    (hb : Expr.ofTokensWithin limit (Token.scan later) = .ok b)
    (h : ∀ t, (Token.scan source).getLast? = some t → t.lexeme.isUnterminated = false) :
    ∃ c, Expr.ofTokensWithin limit (Token.scan (source ++ "\n;\n" ++ later)) = .ok c ∧
      Joined a b c := by
  rw [whole_of_ofTokensWithin] at ha hb
  obtain ⟨c, hc, hj⟩ := Parse.whole_joined (t := ⟨.symbol .semicolon, 0⟩) ha hb rfl
  refine ⟨c, whole_of_ofTokensWithin.2 (Parse.whole_of_sameText hc ?_), hj⟩
  rw [SameText, Token.map_lexeme_significant, Token.content_joined h, List.map_append,
    List.map_cons, Token.map_lexeme_significant, Token.map_lexeme_significant]

/-! ## Trees -/

/-- Wherever `x` has room to nest, `y` does the same. -/
abbrev Run.WithinDepth {α : Type} (x y : Run α) : Prop := x.Within (· = .error .tooDeep) y

section
variable (rounds depth : Nat)

theorem eval_zero_within (e : Expr) (y : Run Value) : (eval rounds 0 e).WithinDepth y := by
  have ht : ∀ y, (throw (.error .tooDeep) : Run Value).WithinDepth y := Run.Within.of_up rfl
  exact ht y

/-- A sequence may as well be evaluated statement by statement. -/
theorem eval_within_sequence (e : Expr) :
    (eval rounds depth e).WithinDepth (Eval.sequence (eval rounds depth) e) := by
  rcases Eval.sequence_cases e with ⟨l, r, rfl⟩ | he
  · cases depth with
    | zero => exact eval_zero_within rounds _ _
    | succ depth =>
      exact (Run.Within.congruence uncaught_tooDeep).inTurn
        (F := fun _ => eval rounds (depth + 1))
        (fun e => eval_within_depth rounds (Nat.le_succ depth) e) _ _
  · rw [he]
    exact eval_within_depth rounds (Nat.le_refl depth) e

theorem sequence_within_eval (e : Expr) :
    (Eval.sequence (eval rounds depth) e).WithinDepth (eval rounds (depth + 1) e) := by
  rcases Eval.sequence_cases e with ⟨l, r, rfl⟩ | he
  · exact eval_within_depth rounds (Nat.le_refl (depth + 1)) (.binary .sequence l r)
  · rw [he]
    exact eval_within_depth rounds (Nat.le_succ depth) e

variable {a b c : Expr}

/-- The statements of the joined tree are those of the first tree and then those of the second. -/
theorem sequence_joined_within (h : Joined a b c) :
    (Eval.sequence (eval rounds depth) c).WithinDepth (do
      let _ ← eval rounds (depth + 1) a
      Eval.sequence (eval rounds depth) b) := by
  induction h with
  | statement b =>
    rw [Eval.sequence_append]
    exact (sequence_within_eval rounds depth a).bind fun _ => eval_within_sequence rounds depth b
  | sequence r _ ih =>
    rw [Eval.sequence_append, Eval.sequence_append, ← bind_assoc]
    exact ih.bind fun _ => eval_within_depth rounds (Nat.le_refl depth) r

theorem within_sequence_joined (h : Joined a b c) :
    (do
      let _ ← eval rounds (depth + 1) a
      Eval.sequence (eval rounds depth) b : Run Value).WithinDepth
        (Eval.sequence (eval rounds (depth + 1)) c) := by
  induction h with
  | statement b =>
    rw [Eval.sequence_append]
    exact (eval_within_sequence rounds (depth + 1) a).bind fun _ =>
      sequence_within_eval rounds depth b
  | sequence r _ ih =>
    rw [Eval.sequence_append, Eval.sequence_append, ← bind_assoc]
    exact ih.bind fun _ => eval_within_depth rounds (Nat.le_succ depth) r

theorem eval_joined (h : Joined a b c) :
    eval rounds (depth + 1) c = Eval.sequence (eval rounds depth) c := by
  cases h <;> rfl

/-- Where the joined tree has room to nest, it does what the two trees do one after the other. -/
theorem eval_joined_within (h : Joined a b c) :
    (eval rounds depth c).WithinDepth (do
      let _ ← eval rounds depth a
      eval rounds depth b) := by
  cases depth with
  | zero => exact eval_zero_within rounds c _
  | succ depth =>
    rw [eval_joined rounds depth h]
    refine (sequence_joined_within rounds depth h).trans ?_
    exact (eval_within_depth rounds (Nat.le_refl (depth + 1)) a).bind fun _ =>
      sequence_within_eval rounds depth b

/-- Where the two trees have room to nest, the joined tree has it one level further. -/
theorem within_eval_joined (h : Joined a b c) :
    (do
      let _ ← eval rounds depth a
      eval rounds depth b : Run Value).WithinDepth (eval rounds (depth + 1) c) := by
  rw [eval_joined rounds depth h]
  cases depth with
  | zero =>
    have ht : ∀ y, (do
        let _ ← eval rounds 0 a
        eval rounds 0 b : Run Value).WithinDepth y := Run.Within.of_up rfl
    exact ht _
  | succ depth =>
    cases h with
    | statement b =>
      rw [Eval.sequence_append]
      exact (eval_within_sequence rounds (depth + 1) a).bind fun _ =>
        eval_within_depth rounds (Nat.le_refl (depth + 1)) b
    | sequence r h => exact within_sequence_joined rounds depth (.sequence r h)

end

/-! ## Runs -/

/-- The results are alike and so are the sessions, up to their logs. -/
def SameUpToLog (r r' : Except Failure Value × Session) : Prop :=
  r.1 = r'.1 ∧ r.2.unlogged = r'.2.unlogged

/-- What an evaluation comes to, seen from outside. -/
def Session.outcome : EStateM.Result Exit Session Value → Except Failure Value
  | .ok v _ => .ok v
  | .error .stop _ => .ok .null
  | .error (.result v) _ => .ok v
  | .error (.error e) _ => .error (.eval e)
  | .error (.defect d) _ => .error (.defect d)
  | .error .unfinished _ => .error .unfinished

theorem evaluateWithin_fst (limits : Limits) (s : Session) (e : Expr) :
    (s.evaluateWithin limits e).1 =
      Session.outcome (eval limits.rounds limits.depth e s) := by
  unfold Session.evaluateWithin
  cases eval limits.rounds limits.depth e s with
  | ok v t => rfl
  | error x t =>
    cases x with
    | error e => cases e <;> rfl
    | _ => rfl

section
variable {limits more : Limits} {s t : Session} {e e' : Expr}

theorem sameUpToLog_evaluateWithin
    (h : unlogged (eval limits.rounds limits.depth e s) =
      unlogged (eval more.rounds more.depth e' t)) :
    SameUpToLog (s.evaluateWithin limits e) (t.evaluateWithin more e') := by
  rw [SameUpToLog, evaluateWithin_fst, evaluateWithin_fst, evaluateWithin_snd, evaluateWithin_snd,
    Run.final, Run.final]
  rcases unlogged_eq h with ⟨a, s', t', hs, ht, h'⟩ | ⟨x, s', t', hs, ht, h'⟩
  · rw [hs, ht]
    exact ⟨rfl, h'⟩
  · rw [hs, ht]
    cases x with
    | _ => exact ⟨rfl, h'⟩

/-- An evaluation has room to nest if what it comes to does not say otherwise. -/
theorem fits_of_evaluateWithin
    (h : (s.evaluateWithin limits e).1 ≠ .error (.eval .tooDeep)) :
    ∀ x t, eval limits.rounds limits.depth e s = .error x t → x ≠ .error .tooDeep := by
  rintro x t hx rfl
  rw [evaluateWithin_fst, hx] at h
  exact h rfl

end

/-- The joined script does what the first script does and then, if that comes to a plain value, what
the second one does. -/
def RunsInTurn (nesting : Nat) (limits more : Limits) (s : Session) (source later joined : String)
    (a : Expr) : Prop :=
  (∀ v t, eval limits.rounds limits.depth a (s.record (.parsed source a)) = .ok v t →
    s.runWithin nesting limits source = (.ok v, t) ∧
      SameUpToLog (s.runWithin nesting more joined) (t.runWithin nesting limits later)) ∧
  ∀ x t, eval limits.rounds limits.depth a (s.record (.parsed source a)) = .error x t →
    SameUpToLog (s.runWithin nesting more joined) (s.runWithin nesting limits source)

section
variable {nesting rounds depth : Nat} {s : Session} {source later joined : String} {a b c : Expr}
  (ha : Expr.ofTokensWithin nesting (Token.scan source) = .ok a)
  (hb : Expr.ofTokensWithin nesting (Token.scan later) = .ok b)
  (hc : Expr.ofTokensWithin nesting (Token.scan joined) = .ok c)

theorem blind_inTurn (rounds depth : Nat) (a b : Expr) :
    (do
      let _ ← eval rounds depth a
      eval rounds depth b : Run Value).Blind :=
  Run.Ignores.blind (.bind (unseen_unlogged.eval rounds depth a) fun _ =>
    unseen_unlogged.eval rounds depth b)

include ha hb hc

/-- The logs of the sessions that the three trees are evaluated in differ, and nothing else does. -/
theorem runsInTurn_of_eq {more : Nat}
    (h : eval rounds more c (s.record (.parsed joined c)) = (do
      let _ ← eval rounds depth a
      eval rounds depth b : Run Value) (s.record (.parsed joined c))) :
    RunsInTurn nesting ⟨depth, rounds⟩ ⟨more, rounds⟩ s source later joined a := by
  have hblind := blind_inTurn rounds depth a b (s.record (.parsed joined c))
    (s.record (.parsed source a)) rfl
  rw [← h, Run.bind_apply] at hblind
  refine ⟨fun v t hv => ⟨?_, ?_⟩, fun x t hx => ?_⟩
  · rw [Session.runWithin_of_ok ha, Session.evaluateWithin, hv]
  · rw [Session.runWithin_of_ok hc, Session.runWithin_of_ok hb]
    refine sameUpToLog_evaluateWithin (hblind.trans ?_)
    dsimp only at hv
    rw [hv]
    exact blind_eval rounds depth b t _ (t.unlogged_record _).symm
  · rw [Session.runWithin_of_ok hc, Session.runWithin_of_ok ha]
    refine sameUpToLog_evaluateWithin (hblind.trans ?_)
    dsimp only at hx ⊢
    rw [hx]

end

/-- A script and another one behind a semicolon on a line of its own: if both are parsed and the
first one leaves no string and no comment open, they are parsed as one. Where there is room to nest,
with one level more for the whole, it does what the first one does in the same session, and then
what the second one does, if the first one comes to a plain value; only the log tells the
difference. -/
theorem run_joined {nesting : Nat} {source later : String} {a b : Expr}
    (ha : Expr.ofTokensWithin nesting (Token.scan source) = .ok a)
    (hb : Expr.ofTokensWithin nesting (Token.scan later) = .ok b)
    (hend : ∀ t, (Token.scan source).getLast? = some t → t.lexeme.isUnterminated = false) :
    (∃ c, Expr.ofTokensWithin nesting (Token.scan (source ++ "\n;\n" ++ later)) = .ok c) ∧
    ∀ (s : Session) (rounds depth : Nat),
      ((s.runWithin nesting ⟨depth, rounds⟩ (source ++ "\n;\n" ++ later)).1 ≠
          .error (.eval .tooDeep) →
        RunsInTurn nesting ⟨depth, rounds⟩ ⟨depth, rounds⟩ s source later
          (source ++ "\n;\n" ++ later) a) ∧
      ((s.runWithin nesting ⟨depth, rounds⟩ source).1 ≠ .error (.eval .tooDeep) →
        (∀ v t, eval rounds depth a (s.record (.parsed source a)) = .ok v t →
          (t.runWithin nesting ⟨depth, rounds⟩ later).1 ≠ .error (.eval .tooDeep)) →
        RunsInTurn nesting ⟨depth, rounds⟩ ⟨depth + 1, rounds⟩ s source later
          (source ++ "\n;\n" ++ later) a) := by
  obtain ⟨c, hc, hj⟩ := ofTokensWithin_joined ha hb hend
  refine ⟨⟨c, hc⟩, fun s rounds depth => ⟨fun hfit => ?_, fun hfa hfb => ?_⟩⟩
  · rw [Session.runWithin_of_ok hc] at hfit
    have hsame := (eval_joined_within rounds depth hj).same _ (fits_of_evaluateWithin hfit)
    exact runsInTurn_of_eq ha hb hc hsame.symm
  · rw [Session.runWithin_of_ok ha] at hfa
    refine runsInTurn_of_eq ha hb hc ((within_eval_joined rounds depth hj).same _ fun x t hx => ?_)
    -- the two trees have room to nest in a session with another log, so also in this one
    have hblind := blind_inTurn rounds depth a b (s.record (.parsed (source ++ "\n;\n" ++ later) c))
      (s.record (.parsed source a)) rfl
    rw [hx, Run.bind_apply] at hblind
    cases hr : eval rounds depth a (s.record (.parsed source a)) with
    | error y u =>
      rw [hr] at hblind
      obtain ⟨rfl, -⟩ := EStateM.Result.error.inj hblind
      exact fits_of_evaluateWithin hfa _ _ hr
    | ok v u =>
      have hfb := hfb v u hr
      rw [Session.runWithin_of_ok hb] at hfb
      rw [hr] at hblind
      have hu := blind_eval rounds depth b u (u.record (.parsed later b)) rfl
      rcases unlogged_eq (hblind.trans hu) with ⟨w, s', t', hs, -⟩ | ⟨y, s', t', hs, ht, -⟩
      · cases hs
      · obtain ⟨rfl, -⟩ := EStateM.Result.error.inj hs
        exact fits_of_evaluateWithin hfb _ _ ht

/-- The line break ends the comment, so the second script is no part of it. -/
theorem run_joined_comment :
    let s := Session.initial.withBuiltins
    let joined := "a//b" ++ "\n;\n" ++ "c"
    (∃ c, Expr.ofTokensWithin 1 (Token.scan joined) = .ok c) ∧
      RunsInTurn 1 ⟨2, 1⟩ ⟨2, 1⟩ s "a//b" "c" joined (.ident "a") ∧
      RunsInTurn 1 ⟨1, 1⟩ ⟨2, 1⟩ s "a//b" "c" joined (.ident "a") := by
  intro s joined
  have ha : Expr.ofTokensWithin 1 (Token.scan "a//b") = .ok (.ident "a") := rfl
  have hb : Expr.ofTokensWithin 1 (Token.scan "c") = .ok (.ident "c") := rfl
  have hlast : (Token.scan "a//b").getLast? = some ⟨.comment "//b", 1⟩ := rfl
  have hend : ∀ t, (Token.scan "a//b").getLast? = some t → t.lexeme.isUnterminated = false := by
    intro t ht
    rw [hlast] at ht
    rw [← Option.some.inj ht]
    decide
  obtain ⟨c, hc, hj⟩ := ofTokensWithin_joined ha hb hend
  cases hj
  have hs : (s.runWithin 1 ⟨1, 1⟩ "a//b").1 = .ok .null := rfl
  have hl : ∀ t : Session, (t.runWithin 1 ⟨1, 1⟩ "c").1 = .ok (t.scope.get "c") := fun _ => rfl
  obtain ⟨hparsed, hrun⟩ := run_joined ha hb hend
  refine ⟨hparsed, (hrun s 1 2).1 ?_, (hrun s 1 1).2 ?_ fun v t _ => ?_⟩
  · rw [Session.runWithin_of_ok hc]
    exact nofun
  · rw [hs]
    exact nofun
  · rw [hl]
    exact nofun

end Scriptlet
