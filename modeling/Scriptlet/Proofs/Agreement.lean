import Mathlib.Tactic.SplitIfs
import Scriptlet.Parse

/-!
# Parsers that agree

`Parse.Agrees up g f f'`: of tokens that have been moved by `g` the parser `f'` makes what `f` makes
of the tokens, the answer moved in the same way, unless `f` gives up for a cause in the set `up`.
Parsers look at the lexemes of their tokens only and hand on what their parts give up for, so this
goes from the operands of an expression to the expression (`levels_agrees`). With nothing in the set
it says that the parser does not look at places, and with nothing moved that a cause is not lost.
-/

namespace Scriptlet

/-! ## Moved tokens -/

def Token.moved (g : Nat → Nat) (t : Token) : Token := ⟨t.lexeme, g t.start⟩

def Opener.moved (g : Nat → Nat) (o : Opener) : Opener := ⟨o.bracket, g o.start⟩

@[simp] theorem Token.lexeme_moved (g : Nat → Nat) (t : Token) :
    (t.moved g).lexeme = t.lexeme := rfl

@[simp] theorem Token.start_moved (g : Nat → Nat) (t : Token) :
    (t.moved g).start = g t.start := rfl

def Rejection.Cause.moved (g : Nat → Nat) : Rejection.Cause → Rejection.Cause
  | neverClosed o => neverClosed (o.moved g)
  | c => c

def Rejection.moved (g : Nat → Nat) (r : Rejection) : Rejection :=
  ⟨r.cause.moved g, r.unread.map (Token.moved g)⟩

namespace Parse

/-- What a parser answers, with the tokens of a rejection moved. -/
def answer {α β : Type} (g : Nat → Nat) (m : α → β) : Except Rejection α → Except Rejection β
  | .error r => .error (r.moved g)
  | .ok a => .ok (m a)

@[simp] theorem answer_ok {α β : Type} (g : Nat → Nat) (m : α → β) (a : α) :
    answer g m (.ok a) = .ok (m a) := rfl

/-- A tree and the tokens behind it, which are moved. -/
def movedRest (g : Nat → Nat) (q : Expr × List Token) : Expr × List Token :=
  (q.1, q.2.map (Token.moved g))

section
variable (g : Nat → Nat)

theorem isOpen_moved (opens : List Opener) (b : Bracket) :
    isOpen (opens.map (Opener.moved g)) b = isOpen opens b := by
  rw [isOpen, List.any_map]
  rfl

theorem rejectExtra_moved {α β : Type} (m : α → β) (opens : List Opener) (t : Token)
    (rest : List Token) :
    rejectExtra (opens.map (Opener.moved g)) (t.moved g) (rest.map (Token.moved g)) =
      answer g m (rejectExtra opens t rest) := by
  simp only [rejectExtra, Token.lexeme_moved, isOpen_moved]
  split
  · split <;> rfl
  · rfl

theorem operatorAt?_moved {α : Type} (ofSymbol? : Symbol → Option α) (levelOf : α → Nat)
    (level : Nat) (ts : List Token) :
    operatorAt? ofSymbol? levelOf level (ts.map (Token.moved g)) =
      (operatorAt? ofSymbol? levelOf level ts).map fun q => (q.1, q.2.map (Token.moved g)) := by
  rcases ts with _ | ⟨t, ts⟩
  · rfl
  · simp only [operatorAt?, List.map_cons, Token.lexeme_moved]
    split
    · split
      · split_ifs <;> rfl
      · rfl
    · rfl

theorem closingSquare?_moved (ts : List Token) :
    closingSquare? (ts.map (Token.moved g)) =
      (closingSquare? ts).map (List.map (Token.moved g)) := by
  rcases ts with _ | ⟨t, ts⟩
  · rfl
  · simp only [List.map_cons, closingSquare?, Token.lexeme_moved]
    split <;> rfl

end

/-! ## Answers -/

/-- The answer `y` is the answer `x`, moved, or `x` is a rejection for a cause in the set. -/
def Agree {α β : Type} (up : Rejection.Cause → Prop) (g : Nat → Nat) (m : α → β)
    (x : Except Rejection α) (y : Except Rejection β) : Prop :=
  (∃ r, x = .error r ∧ up r.cause) ∨ y = answer g m x

/-- Of moved tokens the parser `f'` makes what `f` makes of the tokens, or `f` gives up for a cause
in the set. -/
def Agrees (up : Rejection.Cause → Prop) (g : Nat → Nat) (f f' : Step) : Prop :=
  ∀ opens ts, Agree up g (movedRest g) (f opens ts)
    (f' (opens.map (Opener.moved g)) (ts.map (Token.moved g)))

section
variable {up : Rejection.Cause → Prop} {g : Nat → Nat}

/-- A parser that hands on the rejections of a part agrees if the part does, and if it does wherever
the part has the same answer. -/
theorem Agree.through {α β γ δ : Type} {m : α → β} {n : γ → δ} {x : Except Rejection α}
    {y : Except Rejection β} {x' : Except Rejection γ} {y' : Except Rejection δ}
    (h : Agree up g m x y) (hr : ∀ r, x = .error r → x' = .error r)
    (he : y = answer g m x → Agree up g n x' y') : Agree up g n x' y' := by
  obtain ⟨r, hx, hu⟩ | hy := h
  · exact .inl ⟨r, hr r hx, hu⟩
  · exact he hy

variable {f f' : Step}

/-! ## Operators -/

theorem chain_agrees (h : Agrees up g f f') (level : Nat) (opens : List Opener)
    (bound : List Token) : ∀ left ts, Agree up g (movedRest g) (chain level f opens bound left ts)
      (chain level f' (opens.map (Opener.moved g)) (bound.map (Token.moved g)) left
        (ts.map (Token.moved g))) := by
  induction bound with
  | nil => exact fun _ _ => .inr rfl
  | cons b bound ih =>
    intro left ts
    rw [List.map_cons, chain, chain, binaryAt?, operatorAt?_moved, ← binaryAt?]
    cases binaryAt? level ts with
    | none => exact .inr rfl
    | some q =>
      dsimp only [Option.map_some]
      refine (h opens q.2).through (fun r hr => by rw [hr]) fun he => ?_
      rw [he]
      cases f opens q.2 with
      | error r => exact .inr rfl
      | ok q => exact ih _ _

theorem binary_agrees (h : Agrees up g f f') :
    ∀ levels, Agrees up g (binary f levels) (binary f' levels)
  | 0 => h
  | level + 1 => by
    have ih := binary_agrees h level
    intro opens ts
    unfold binary
    refine (ih opens ts).through (fun r hr => by rw [hr]) fun he => ?_
    rw [he]
    cases binary f level opens ts with
    | error r => exact .inr rfl
    | ok q => exact chain_agrees ih level opens _ _ _

theorem unary_agrees (h : Agrees up g f f') :
    ∀ levels, Agrees up g (unary f levels) (unary f' levels)
  | 0 => h
  | level + 1 => by
    have ih := unary_agrees h level
    intro opens ts
    unfold unary
    rw [unaryAt?, operatorAt?_moved, ← unaryAt?]
    cases unaryAt? level ts with
    | none => exact ih opens ts
    | some q =>
      dsimp only [Option.map_some]
      refine (ih opens q.2).through (fun r hr => by rw [hr]) fun he => .inr ?_
      rw [he]
      cases unary f level opens q.2 <;> rfl

/-! ## Operands -/

section
variable (h : Agrees up g f f')
include h

theorem enclosed_agrees (b : Bracket) (n : Nat) (opens : List Opener) (ts : List Token) :
    Agree up g (movedRest g) (enclosed f ⟨b, n⟩ opens ts)
      (enclosed f' ⟨b, g n⟩ (opens.map (Opener.moved g)) (ts.map (Token.moved g))) := by
  unfold enclosed
  refine (h (⟨b, n⟩ :: opens) ts).through (fun r hr => by rw [hr]) fun he => .inr ?_
  rw [List.map_cons, Opener.moved] at he
  rw [he]
  rcases f (⟨b, n⟩ :: opens) ts with r | ⟨e, _ | ⟨t, rest⟩⟩
  · rfl
  · rfl
  · have hx := rejectExtra_moved g (movedRest g) opens t rest
    simp only [answer_ok, movedRest, List.map_cons, Token.lexeme_moved]
    split
    · split_ifs
      · rfl
      · exact hx
    · exact hx

theorem applied_agrees (e : Expr) (opens : List Opener) (ts : List Token) :
    Agree up g (movedRest g) (applied f e opens ts)
      (applied f' e (opens.map (Opener.moved g)) (ts.map (Token.moved g))) := by
  cases e with
  | ident name =>
    rcases ts with _ | ⟨t, rest⟩
    · exact .inr rfl
    have ha (b : Bracket) := enclosed_agrees h b t.start opens rest
    simp only [applied, List.map_cons, Token.lexeme_moved, Token.start_moved]
    split
    · refine (ha .round).through (fun r hr => by rw [hr]) fun he => .inr ?_
      rw [he]
      cases enclosed f ⟨.round, t.start⟩ opens rest <;> rfl
    · refine (ha .square).through (fun r hr => by rw [hr]) fun he => .inr ?_
      rw [he]
      cases enclosed f ⟨.square, t.start⟩ opens rest <;> rfl
    · exact .inr rfl
  | _ => exact .inr rfl

theorem group_agrees (b : Bracket) (n : Nat) (opens : List Opener) (ts : List Token) :
    Agree up g (movedRest g) (group f ⟨b, n⟩ opens ts)
      (group f' ⟨b, g n⟩ (opens.map (Opener.moved g)) (ts.map (Token.moved g))) := by
  have hc : (if b = .square then closingSquare? (ts.map (Token.moved g)) else none) =
      (if b = .square then closingSquare? ts else none).map (List.map (Token.moved g)) := by
    split_ifs
    · exact closingSquare?_moved g ts
    · rfl
  rw [group, group, hc]
  cases if b = .square then closingSquare? ts else none with
  | some rest => exact .inr rfl
  | none =>
    refine (enclosed_agrees h b n opens ts).through (fun r hr => by rw [hr]) fun he => ?_
    rw [he]
    cases enclosed f ⟨b, n⟩ opens ts with
    | error r => exact .inr rfl
    | ok q => exact applied_agrees h _ opens _

theorem primary_agrees : Agrees up g (primary f) (primary f') := by
  intro opens ts
  rcases ts with _ | ⟨t, rest⟩
  · exact .inr rfl
  simp only [primary, List.map_cons, Token.lexeme_moved, isOpen_moved]
  split
  · exact .inr rfl
  · exact .inr rfl
  · exact applied_agrees h _ opens rest
  · exact group_agrees h _ t.start opens rest
  · split <;> exact .inr rfl
  · split <;> exact .inr rfl
  · exact .inr rfl

/-- One more level of brackets. -/
theorem levels_agrees : Agrees up g (binary (unary (primary f) UnaryOp.levels) BinaryOp.levels)
    (binary (unary (primary f') UnaryOp.levels) BinaryOp.levels) :=
  binary_agrees (unary_agrees (primary_agrees h) UnaryOp.levels) BinaryOp.levels

end

theorem whole_agrees {depth more : Nat} (h : Agrees up g (expression depth) (expression more))
    (ts : List Token) :
    Agree up g id (whole depth ts) (whole more (ts.map (Token.moved g))) := by
  unfold whole
  refine (h [] ts).through (fun r hr => by rw [hr]) fun he => .inr ?_
  rw [List.map_nil] at he
  rw [he]
  rcases expression depth [] ts with r | ⟨e, _ | ⟨t, rest⟩⟩
  · rfl
  · rfl
  · exact rejectExtra_moved g id [] t rest

end

end Parse

end Scriptlet
