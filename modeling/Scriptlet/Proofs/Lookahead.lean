import Scriptlet.Proofs.ParseFront

/-!
# How far a parser looks

`Local f`: the parser `f` looks at the tokens that it reads and at the one behind them, and at
nothing else. So it does the same in front of any other tokens, as long as the first of these is the
same, be it that it comes to a tree or that it gives up. Reading one thing behind another is local
if both parts are (`LocalAt.andThen`): where the second part reads nothing, it has seen the same
first token as the first part.

* `whole_local`: a script is given up in the same way whatever follows the first impossible token.
-/

namespace Scriptlet.Parse

variable {α β γ : Type}

/-- What a parser comes to, with the tokens behind it. -/
abbrev Answer (α : Type) := Except Rejection (α × List Token)

/-- The tokens that are left. -/
def unread : Answer α → List Token
  | .ok (_, rest) => rest
  | .error r => r.unread

/-- The answer with other tokens left. -/
def withUnread (us : List Token) : Answer α → Answer α
  | .ok (a, _) => .ok (a, us)
  | .error r => .error ⟨r.cause, us⟩

/-- What the parser does with some tokens it also does where others follow those that it reads, if
the first one is the same. -/
def LocalAt (f : List Token → Answer α) (ts : List Token) : Prop :=
  ∃ seen, ts = seen ++ unread (f ts) ∧
    ∀ us, us.head? = (unread (f ts)).head? → f (seen ++ us) = withUnread us (f ts)

def Local (f : List Token → Answer α) : Prop := ∀ ts, LocalAt f ts

/-! ## Parts -/

/-- Reads one thing and then another. -/
def andThen (f : List Token → Answer α) (g : α → List Token → Answer β) (ts : List Token) :
    Answer β :=
  match f ts with
  | .error r => .error r
  | .ok (a, rest) => g a rest

namespace LocalAt

variable {f g : List Token → Answer α} {t : Token} {ts : List Token}

theorem andThen {g : α → List Token → Answer β} (hf : LocalAt f ts)
    (hg : ∀ a rest, f ts = .ok (a, rest) → LocalAt (g a) rest) :
    LocalAt (Parse.andThen f g) ts := by
  obtain ⟨seen, hts, hs⟩ := hf
  unfold LocalAt Parse.andThen
  rcases hfts : f ts with r | ⟨a, rest⟩
  · rw [hfts] at hts hs
    refine ⟨seen, hts, fun us hus => ?_⟩
    rw [hs us hus]
    rfl
  · rw [hfts] at hts hs
    obtain ⟨seen', hrest, hs'⟩ := hg a rest hfts
    have hts : ts = seen ++ rest := hts
    refine ⟨seen ++ seen', by rw [List.append_assoc, ← hrest, ← hts], fun us hus => ?_⟩
    -- the second part reads something, or it has seen the token behind the first part
    have hhead : (seen' ++ us).head? = rest.head? := by
      cases seen' with
      | nil =>
        rw [List.nil_append] at hrest
        rw [List.nil_append, hus, ← hrest]
      | cons t seen' =>
        rw [hrest]
        rfl
    rw [List.append_assoc, hs _ hhead]
    exact hs' us hus

/-- Parsers that do the same from a given first token on. -/
theorem congr (hg : LocalAt g ts) (h : ∀ us, us.head? = ts.head? → f us = g us) :
    LocalAt f ts := by
  obtain ⟨seen, hts, hs⟩ := hg
  unfold LocalAt
  rw [h ts rfl]
  refine ⟨seen, hts, fun us hus => ?_⟩
  rw [← hs us hus]
  apply h
  rw [hts, List.head?_append, List.head?_append, hus]

/-- Reads a token and then does what another parser does. -/
theorem cons (hg : LocalAt g ts) (h : ∀ us, f (t :: us) = g us) : LocalAt f (t :: ts) := by
  obtain ⟨seen, hts, hs⟩ := hg
  unfold LocalAt
  rw [h]
  refine ⟨t :: seen, congrArg (t :: ·) hts, fun us hus => ?_⟩
  rw [List.cons_append, h]
  exact hs us hus

end LocalAt

theorem local_ok (a : α) : Local fun ts => (.ok (a, ts) : Answer α) :=
  fun _ => ⟨[], rfl, fun _ _ => rfl⟩

theorem local_reject (cause : Rejection.Cause) : Local (reject cause : List Token → Answer α) :=
  fun _ => ⟨[], rfl, fun _ _ => rfl⟩

/-- Why a token behind a complete tree is given up depends on no other token. -/
theorem rejectExtra_eq (opens : List Opener) (t : Token) :
    ∃ cause, ∀ us, (rejectExtra opens t us : Except Rejection α) = reject cause (t :: us) := by
  unfold rejectExtra
  split
  · split
    · exact ⟨_, fun _ => rfl⟩
    · exact ⟨_, fun _ => rfl⟩
  · exact ⟨_, fun _ => rfl⟩

theorem localAt_rejectExtra (opens : List Opener) (t : Token) {f : List Token → Answer α}
    {ts : List Token} (h : ∀ us, f (t :: us) = rejectExtra opens t us) : LocalAt f (t :: ts) := by
  obtain ⟨cause, hcause⟩ := rejectExtra_eq (α := α × List Token) opens t
  refine (local_reject cause _).congr fun us hus => ?_
  cases us with
  | nil => cases hus
  | cons u us =>
    obtain rfl : u = t := Option.some.inj hus
    rw [h, hcause]

/-- Two lists without a first token are empty, and others share it. -/
theorem head?_cases {us ts : List Token} (h : us.head? = ts.head?) :
    (us = [] ∧ ts = []) ∨ ∃ t us' ts', us = t :: us' ∧ ts = t :: ts' := by
  cases us with
  | nil =>
    cases ts with
    | nil => exact .inl ⟨rfl, rfl⟩
    | cons t ts => cases h
  | cons u us =>
    cases ts with
    | nil => cases h
    | cons t ts =>
      obtain rfl : u = t := Option.some.inj h
      exact .inr ⟨u, us, ts, rfl, rfl⟩

/-- Reads an operator of a level and what follows it, or does something else if there is none. -/
theorem localAt_operator (ofSymbol? : Symbol → Option γ) (levelOf : γ → Nat) (level : Nat)
    {f n : List Token → Answer α} {g : γ → List Token → Answer α} {ts : List Token}
    (hf : ∀ us, f us = match operatorAt? ofSymbol? levelOf level us with
      | none => n us
      | some (op, rest) => g op rest)
    (hn : LocalAt n ts)
    (hg : ∀ t op rest, ts = t :: rest → LocalAt (g op) rest) : LocalAt f ts := by
  cases ho : operatorAt? ofSymbol? levelOf level ts with
  | none =>
    refine hn.congr fun us hus => ?_
    rcases head?_cases hus with ⟨rfl, rfl⟩ | ⟨t, us, ts, rfl, rfl⟩
    · rw [hf, ho]
    · rw [hf, operatorAt?_congr _ _ _ rfl ts us, ho]
      rfl
  | some q =>
    cases ts with
    | nil => cases ho
    | cons t ts =>
      refine (hg t q.1 ts rfl).cons fun us => ?_
      rw [hf, operatorAt?_congr _ _ _ rfl ts us, ho]
      rfl

/-! ## Operators -/

/-- The run of operators is as long as the tokens make it, not as long as the bound. -/
theorem chain_of_length_le {level : Nat} {f : Step} {p : Phrase} (hs : Sound p f)
    {opens : List Opener} {bound more ts : List Token} {left : Expr}
    (hb : ts.length ≤ bound.length) (hm : ts.length ≤ more.length) :
    chain level f opens bound left ts = chain level f opens more left ts := by
  induction bound generalizing more ts left with
  | nil =>
    obtain rfl : ts = [] := List.eq_nil_of_length_eq_zero (Nat.le_zero.1 hb)
    rw [chain_nil, chain_nil]
  | cons b bound ih =>
    cases more with
    | nil =>
      obtain rfl : ts = [] := List.eq_nil_of_length_eq_zero (Nat.le_zero.1 hm)
      rw [chain_nil, chain_nil]
    | cons m more =>
      unfold chain
      cases ho : binaryAt? level ts with
      | none => rfl
      | some q =>
        obtain ⟨t, rfl, -, -⟩ := binaryAt?_eq_some_iff.1 (show _ = some (q.1, q.2) from ho)
        dsimp only
        cases hr : f opens q.2 with
        | error r => rfl
        | ok q' =>
          have hl : q'.2.length ≤ q.2.length := hs.length_le hr
          simp only [List.length_cons] at hb hm
          exact ih (by omega) (by omega)

theorem local_chain {level : Nat} {f : Step} {p : Phrase} (hs : Sound p f)
    {opens : List Opener} (hf : Local (f opens)) (left : Expr) :
    Local fun ts => chain level f opens ts left ts := by
  -- what follows an operator and its operand is shorter
  suffices h : ∀ n left (ts : List Token), ts.length ≤ n →
      LocalAt (fun ts => chain level f opens ts left ts) ts from
    fun ts => h ts.length left ts (Nat.le_refl _)
  intro n
  induction n with
  | zero =>
    intro left ts hts
    obtain rfl : ts = [] := List.eq_nil_of_length_eq_zero (Nat.le_zero.1 hts)
    exact (local_ok left []).congr fun us hus => by
      obtain rfl := List.head?_eq_none_iff.1 hus
      rfl
  | succ n ih =>
    intro left ts hts
    refine localAt_operator BinaryOp.ofSymbol? BinaryOp.level level (n := fun ts => .ok (left, ts))
      (g := fun op => andThen (f opens) fun right rest =>
        chain level f opens rest (.binary op left right) rest)
      (fun us => ?_) (local_ok left ts)
      fun t op rest hrest => (hf rest).andThen fun right rest' hr => ?_
    · cases us with
      | nil => rfl
      | cons u us =>
        rw [chain, binaryAt?]
        cases ho : operatorAt? BinaryOp.ofSymbol? BinaryOp.level level (u :: us) with
        | none => rfl
        | some q =>
          obtain ⟨_, hu, -, -⟩ := binaryAt?_eq_some_iff.1 (show _ = some (q.1, q.2) from ho)
          obtain ⟨-, rfl⟩ := List.cons.inj hu
          simp only [andThen]
          cases hr : f opens q.2 with
          | error r => rfl
          | ok q' =>
            exact chain_of_length_le hs (hs.length_le hr) (Nat.le_refl _)
    · have hl := hs.length_le hr
      subst hrest
      simp only [List.length_cons] at hts
      exact ih _ rest' (by omega)

theorem local_binary {f : Step} (hs : Sound (.unary UnaryOp.levels) f) {opens : List Opener}
    (hf : Local (f opens)) : ∀ levels, Local (binary f levels opens)
  | 0 => hf
  | level + 1 => by
    have ih := local_binary hs hf level
    have hchain (left : Expr) :
        Local fun ts => chain level (binary f level) opens ts left ts :=
      local_chain (binary_sound hs level) ih left
    refine fun ts => ((ih ts).andThen fun left rest _ => hchain left rest).congr fun us _ => ?_
    simp only [andThen, binary]
    cases binary f level opens us <;> rfl

theorem local_unary {f : Step} {opens : List Opener} (hf : Local (f opens)) :
    ∀ levels, Local (unary f levels opens)
  | 0 => hf
  | level + 1 => by
    have ih := local_unary hf level
    refine fun ts => localAt_operator UnaryOp.ofSymbol? UnaryOp.level level (g := fun op =>
      andThen (unary f level opens) fun e rest => .ok (.unary op e, rest)) (fun us => ?_) (ih ts)
      fun _ op rest _ => (ih rest).andThen fun e rest' _ => local_ok _ rest'
    simp only [unary, unaryAt?, andThen]
    rcases operatorAt? UnaryOp.ofSymbol? UnaryOp.level level us with _ | ⟨op, rest⟩
    · rfl
    · dsimp only
      cases unary f level opens rest <;> rfl

/-! ## Operands -/

/-- A symbol that is no bracket is a root or starts no operand. -/
theorem primary_of_symbol (inner : Step) (opens : List Opener) {t : Token} {s : Symbol}
    (ht : t.lexeme = .symbol s) (ho : ∀ b, s ≠ .opening b) (hc : ∀ b, s ≠ .closing b)
    (rest : List Token) :
    primary inner opens (t :: rest) = match Root.ofSymbol? s with
      | some r => .ok (.root r, rest)
      | none => reject (.unexpected t.text) (t :: rest) := by
  cases s with
  | opening b => exact absurd rfl (ho b)
  | closing b => exact absurd rfl (hc b)
  | _ => simp only [primary, ht, Root.ofSymbol?]

/-- The end of a group, behind a tree that is already there. -/
theorem local_enclosed_of_tree (opener : Opener) (opens : List Opener) (e : Expr) :
    Local (enclosed (fun _ ts => .ok (e, ts)) opener opens) := by
  intro ts
  cases ts with
  | nil =>
    refine (local_reject (.neverClosed opener) []).congr fun us hus => ?_
    obtain rfl := List.head?_eq_none_iff.1 hus
    rfl
  | cons t rest =>
    by_cases hc : t.lexeme = .symbol (.closing opener.bracket)
    · refine (local_ok e rest).cons fun us => ?_
      simp only [enclosed, hc, if_true]
    · refine localAt_rejectExtra opens t fun us => ?_
      unfold enclosed
      dsimp only
      split
      · rename_i b hb
        rw [if_neg]
        rintro rfl
        exact hc hb
      · rfl

section
variable {inner : Step} (hi : ∀ opens, Local (inner opens))
include hi

theorem local_enclosed (opener : Opener) (opens : List Opener) :
    Local (enclosed inner opener opens) := by
  intro ts
  refine ((hi (opener :: opens) ts).andThen fun e rest _ =>
    local_enclosed_of_tree opener opens e rest).congr fun us _ => ?_
  simp only [andThen, enclosed]
  rcases inner (opener :: opens) us with r | ⟨e, _ | ⟨t, rest⟩⟩ <;> rfl

theorem local_applied (e : Expr) (opens : List Opener) : Local (applied inner e opens) := by
  intro ts
  cases e with
  | ident name =>
    cases ts with
    | nil =>
      refine (local_ok (.ident name) []).congr fun us hus => ?_
      obtain rfl := List.head?_eq_none_iff.1 hus
      rfl
    | cons t rest =>
      by_cases hr : t.lexeme = .symbol (.opening .round)
      · refine ((local_enclosed hi ⟨.round, t.start⟩ opens rest).andThen fun a rest' _ =>
          local_ok (Expr.call name a) rest').cons fun us => ?_
        simp only [applied, hr, andThen]
        cases enclosed inner ⟨.round, t.start⟩ opens us <;> rfl
      by_cases hq : t.lexeme = .symbol (.opening .square)
      · refine ((local_enclosed hi ⟨.square, t.start⟩ opens rest).andThen fun a rest' _ =>
          local_ok (Expr.element name a) rest').cons fun us => ?_
        simp only [applied, hq, andThen]
        cases enclosed inner ⟨.square, t.start⟩ opens us <;> rfl
      refine (local_ok (.ident name) (t :: rest)).congr fun us hus => ?_
      rcases head?_cases hus with ⟨rfl, hn⟩ | ⟨u, us, _, rfl, hu⟩
      · cases hn
      · obtain ⟨rfl, -⟩ := List.cons.inj hu
        simp only [applied]
  | _ => exact local_ok _ ts

theorem local_group (opener : Opener) (opens : List Opener) : Local (group inner opener opens) := by
  intro ts
  have hgroup : LocalAt (andThen (enclosed inner opener opens) fun e => applied inner e opens) ts :=
    (local_enclosed hi opener opens ts).andThen fun e rest _ => local_applied hi e opens rest
  have hstep (us : List Token)
      (hc : (if opener.bracket = .square then closingSquare? us else none) = none) :
      group inner opener opens us =
        andThen (enclosed inner opener opens) (fun e => applied inner e opens) us := by
    rw [group, hc]
    simp only [andThen]
    cases enclosed inner opener opens us <;> rfl
  cases hc : (if opener.bracket = .square then closingSquare? ts else none) with
  | none =>
    refine hgroup.congr fun us hus => hstep us ?_
    rcases head?_cases hus with ⟨rfl, rfl⟩ | ⟨t, us, ts, rfl, rfl⟩
    · exact hc
    · rw [closingSquare?_congr rfl ts us]
      split at hc
      · rename_i hb
        rw [if_pos hb, hc]
        rfl
      · rename_i hb
        rw [if_neg hb]
  | some rest =>
    split at hc
    · rename_i hb
      obtain ⟨t, rfl, ht⟩ := closingSquare?_eq_some_iff.1 hc
      refine (local_ok (.root .emptyArray) rest).cons fun us => ?_
      simp only [group, hb, if_true, closingSquare?, ht]
    · cases hc

theorem local_primary (opens : List Opener) : Local (primary inner opens) := by
  intro ts
  cases ts with
  | nil =>
    refine (local_reject .operandExpected []).congr fun us hus => ?_
    obtain rfl := List.head?_eq_none_iff.1 hus
    rfl
  | cons t rest =>
    have hunread (cause : Rejection.Cause)
        (h : ∀ us, primary inner opens (t :: us) = reject cause (t :: us)) :
        LocalAt (primary inner opens) (t :: rest) := by
      refine (local_reject cause (t :: rest)).congr fun us hus => ?_
      rcases head?_cases hus with ⟨rfl, hn⟩ | ⟨u, us, _, rfl, hu⟩
      · cases hn
      · obtain ⟨rfl, -⟩ := List.cons.inj hu
        exact h us
    cases ht : t.lexeme with
    | number text x =>
      refine (local_ok (.number x) rest).cons fun us => ?_
      simp only [primary, ht]
    | string text x =>
      refine (local_ok (.text x) rest).cons fun us => ?_
      simp only [primary, ht]
    | name n =>
      refine (local_applied hi (.ident n) opens rest).cons fun us => ?_
      simp only [primary, ht]
    | blank _ | comment _ | stray _ =>
      refine hunread (.unexpected t.text) fun us => ?_
      simp only [primary, ht]
    | symbol s =>
      by_cases ho : ∃ b, s = .opening b
      · obtain ⟨b, rfl⟩ := ho
        refine (local_group hi ⟨b, t.start⟩ opens rest).cons fun us => ?_
        simp only [primary, ht]
      by_cases hc : ∃ b, s = .closing b
      · obtain ⟨b, rfl⟩ := hc
        refine hunread (if isOpen opens b then .unexpected t.text else .unmatched b) fun us => ?_
        simp only [primary, ht]
        split <;> rfl
      have hsymbol := primary_of_symbol inner opens ht (not_exists.1 ho) (not_exists.1 hc)
      cases hr : Root.ofSymbol? s with
      | some r =>
        refine (local_ok (.root r) rest).cons fun us => ?_
        rw [hsymbol, hr]
      | none =>
        refine hunread (.unexpected t.text) fun us => ?_
        rw [hsymbol, hr]

end

/-! ## Scripts -/

theorem local_expression (depth : Nat) (opens : List Opener) :
    Local (expression depth opens) := by
  induction depth generalizing opens with
  | zero => exact local_reject .tooDeep
  | succ depth ih =>
    exact local_binary (unary_sound (primary_sound (expression_sound depth)) UnaryOp.levels)
      (local_unary (local_primary ih opens) UnaryOp.levels) BinaryOp.levels

/-- A script is given up in the same way whatever follows the first impossible token. -/
theorem whole_local {limit : Nat} {before ts : List Token} {r : Rejection}
    (h : whole limit ts = .error r) (hts : ts = before ++ r.unread) {us : List Token}
    (hus : us.head? = r.unread.head?) : whole limit (before ++ us) = .error ⟨r.cause, us⟩ := by
  obtain ⟨seen, hseen, hs⟩ := local_expression limit [] ts
  unfold whole at h
  split at h
  · rename_i r' hr
    obtain rfl := Except.error.inj h
    rw [hr] at hseen hs
    obtain rfl := List.append_cancel_right (hts.symm.trans hseen)
    rw [whole, hs us hus]
    rfl
  · cases h
  · rename_i e t rest he
    rw [he] at hseen hs
    obtain ⟨cause, hcause⟩ := rejectExtra_eq (α := Expr) [] t
    rw [hcause] at h
    obtain rfl := Except.error.inj h
    obtain rfl := List.append_cancel_right (hts.symm.trans hseen)
    cases us with
    | nil => cases hus
    | cons u us =>
      obtain rfl : u = t := Option.some.inj hus
      rw [whole, hs (u :: us) rfl]
      exact hcause us

end Scriptlet.Parse
