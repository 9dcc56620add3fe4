import Scriptlet.Proofs.Grammar

/-!
# Beginnings of phrases

`Begins p os missing ts`: the tokens `ts` are the beginning of a phrase of the kind `p`, in which
the brackets `os` are still open, innermost first, and in which the next operand is missing or has
just been completed. The constructors say where in the phrase they end: behind an operator, behind
an opening bracket, or behind a complete phrase.

* `Begins.completed`: a number for the missing operand and a closing bracket for every open one make
  a phrase of it.
* `Begins.openBrackets`: the open brackets are those that a stack of brackets holds.
* `Begins.missing_iff`: an operand is missing if none stands at the end.
-/

namespace Scriptlet

/-- The brackets that are open behind some tokens, innermost first, from those that are open before
them. There are none if a closing bracket does not close the innermost one. -/
def openBrackets (os : List Opener) : List Token → Option (List Opener)
  | [] => some os
  | t :: ts =>
    match t.lexeme with
    | .symbol (.opening b) => openBrackets (⟨b, t.start⟩ :: os) ts
    | .symbol (.closing b) =>
      match os with
      | [] => none
      | o :: os => if b = o.bracket then openBrackets os ts else none
    | _ => openBrackets os ts

/-- The tokens are the beginning of a phrase of a kind. -/
inductive Begins : Phrase → List Opener → Bool → List Token → Prop
  | start : Begins .primary [] true []
  | complete {p : Phrase} {ts : List Token} {e : Expr} : Derives p ts e → Begins p [] false ts
  | operand {os : List Opener} {missing : Bool} {ts : List Token} :
      Begins (.unary UnaryOp.levels) os missing ts → Begins (.binary 0) os missing ts
  | tighter {level : Nat} {os : List Opener} {missing : Bool} {ts : List Token} :
      Begins (.binary level) os missing ts → Begins (.binary (level + 1)) os missing ts
  | binary {op : BinaryOp} {t : Token} {os : List Opener} {missing : Bool} {ls ts : List Token}
      {l : Expr} :
      Derives (.binary (op.level + 1)) ls l → t.lexeme = .symbol op.symbol →
      Begins (.binary op.level) os missing ts →
      Begins (.binary (op.level + 1)) os missing (ls ++ t :: ts)
  | primary {os : List Opener} {missing : Bool} {ts : List Token} :
      Begins .primary os missing ts → Begins (.unary 0) os missing ts
  | without {level : Nat} {os : List Opener} {missing : Bool} {ts : List Token} :
      Begins (.unary level) os missing ts → Begins (.unary (level + 1)) os missing ts
  | unary {op : UnaryOp} {t : Token} {os : List Opener} {missing : Bool} {ts : List Token} :
      t.lexeme = .symbol op.symbol → Begins (.unary op.level) os missing ts →
      Begins (.unary (op.level + 1)) os missing (t :: ts)
  | group {b : Bracket} {o : Token} {os : List Opener} {missing : Bool} {ts : List Token} :
      o.lexeme = .symbol (.opening b) → Begins (.binary BinaryOp.levels) os missing ts →
      Begins .primary (os ++ [⟨b, o.start⟩]) missing (o :: ts)
  | applied {b : Bracket} {o : Token} {os : List Opener} {missing : Bool} {fs ts : List Token}
      {name : String} :
      Derives .base fs (.ident name) → o.lexeme = .symbol (.opening b) → b ≠ .curly →
      Begins (.binary BinaryOp.levels) os missing ts →
      Begins .primary (os ++ [⟨b, o.start⟩]) missing (fs ++ o :: ts)

namespace Begins

variable {p : Phrase} {os : List Opener} {missing : Bool} {ts : List Token}

theorem unary_of_primary (h : Begins .primary os missing ts) :
    ∀ levels, Begins (.unary levels) os missing ts
  | 0 => .primary h
  | level + 1 => .without (unary_of_primary h level)

theorem binary_of_primary (h : Begins .primary os missing ts) :
    ∀ levels, Begins (.binary levels) os missing ts
  | 0 => .operand (unary_of_primary h UnaryOp.levels)
  | level + 1 => .tighter (binary_of_primary h level)

/-! ## Completion -/

/-- A number for a missing operand, and a closing bracket for each open one. -/
def completion (os : List Opener) (missing : Bool) : List Token :=
  (if missing then [⟨.number "0" 0, 0⟩] else []) ++
    os.map fun o => ⟨.symbol (.closing o.bracket), 0⟩

theorem completion_append (os : List Opener) (o : Opener) (missing : Bool) :
    completion (os ++ [o]) missing =
      completion os missing ++ [⟨.symbol (.closing o.bracket), 0⟩] := by
  simp [completion]

theorem ne_opening_of_mem_completion {t : Token} (ht : t ∈ completion os missing) (b : Bracket) :
    t.lexeme ≠ .symbol (.opening b) := by
  rcases List.mem_append.1 ht with ht | ht
  · cases missing with
    | true =>
      obtain rfl := List.mem_singleton.1 ht
      nofun
    | false => cases ht
  · obtain ⟨o, -, rfl⟩ := List.mem_map.1 ht
    simp

theorem isSignificant_of_mem_completion {t : Token} (ht : t ∈ completion os missing) :
    t.lexeme.isSignificant = true := by
  rcases List.mem_append.1 ht with ht | ht
  · cases missing with
    | true =>
      obtain rfl := List.mem_singleton.1 ht
      rfl
    | false => cases ht
  · obtain ⟨o, -, rfl⟩ := List.mem_map.1 ht
    rfl

/-- Every beginning of a phrase can be completed. -/
theorem completed (h : Begins p os missing ts) :
    ∃ e, Derives p (ts ++ completion os missing) e := by
  induction h with
  | start => exact ⟨_, .number rfl⟩
  | complete h => exact ⟨_, by simpa [completion] using h⟩
  | operand _ ih =>
    obtain ⟨e, he⟩ := ih
    exact ⟨e, .operand he⟩
  | tighter _ ih =>
    obtain ⟨e, he⟩ := ih
    exact ⟨e, .tighter he⟩
  | primary _ ih =>
    obtain ⟨e, he⟩ := ih
    exact ⟨e, .primary he⟩
  | without _ ih =>
    obtain ⟨e, he⟩ := ih
    exact ⟨e, .without he⟩
  | binary hl ht _ ih =>
    obtain ⟨e, he⟩ := ih
    rw [List.append_assoc, List.cons_append]
    exact ⟨_, .binary hl ht he⟩
  | unary ht _ ih =>
    obtain ⟨e, he⟩ := ih
    exact ⟨_, .unary ht he⟩
  | group ho _ ih =>
    obtain ⟨e, he⟩ := ih
    rw [completion_append, List.cons_append, ← List.append_assoc]
    exact ⟨e, .base (.group ho he rfl)⟩
  | @applied b o os missing fs ts name hf ho hb _ ih =>
    obtain ⟨e, he⟩ := ih
    rw [completion_append, List.append_assoc, List.cons_append, ← List.append_assoc ts]
    cases b with
    | round => exact ⟨_, .call hf ho he rfl⟩
    | square => exact ⟨_, .element hf ho he rfl⟩
    | curly => exact absurd rfl hb

/-! ## Open brackets -/

/-- A beginning nests at least as deeply as its open brackets. -/
theorem length_le_nesting (h : Begins p os missing ts) (n : Nat) :
    n + os.length ≤ nesting n ts := by
  induction h generalizing n with
  | start => exact Nat.le_refl n
  | complete _ => exact le_nesting n _
  | operand _ ih | tighter _ ih | primary _ ih | without _ ih => exact ih n
  | @binary op t os missing ls ts l hl ht _ ih =>
    rw [hl.nesting_append,
      nesting_cons_of_symbol ht op.symbol_ne_opening op.symbol_ne_closing]
    have := ih n
    omega
  | @unary op t os missing ts ht _ ih =>
    rw [nesting_cons_of_symbol ht op.symbol_ne_opening op.symbol_ne_closing]
    exact ih n
  | group ho _ ih =>
    have := ih (n + 1)
    rw [nesting_cons_of_opening ho, List.length_append, List.length_singleton]
    omega
  | applied hf ho _ _ ih =>
    have := ih (n + 1)
    rw [hf.nesting_append, nesting_cons_of_opening ho, List.length_append, List.length_singleton]
    omega

end Begins

theorem openBrackets_cons_of_opening {t : Token} {b : Bracket}
    (h : t.lexeme = .symbol (.opening b)) (os : List Opener) (ts : List Token) :
    openBrackets os (t :: ts) = openBrackets (⟨b, t.start⟩ :: os) ts := by
  simp only [openBrackets, h]

theorem openBrackets_cons_of_closing {t : Token} {o : Opener}
    (h : t.lexeme = .symbol (.closing o.bracket)) (os : List Opener) (ts : List Token) :
    openBrackets (o :: os) (t :: ts) = openBrackets os ts := by
  simp only [openBrackets, h, if_true]

theorem openBrackets_cons {t : Token} (ho : ∀ b, t.lexeme ≠ .symbol (.opening b))
    (hc : ∀ b, t.lexeme ≠ .symbol (.closing b)) (os : List Opener) (ts : List Token) :
    openBrackets os (t :: ts) = openBrackets os ts := by
  rw [openBrackets]
  split
  · exact absurd (by assumption) (ho _)
  · exact absurd (by assumption) (hc _)
  · rfl

theorem openBrackets_cons_of_symbol {t : Token} {s : Symbol} (h : t.lexeme = .symbol s)
    (ho : ∀ b, s ≠ .opening b) (hc : ∀ b, s ≠ .closing b) (os : List Opener) (ts : List Token) :
    openBrackets os (t :: ts) = openBrackets os ts :=
  openBrackets_cons (by simpa [h] using ho) (by simpa [h] using hc) os ts

/-- The brackets of a phrase are closed again. -/
theorem Derives.openBrackets_append {p : Phrase} {ts : List Token} {e : Expr} (h : Derives p ts e)
    (os : List Opener) (rest : List Token) :
    openBrackets os (ts ++ rest) = openBrackets os rest := by
  induction h generalizing os rest with
  | operand _ ih | tighter _ ih | primary _ ih | without _ ih | base _ ih => exact ih os rest
  | @binary op t ls rs l r _ ht _ ihl ihr =>
    rw [List.append_assoc, ihl, List.cons_append,
      openBrackets_cons_of_symbol ht op.symbol_ne_opening op.symbol_ne_closing, ihr]
  | @unary op t ts e ht _ ih =>
    rw [List.cons_append,
      openBrackets_cons_of_symbol ht op.symbol_ne_opening op.symbol_ne_closing, ih]
  | number ht | string ht | name ht =>
    exact openBrackets_cons (by simp [ht]) (by simp [ht]) os rest
  | @root t r ht =>
    exact openBrackets_cons_of_symbol ht r.symbol_ne_opening r.symbol_ne_closing os rest
  | emptyArray ho hc =>
    rw [List.cons_append, openBrackets_cons_of_opening ho, List.cons_append,
      openBrackets_cons_of_closing hc, List.nil_append]
  | call _ ho _ hc ihf iht | element _ ho _ hc ihf iht =>
    rw [List.append_assoc, ihf, List.cons_append, openBrackets_cons_of_opening ho,
      List.append_assoc, iht, List.singleton_append, openBrackets_cons_of_closing hc]
  | group ho _ hc ih =>
    rw [List.cons_append, openBrackets_cons_of_opening ho, List.append_assoc, ih,
      List.singleton_append, openBrackets_cons_of_closing hc]

namespace Begins

variable {p : Phrase} {os : List Opener} {missing : Bool} {ts : List Token}

/-- An open bracket is one of the tokens. -/
theorem exists_of_mem (h : Begins p os missing ts) : ∀ o ∈ os, ∃ t ∈ ts, t.start = o.start := by
  induction h with
  | start | complete _ => nofun
  | operand _ ih | tighter _ ih | primary _ ih | without _ ih => exact ih
  | binary _ _ _ ih | unary _ _ ih =>
    intro o ho
    obtain ⟨t, ht, hst⟩ := ih o ho
    exact ⟨t, by simp [ht], hst⟩
  | @group b t os missing ts _ _ ih | @applied b t os missing fs ts name _ _ _ _ ih =>
    intro o ho
    rcases List.mem_append.1 ho with ho | ho
    · obtain ⟨u, hu, hst⟩ := ih o ho
      exact ⟨u, by simp [hu], hst⟩
    · obtain rfl := List.mem_singleton.1 ho
      exact ⟨t, by simp, rfl⟩

theorem openBrackets (h : Begins p os missing ts) (outer : List Opener) :
    Scriptlet.openBrackets outer ts = some (os ++ outer) := by
  induction h generalizing outer with
  | start => rfl
  | complete h =>
    have := h.openBrackets_append outer []
    rwa [List.append_nil] at this
  | operand _ ih | tighter _ ih | primary _ ih | without _ ih => exact ih outer
  | @binary op t os missing ls ts l hl ht _ ih =>
    rw [hl.openBrackets_append,
      openBrackets_cons_of_symbol ht op.symbol_ne_opening op.symbol_ne_closing, ih]
  | @unary op t os missing ts ht _ ih =>
    rw [openBrackets_cons_of_symbol ht op.symbol_ne_opening op.symbol_ne_closing, ih]
  | group ho _ ih =>
    rw [openBrackets_cons_of_opening ho, ih, List.append_assoc, List.singleton_append]
  | applied hf ho _ _ ih =>
    rw [hf.openBrackets_append, openBrackets_cons_of_opening ho, ih, List.append_assoc,
      List.singleton_append]

end Begins

/-! ## The end -/

/-- An operand stands at the end of the tokens. -/
def EndsOperand (ts : List Token) : Prop :=
  ∃ front operand e, ts = front ++ operand ∧ Derives .primary operand e

/-- The token is an operator or opens a bracket, so an operand comes next. -/
def Token.OpensOperand (t : Token) : Prop :=
  (∃ b, t.lexeme = .symbol (.opening b)) ∨ (∃ op : BinaryOp, t.lexeme = .symbol op.symbol) ∨
    ∃ op : UnaryOp, t.lexeme = .symbol op.symbol

namespace Token

theorem not_opensOperand {t : Token} (h : ∀ s, t.lexeme ≠ .symbol s) : ¬ t.OpensOperand := by
  rintro (⟨b, hb⟩ | ⟨op, ho⟩ | ⟨op, ho⟩)
  · exact h _ hb
  · exact h _ ho
  · exact h _ ho

theorem not_opensOperand_of_symbol {t : Token} {s : Symbol} (h : t.lexeme = .symbol s)
    (ho : ∀ b, s ≠ .opening b) (hb : ∀ op : BinaryOp, s ≠ op.symbol)
    (hu : ∀ op : UnaryOp, s ≠ op.symbol) : ¬ t.OpensOperand := by
  simp only [OpensOperand, h, Lexeme.symbol.injEq]
  rintro (⟨b, rfl⟩ | ⟨op, rfl⟩ | ⟨op, rfl⟩)
  · exact ho b rfl
  · exact hb op rfl
  · exact hu op rfl

theorem not_opensOperand_of_closing {t : Token} {b : Bracket}
    (h : t.lexeme = .symbol (.closing b)) : ¬ t.OpensOperand :=
  not_opensOperand_of_symbol h nofun (fun op => (op.symbol_ne_closing b).symm)
    fun op => (op.symbol_ne_closing b).symm

end Token

/-- No phrase ends in an operator or an opening bracket. -/
theorem Derives.last {p : Phrase} {ts : List Token} {e : Expr} (h : Derives p ts e) :
    ∃ front t, ts = front ++ [t] ∧ ¬ t.OpensOperand := by
  induction h with
  | operand _ ih | tighter _ ih | primary _ ih | without _ ih | base _ ih => exact ih
  | @binary op t ls rs l r _ _ _ _ ih =>
    obtain ⟨front, u, rfl, hu⟩ := ih
    exact ⟨ls ++ t :: front, u, by simp, hu⟩
  | @unary op t ts e _ _ ih =>
    obtain ⟨front, u, rfl, hu⟩ := ih
    exact ⟨t :: front, u, rfl, hu⟩
  | number ht | string ht | name ht =>
    exact ⟨[], _, rfl, Token.not_opensOperand (by simp [ht])⟩
  | @root t r ht =>
    exact ⟨[], t, rfl, Token.not_opensOperand_of_symbol ht r.symbol_ne_opening
      r.symbol_ne_binary r.symbol_ne_unary⟩
  | @emptyArray o c _ hc => exact ⟨[o], c, rfl, Token.not_opensOperand_of_closing hc⟩
  | @call o c fs ts name e _ _ _ hc | @element o c fs ts name e _ _ _ hc =>
    exact ⟨fs ++ o :: ts, c, by simp, Token.not_opensOperand_of_closing hc⟩
  | @group b o c ts e _ _ hc => exact ⟨o :: ts, c, rfl, Token.not_opensOperand_of_closing hc⟩

theorem EndsOperand.append {ts : List Token} (h : EndsOperand ts) (front : List Token) :
    EndsOperand (front ++ ts) := by
  obtain ⟨front', operand, e, rfl, he⟩ := h
  exact ⟨front ++ front', operand, e, (List.append_assoc ..).symm, he⟩

theorem EndsOperand.cons {ts : List Token} (h : EndsOperand ts) (t : Token) :
    EndsOperand (t :: ts) := h.append [t]

theorem EndsOperand.not_opensOperand {ts : List Token} (h : EndsOperand ts) :
    ∃ t ∈ ts.getLast?, ¬ t.OpensOperand := by
  obtain ⟨front, operand, e, rfl, he⟩ := h
  obtain ⟨front', t, rfl, ht⟩ := he.last
  exact ⟨t, by simp, ht⟩

/-- Every phrase ends in an operand. -/
theorem Derives.endsOperand {p : Phrase} {ts : List Token} {e : Expr} (h : Derives p ts e) :
    EndsOperand ts := by
  induction h with
  | operand _ ih | tighter _ ih | primary _ ih | without _ ih => exact ih
  | binary _ _ _ _ ih => exact (ih.cons _).append _
  | unary _ _ ih => exact ih.cons _
  | number ht => exact ⟨[], _, _, rfl, .number ht⟩
  | string ht => exact ⟨[], _, _, rfl, .string ht⟩
  | root ht => exact ⟨[], _, _, rfl, .root ht⟩
  | emptyArray ho hc => exact ⟨[], _, _, rfl, .emptyArray ho hc⟩
  | base h _ => exact ⟨[], _, _, rfl, .base h⟩
  | call hf ho ht hc => exact ⟨[], _, _, rfl, .call hf ho ht hc⟩
  | element hf ho ht hc => exact ⟨[], _, _, rfl, .element hf ho ht hc⟩
  | name ht => exact ⟨[], _, _, rfl, .base (.name ht)⟩
  | group ho ht hc => exact ⟨[], _, _, rfl, .base (.group ho ht hc)⟩

/-- What follows a token that an operand comes after has such a token at its end, or is empty. -/
theorem Token.OpensOperand.last {t : Token} (ht : t.OpensOperand) {ts : List Token}
    (h : ∀ u ∈ ts.getLast?, u.OpensOperand) (front : List Token) :
    ∀ u ∈ (front ++ t :: ts).getLast?, u.OpensOperand := by
  intro u hu
  cases hts : ts.getLast? with
  | none =>
    obtain rfl := List.getLast?_eq_none_iff.1 hts
    obtain rfl : t = u := by simpa using hu
    exact ht
  | some v =>
    obtain rfl : v = u := by simpa [List.getLast?_append, List.getLast?_cons, hts] using hu
    exact h v hts

namespace Begins

variable {p : Phrase} {os : List Opener} {missing : Bool} {ts : List Token}

theorem opensOperand (h : Begins p os missing ts) (hm : missing = true) :
    ∀ u ∈ ts.getLast?, u.OpensOperand := by
  induction h with
  | start => nofun
  | complete _ => cases hm
  | operand _ ih | tighter _ ih | primary _ ih | without _ ih => exact ih hm
  | @binary op t _ _ ls ts _ _ ht _ ih =>
    exact Token.OpensOperand.last (.inr (.inl ⟨op, ht⟩)) (ih hm) ls
  | @unary op t _ _ ts ht _ ih => exact Token.OpensOperand.last (.inr (.inr ⟨op, ht⟩)) (ih hm) []
  | @group b o _ _ ts ho _ ih => exact Token.OpensOperand.last (.inl ⟨b, ho⟩) (ih hm) []
  | @applied b o _ _ fs ts _ _ ho _ _ ih =>
    exact Token.OpensOperand.last (.inl ⟨b, ho⟩) (ih hm) fs

theorem endsOperand (h : Begins p os missing ts) (hm : missing = false) : EndsOperand ts := by
  induction h with
  | start => cases hm
  | complete h => exact h.endsOperand
  | operand _ ih | tighter _ ih | primary _ ih | without _ ih => exact ih hm
  | binary _ _ _ ih | applied _ _ _ _ ih => exact ((ih hm).cons _).append _
  | unary _ _ ih | group _ _ ih => exact (ih hm).cons _

/-- An operand is missing where none stands at the end. -/
theorem missing_iff (h : Begins p os missing ts) : missing = true ↔ ¬ EndsOperand ts := by
  constructor
  · intro hm he
    obtain ⟨t, ht, hn⟩ := he.not_opensOperand
    exact hn (h.opensOperand hm t ht)
  · intro hn
    exact eq_true_of_ne_false fun hm => hn (h.endsOperand hm)

end Begins

end Scriptlet
