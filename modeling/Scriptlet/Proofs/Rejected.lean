import Scriptlet.Proofs.Beginning
import Scriptlet.Proofs.ParseSound
import Scriptlet.Proofs.Scan

/-!
# Where a parse gives up

`Stops p room f`: where the parser `f` gives up, it has read a beginning of a phrase of the kind
`p`, and either it is out of room for brackets or `Gives` says what it reports. That depends only on
the open brackets, on whether an operand is missing, and on the next token.

* `gives_of_whole`: a script is given up behind the beginning of one.
* `position_of_error`: since no token of a text ends behind the end of the text, neither does the
  place of an error. Only an error about nesting has no place.
-/

namespace Scriptlet

namespace Parse

/-- What is reported behind the beginning of a phrase, in which some brackets are open and an
operand is missing or not. -/
inductive Gives (opens : List Opener) : Bool → Rejection → Prop
  | operand : Gives opens true ⟨.operandExpected, []⟩
  | never {o : Opener} {outer : List Opener} :
      opens = o :: outer → Gives opens false ⟨.neverClosed o, []⟩
  | unmatched {missing : Bool} {b : Bracket} {t : Token} {rest : List Token} :
      t.lexeme = .symbol (.closing b) → isOpen opens b = false →
      Gives opens missing ⟨.unmatched b, t :: rest⟩
  | unexpected {t : Token} {rest : List Token} :
      (∀ b, t.lexeme = .symbol (.closing b) → isOpen opens b = true) →
      Gives opens true ⟨.unexpected t.text, t :: rest⟩
  | extra {t : Token} {rest : List Token} :
      (∀ b, t.lexeme = .symbol (.closing b) → isOpen opens b = true) →
      Gives opens false ⟨.extra t.text, t :: rest⟩

/-- The parser has given up behind the beginning of a phrase. -/
def Stopped (p : Phrase) (room : Nat) (opens : List Opener) (ts : List Token) (r : Rejection) :
    Prop :=
  ∃ seen os missing, ts = seen ++ r.unread ∧ Begins p os missing seen ∧
    ((r.cause = .tooDeep ∧ room ≤ os.length) ∨ Gives (os ++ opens) missing r)

/-- Where the parser gives up, it has read a beginning of a phrase. -/
def Stops (p : Phrase) (room : Nat) (f : Step) : Prop :=
  ∀ ⦃opens : List Opener⦄ ⦃ts : List Token⦄ ⦃r : Rejection⦄, f opens ts = .error r →
    Stopped p room opens ts r

variable {p q : Phrase} {room : Nat} {opens : List Opener} {ts : List Token} {r : Rejection}

/-- The beginning of a phrase that is a part of another one, behind some tokens and inside of some
brackets of that one. -/
theorem Stopped.inside (front : List Token) (more : List Opener)
    (h : Stopped p room (more ++ opens) ts r)
    (hb : ∀ {os missing seen}, Begins p os missing seen →
      Begins q (os ++ more) missing (front ++ seen)) :
    Stopped q (room + more.length) opens (front ++ ts) r := by
  obtain ⟨seen, os, missing, rfl, hs, hr⟩ := h
  refine ⟨front ++ seen, os ++ more, missing, (List.append_assoc ..).symm, hb hs, ?_⟩
  rw [List.length_append, List.append_assoc]
  exact hr.imp_left fun h => ⟨h.1, Nat.add_le_add_right h.2 _⟩

theorem Stopped.behind (front : List Token) (h : Stopped p room opens ts r)
    (hb : ∀ {os missing seen}, Begins p os missing seen → Begins q os missing (front ++ seen)) :
    Stopped q room opens (front ++ ts) r :=
  Stopped.inside front [] h fun hs => by simpa using hb hs

/-- A token behind a complete phrase is reported according to the brackets that are open there. -/
theorem stopped_of_rejectExtra (more : List Opener) {t : Token} {rest : List Token} {α : Type}
    (h : (rejectExtra opens t rest : Except Rejection α) = .error r)
    (ho : ∀ b, t.lexeme = .symbol (.closing b) → isOpen (more ++ opens) b = isOpen opens b)
    (hb : Begins p more false ts) : Stopped p room opens (ts ++ t :: rest) r := by
  unfold rejectExtra at h
  split at h
  · rename_i b ht
    have hob := ho b ht
    split at h
    · rename_i hopen
      obtain rfl := Except.error.inj h
      refine ⟨ts, more, false, rfl, hb, .inr (.extra fun b' ht' => ?_)⟩
      obtain rfl : b = b' := by simpa [ht] using ht'
      rw [hob, hopen]
    · rename_i hopen
      obtain rfl := Except.error.inj h
      exact ⟨ts, more, false, rfl, hb, .inr (.unmatched ht (by rw [hob]; simpa using hopen))⟩
  · rename_i ht
    obtain rfl := Except.error.inj h
    exact ⟨ts, more, false, rfl, hb, .inr (.extra fun b hb => absurd hb (ht b))⟩

/-! ## Operators -/

theorem chain_stops {level : Nat} {f : Step} (hs : Sound (.binary level) f)
    (hf : Stops (.binary level) room f) {bound seen : List Token} {left : Expr}
    (hl : Derives (.binary (level + 1)) seen left)
    (h : chain level f opens bound left ts = .error r) :
    Stopped (.binary (level + 1)) room opens (seen ++ ts) r := by
  induction bound generalizing seen ts left with
  | nil => cases h
  | cons b bound ih =>
    unfold chain at h
    split at h
    · cases h
    · rename_i op us ho
      obtain ⟨t, rfl, ht, rfl⟩ := binaryAt?_eq_some_iff.1 ho
      split at h
      · rename_i r' hr
        obtain rfl := Except.error.inj h
        rw [List.append_cons]
        exact (hf hr).behind (seen ++ [t]) fun hb => by simpa using Begins.binary hl ht hb
      · rename_i right vs hr
        obtain ⟨rs, rfl, hd⟩ := hs hr
        have := ih (hl.binary ht hd) h
        rwa [List.append_assoc, List.cons_append] at this

theorem binary_stops {f : Step} (hs : Sound (.unary UnaryOp.levels) f)
    (hf : Stops (.unary UnaryOp.levels) room f) :
    ∀ levels, Stops (.binary levels) room (binary f levels)
  | 0 => fun _ _ _ h => (hf h).behind [] .operand
  | level + 1 => by
    intro opens ts r h
    have ih := binary_stops hs hf level
    unfold binary at h
    split at h
    · rename_i r' hr
      obtain rfl := Except.error.inj h
      exact (ih hr).behind [] .tighter
    · rename_i left us hl
      obtain ⟨seen, rfl, hd⟩ := binary_sound hs level hl
      exact chain_stops (binary_sound hs level) ih (.tighter hd) h

theorem unary_stops {f : Step} (hf : Stops .primary room f) :
    ∀ levels, Stops (.unary levels) room (unary f levels)
  | 0 => fun _ _ _ h => (hf h).behind [] .primary
  | level + 1 => by
    intro opens ts r h
    have ih := unary_stops hf level
    unfold unary at h
    split at h
    · exact (ih h).behind [] .without
    · rename_i op us ho
      obtain ⟨t, rfl, ht, rfl⟩ := unaryAt?_eq_some_iff.1 ho
      split at h
      · rename_i r' hr
        obtain rfl := Except.error.inj h
        exact (ih hr).behind [t] (.unary ht)
      · cases h

/-! ## Operands -/

section
variable {inner : Step} (hs : Sound (.binary BinaryOp.levels) inner)
  (hi : Stops (.binary BinaryOp.levels) room inner)
include hs hi

/-- Inside of a group there is one bracket more to close, and one level less of room. -/
theorem enclosed_stops {o : Opener} (front : List Token)
    (h : enclosed inner o opens ts = .error r)
    (hb : ∀ {os missing seen}, Begins (.binary BinaryOp.levels) os missing seen →
      Begins .primary (os ++ [o]) missing (front ++ seen)) :
    Stopped .primary (room + 1) opens (front ++ ts) r := by
  unfold enclosed at h
  split at h
  · rename_i r' hr
    obtain rfl := Except.error.inj h
    exact Stopped.inside front [o] (hi hr) hb
  · rename_i e he
    obtain rfl := Except.error.inj h
    obtain ⟨read, rfl, hd⟩ := hs he
    refine ⟨front ++ read, [o], false, ?_, hb (.complete hd), .inr (.never rfl)⟩
    rw [List.append_assoc]
  · rename_i e c rest he
    obtain ⟨read, rfl, hd⟩ := hs he
    have hbegin : Begins .primary [o] false (front ++ read) := hb (.complete hd)
    have hextra (hc : ∀ b, c.lexeme = .symbol (.closing b) → b ≠ o.bracket)
        (h : (rejectExtra opens c rest : Except Rejection (Expr × List Token)) = .error r) :
        Stopped .primary (room + 1) opens (front ++ (read ++ c :: rest)) r := by
      rw [← List.append_assoc]
      refine stopped_of_rejectExtra [o] h (fun b ht => ?_) hbegin
      -- the bracket of the group is taken off already, but it is none that this token closes
      have hne : (o.bracket == b) = false := by simpa using (hc b ht).symm
      simp [isOpen, hne]
    split at h
    · rename_i b hc
      split at h
      · cases h
      · rename_i hne
        refine hextra (fun b' hc' => ?_) h
        obtain rfl : b = b' := by simpa [hc] using hc'
        exact hne
    · rename_i hc
      exact hextra (fun b hb => absurd hb (hc b)) h

theorem applied_stops {e : Expr} (seen : List Token) (hd : Derives .base seen e)
    (h : applied inner e opens ts = .error r) :
    Stopped .primary (room + 1) opens (seen ++ ts) r := by
  unfold applied at h
  split at h
  · rename_i name t rest
    split at h
    · rename_i ho
      split at h
      · rename_i hr
        obtain rfl := Except.error.inj h
        rw [List.append_cons]
        exact enclosed_stops hs hi (seen ++ [t]) hr fun hb => by
          simpa using Begins.applied hd ho nofun hb
      · cases h
    · rename_i ho
      split at h
      · rename_i hr
        obtain rfl := Except.error.inj h
        rw [List.append_cons]
        exact enclosed_stops hs hi (seen ++ [t]) hr fun hb => by
          simpa using Begins.applied hd ho nofun hb
      · cases h
    · cases h
  · cases h

theorem group_stops {b : Bracket} {t : Token} (ht : t.lexeme = .symbol (.opening b))
    (h : group inner ⟨b, t.start⟩ opens ts = .error r) :
    Stopped .primary (room + 1) opens (t :: ts) r := by
  unfold group at h
  split at h
  · cases h
  · split at h
    · rename_i hr
      obtain rfl := Except.error.inj h
      exact enclosed_stops hs hi [t] hr (.group ht)
    · rename_i e rest he
      obtain ⟨read, c, rfl, hc, hd⟩ := enclosed_sound hs he
      have := applied_stops hs hi _ (.group ht hd hc) h
      rwa [List.cons_append, List.append_assoc, List.singleton_append] at this

theorem primary_stops : Stops .primary (room + 1) (primary inner) := by
  intro opens ts r h
  -- a token that no operand starts with is not read
  have hunread {cause : Rejection.Cause} {ts : List Token}
      (h : (reject cause ts : Except Rejection (Expr × List Token)) = .error r)
      (hg : Gives opens true ⟨cause, ts⟩) : Stopped .primary (room + 1) opens ts r := by
    obtain rfl := Except.error.inj h
    exact ⟨[], [], true, rfl, .start, .inr hg⟩
  unfold primary at h
  split at h
  · exact hunread h .operand
  · rename_i t rest
    split at h
    · cases h
    · cases h
    · rename_i ht
      exact applied_stops hs hi [t] (.name ht) h
    · rename_i ht
      exact group_stops hs hi ht h
    · rename_i b ht
      split at h
      · rename_i hopen
        refine hunread h (.unexpected fun b' ht' => ?_)
        obtain rfl : b = b' := by simpa [ht] using ht'
        exact hopen
      · rename_i hopen
        exact hunread h (.unmatched ht (by simpa using hopen))
    · rename_i s ho hc ht
      split at h
      · cases h
      · refine hunread h (.unexpected fun b ht' => ?_)
        exact absurd (Lexeme.symbol.inj (ht.symm.trans ht')) (hc b)
    · rename_i ht
      exact hunread h (.unexpected fun b ht' => absurd ht' (ht _))

end

/-! ## Scripts -/

theorem expression_stops : ∀ depth, Stops (.binary BinaryOp.levels) depth (expression depth)
  | 0 => by
    intro opens ts r h
    obtain rfl := Except.error.inj h
    exact ⟨[], [], true, rfl, Begins.start.binary_of_primary _, .inl ⟨rfl, Nat.le_refl 0⟩⟩
  | depth + 1 =>
    binary_stops (unary_sound (primary_sound (expression_sound depth)) UnaryOp.levels)
      (unary_stops (primary_stops (expression_sound depth) (expression_stops depth)) UnaryOp.levels)
      BinaryOp.levels

theorem whole_stops {limit : Nat} (h : whole limit ts = .error r) :
    Stopped (.binary BinaryOp.levels) limit [] ts r := by
  unfold whole at h
  split at h
  · rename_i r' hr
    obtain rfl := Except.error.inj h
    exact expression_stops limit hr
  · cases h
  · rename_i e t rest he
    obtain ⟨read, rfl, hd⟩ := expression_sound limit he
    exact stopped_of_rejectExtra [] h (fun _ _ => rfl) (.complete hd)

/-- A script whose brackets are not too deep is given up behind the beginning of a script, for what
is open there. -/
theorem gives_of_whole {limit : Nat} (hn : nesting 0 ts < limit) (h : whole limit ts = .error r) :
    ∃ before os missing, ts = before ++ r.unread ∧
      Begins (.binary BinaryOp.levels) os missing before ∧ Gives os missing r := by
  obtain ⟨before, os, missing, rfl, hb, ⟨-, hroom⟩ | hg⟩ := whole_stops h
  · have := hb.length_le_nesting 0
    have := nesting_le_append 0 before r.unread
    omega
  · rw [List.append_nil] at hg
    exact ⟨before, os, missing, rfl, hb, hg⟩

namespace Gives

variable {missing : Bool} (scriptEnd : Nat)

theorem cause_ne_tooDeep (h : Gives opens missing r) : r.cause ≠ .tooDeep := by
  cases h <;> nofun

/-- What is given up before a token is placed at the token. -/
theorem position_of_cons {t : Token} {rest : List Token} (h : Gives opens missing r)
    (hu : r.unread = t :: rest) : r.position scriptEnd = some t.start := by
  cases h with
  | operand | never _ => cases hu
  | unmatched _ _ | unexpected _ | extra _ =>
    obtain ⟨rfl, -⟩ := List.cons.inj hu
    rfl

/-- What is given up at the end for a missing operand is placed at the end. -/
theorem position_of_nil (h : Gives opens true r) (hu : r.unread = []) :
    r.position scriptEnd = some scriptEnd := by
  cases h with
  | operand => rfl
  | unmatched _ _ | unexpected _ => cases hu

/-- What is given up at the end behind an operand is an open bracket, the innermost one. -/
theorem never_of_nil (h : Gives opens false r) (hu : r.unread = []) :
    ∃ o outer, opens = o :: outer ∧ r = ⟨.neverClosed o, []⟩ := by
  cases h with
  | @never o outer ho => exact ⟨o, outer, ho, rfl⟩
  | unmatched _ _ | extra _ => cases hu

end Gives

end Parse

/-! ## Places -/

theorem Rejection.position_eq_none_iff (r : Rejection) (scriptEnd : Nat) :
    r.position scriptEnd = none ↔ r.cause = .tooDeep := by
  unfold position
  split <;> simp_all

/-- The place of a rejection is the start of a token or the end of the script. -/
theorem Parse.Stopped.position_le {p : Phrase} {room scriptEnd bound n : Nat} {ts : List Token}
    {r : Rejection} (h : Stopped p room [] ts r) (hts : ∀ t ∈ ts, t.start ≤ bound)
    (he : scriptEnd ≤ bound) (hn : r.position scriptEnd = some n) : n ≤ bound := by
  obtain ⟨seen, os, missing, rfl, hb, ⟨hc, -⟩ | hg⟩ := h
  · rw [(r.position_eq_none_iff scriptEnd).2 hc] at hn
    cases hn
  · cases hg with
    | operand =>
      obtain rfl := Option.some.inj hn
      exact he
    | @never o outer ho =>
      rw [List.append_nil] at ho
      obtain ⟨t, ht, hst⟩ := hb.exists_of_mem o (by simp [ho])
      rw [← Option.some.inj hn, ← hst]
      exact hts t (List.mem_append_left _ ht)
    | unmatched _ _ | unexpected _ | extra _ =>
      obtain rfl := Option.some.inj hn
      exact hts _ (List.mem_append_right _ List.mem_cons_self)

/-- A parse error has a place in the text or at its end, unless it is about nesting. -/
theorem position_of_error {limit : Nat} {source : String} {error : ParseError}
    (h : Expr.ofTokensWithin limit (Token.scan source) = .error error) :
    (error.position = none ↔ error.cause = .tooDeep) ∧
      ∀ n, error.position = some n → n ≤ source.length := by
  unfold Expr.ofTokensWithin at h
  split at h
  · cases h
  · rename_i r hr
    obtain rfl := Except.error.inj h
    refine ⟨r.position_eq_none_iff _, fun n hn => ?_⟩
    refine (Parse.whole_stops hr).position_le (fun t ht => ?_) (Token.endOf_scan_le source) hn
    exact Nat.le_trans (Nat.le_add_right _ _)
      (Token.stop_le_of_mem_scan (List.mem_filter.1 ht).1)

end Scriptlet
