import Scriptlet.Proofs.ParseComplete

/-!
# Phrases in front of other tokens

`Carries levels f`: what the parser `f` reads it also reads where the same lexemes stand elsewhere
and more tokens follow, unless it came to the end of its tokens and the phrase goes on into those
that follow. Other than `Reads` this speaks of a parser that has read something, whatever its limit
is, and not of what is derived.

* `whole_of_sameText`: a script is parsed alike wherever its lexemes stand.
* `whole_joined`: of two scripts with a semicolon between them, the second one goes on with the
  sequence of the first one.
-/

namespace Scriptlet

/-- The tokens have the same lexemes, wherever they stand. -/
def SameText (ts us : List Token) : Prop := ts.map (·.lexeme) = us.map (·.lexeme)

namespace SameText

theorem refl (ts : List Token) : SameText ts ts := rfl

theorem length_eq {ts us : List Token} (h : SameText ts us) : ts.length = us.length := by
  simpa using congrArg List.length h

theorem nil_iff {ts : List Token} : SameText ts [] ↔ ts = [] := List.map_eq_nil_iff

theorem cons_iff {t : Token} {ts us : List Token} :
    SameText us (t :: ts) ↔ ∃ t' ts', us = t' :: ts' ∧ t'.lexeme = t.lexeme ∧ SameText ts' ts :=
  List.map_eq_cons_iff

end SameText

namespace Parse

/-- What the parser reads it also reads from the same lexemes in front of other tokens. -/
def Carries (levels : Nat) (f : Step) : Prop :=
  ∀ ⦃opens : List Opener⦄ ⦃ts : List Token⦄ ⦃e : Expr⦄ ⦃rest : List Token⦄,
    f opens ts = .ok (e, rest) → ∀ (outer : List Opener) (us : List Token) ⦃ts'⦄, SameText ts' ts →
      (rest = [] → Ends levels us) →
      ∃ rest', SameText rest' rest ∧ f outer (ts' ++ us) = .ok (e, rest' ++ us)

theorem Sound.length_le {p : Phrase} {f : Step} (hf : Sound p f) {opens : List Opener}
    {ts rest : List Token} {e : Expr} (h : f opens ts = .ok (e, rest)) :
    rest.length ≤ ts.length := by
  obtain ⟨read, rfl, -⟩ := hf h
  simp

theorem Sound.ne_nil {p : Phrase} {f : Step} (hf : Sound p f) {opens : List Opener}
    {ts rest : List Token} {e : Expr} (h : f opens ts = .ok (e, rest)) : ts ≠ [] := by
  obtain ⟨read, rfl, hd⟩ := hf h
  obtain ⟨t, us, rfl, -⟩ := hd.first
  simp

/-! ## Operators -/

/-- Which operator comes next depends on the next lexeme only. -/
theorem operatorAt?_congr {α : Type} (ofSymbol? : Symbol → Option α) (levelOf : α → Nat)
    (level : Nat) {t t' : Token} (ht : t'.lexeme = t.lexeme) (ts ts' : List Token) :
    operatorAt? ofSymbol? levelOf level (t' :: ts') =
      (operatorAt? ofSymbol? levelOf level (t :: ts)).map fun q => (q.1, ts') := by
  simp only [operatorAt?, ht]
  split
  · split
    · split <;> rfl
    · rfl
  · rfl

theorem binaryAt?_append_of_none {level : Nat} {ts ts' : List Token} (us : List Token)
    (h : binaryAt? level ts = none) (hs : SameText ts' ts) (hts : ts ≠ []) :
    binaryAt? level (ts' ++ us) = none := by
  obtain ⟨t, rest, rfl⟩ := List.exists_cons_of_ne_nil hts
  obtain ⟨t', rest', rfl, ht', -⟩ := SameText.cons_iff.1 hs
  rw [binaryAt?] at h
  rw [List.cons_append, binaryAt?, operatorAt?_congr _ _ _ ht' rest, h, Option.map_none]

theorem chain_nil (level : Nat) (f : Step) (opens : List Opener) (bound : List Token)
    (left : Expr) : chain level f opens bound left [] = .ok (left, []) :=
  chain_of_ends (show Ends (level + 1) [] from trivial) left

/-- In front of other tokens a run of operators is read as before, and then goes on with them. -/
theorem chain_carries {level : Nat} {f : Step} (hs : Sound (.binary level) f)
    (hf : Carries level f) {opens : List Opener} {bound : List Token} :
    ∀ {left e : Expr} {ts rest : List Token}, ts.length ≤ bound.length →
      chain level f opens bound left ts = .ok (e, rest) →
      ∀ (outer : List Opener) {more ts' us : List Token}, SameText ts' ts →
        (ts' ++ us).length ≤ more.length → (rest = [] → Ends level us) →
        ∃ rest' more', SameText rest' rest ∧ (rest' ++ us).length ≤ more'.length ∧
          chain level f outer more left (ts' ++ us) =
            chain level f outer more' e (rest' ++ us) ∧
          (rest ≠ [] → binaryAt? level (rest' ++ us) = none) := by
  induction bound with
  | nil =>
    intro left e ts rest hlen h outer more ts' us hts hmore _
    obtain rfl : ts = [] := List.eq_nil_of_length_eq_zero (Nat.le_zero.1 hlen)
    obtain ⟨rfl, rfl⟩ := Prod.mk.inj (Except.ok.inj h)
    exact ⟨ts', more, hts, hmore, rfl, fun h => absurd rfl h⟩
  | cons b bound ih =>
    intro left e ts rest hlen h outer more ts' us hts hmore hus
    unfold chain at h
    split at h
    · rename_i hn
      obtain ⟨rfl, rfl⟩ := Prod.mk.inj (Except.ok.inj h)
      exact ⟨ts', more, hts, hmore, rfl, binaryAt?_append_of_none us hn hts⟩
    · rename_i op rest₁ ho
      obtain ⟨t, rfl, ht, hl⟩ := binaryAt?_eq_some_iff.1 ho
      obtain ⟨t', rest₁', rfl, ht', hr₁⟩ := SameText.cons_iff.1 hts
      split at h
      · cases h
      · rename_i right rest₂ hr
        have hle := hs.length_le hr
        have hus₂ : rest₂ = [] → Ends level us := by
          rintro rfl
          rw [chain_nil] at h
          exact hus (Prod.mk.inj (Except.ok.inj h)).2.symm
        obtain ⟨rest₂', hr₂, hf₂⟩ := hf hr outer us hr₁ hus₂
        obtain ⟨b', more, rfl⟩ := List.exists_cons_of_length_pos
          (show 0 < more.length by simp at hmore; omega)
        have hlen' : rest₂.length ≤ bound.length := by simp at hlen; omega
        have hmore' : (rest₂' ++ us).length ≤ more.length := by
          have := hr₁.length_eq
          have := hr₂.length_eq
          simp at hmore ⊢
          omega
        obtain ⟨rest', more', hrest, hm, hc, hn⟩ := ih hlen' h outer hr₂ hmore' hus
        refine ⟨rest', more', hrest, hm, ?_, hn⟩
        have ho' : binaryAt? level (t' :: rest₁' ++ us) = some (op, rest₁' ++ us) :=
          binaryAt?_eq_some_iff.2 ⟨t', rfl, ht'.trans ht, hl⟩
        rw [chain, ho']
        simp only [hf₂, hc]

theorem binary_carries {f : Step} (hs : Sound (.unary UnaryOp.levels) f) (hf : Carries 0 f) :
    ∀ levels, Carries levels (binary f levels)
  | 0 => hf
  | level + 1 => by
    intro opens ts e rest h outer us ts' hts hus
    have ih := binary_carries hs hf level
    unfold binary at h ⊢
    split at h
    · cases h
    · rename_i left rest₁ hl
      have hus₁ : rest₁ = [] → Ends level us := by
        rintro rfl
        rw [chain_nil] at h
        exact (hus (Prod.mk.inj (Except.ok.inj h)).2.symm).mono (Nat.le_succ level)
      obtain ⟨rest₁', hr₁, hl'⟩ := ih hl outer us hts hus₁
      obtain ⟨rest', more', hr, hm, hc, hn⟩ := chain_carries (binary_sound hs level) ih
        (Nat.le_refl _) h outer hr₁ (Nat.le_refl _) fun h => (hus h).mono (Nat.le_succ level)
      refine ⟨rest', hr, ?_⟩
      simp only [hl', hc]
      by_cases hrest : rest = []
      · subst hrest
        obtain rfl := SameText.nil_iff.1 hr
        exact chain_of_ends (hus rfl) e
      · cases more' with
        | nil => rfl
        | cons b more' => rw [chain, hn hrest]

theorem unary_carries {f : Step} (hs : Sound .primary f) (hf : Carries 0 f) :
    ∀ levels, Carries 0 (unary f levels)
  | 0 => hf
  | level + 1 => by
    intro opens ts e rest h outer us ts' hts hus
    have ih := unary_carries hs hf level
    obtain ⟨t, ts, rfl⟩ := List.exists_cons_of_ne_nil ((unary_sound hs (level + 1)).ne_nil h)
    obtain ⟨t', ts', rfl, ht', hts⟩ := SameText.cons_iff.1 hts
    unfold unary at h ⊢
    split at h
    · rename_i hn
      obtain ⟨rest', hr, hf'⟩ := ih h outer us (SameText.cons_iff.2 ⟨t', ts', rfl, ht', hts⟩) hus
      refine ⟨rest', hr, ?_⟩
      rw [unaryAt?] at hn
      rw [List.cons_append, unaryAt?, operatorAt?_congr _ _ _ ht' ts, hn]
      exact hf'
    · rename_i op rest₁ ho
      obtain ⟨_, hcons, -, -⟩ := unaryAt?_eq_some_iff.1 ho
      obtain ⟨rfl, rfl⟩ := List.cons.inj hcons
      split at h
      · cases h
      · rename_i e' rest₂ he
        obtain ⟨rfl, rfl⟩ := Prod.mk.inj (Except.ok.inj h)
        obtain ⟨rest', hr, hf'⟩ := ih he outer us hts hus
        refine ⟨rest', hr, ?_⟩
        rw [unaryAt?] at ho
        rw [List.cons_append, unaryAt?, operatorAt?_congr _ _ _ ht' ts, ho]
        simp only [Option.map_some, hf']

/-! ## Operands -/

theorem closingSquare?_congr {t t' : Token} (ht : t'.lexeme = t.lexeme) (ts ts' : List Token) :
    closingSquare? (t' :: ts') = (closingSquare? (t :: ts)).map fun _ => ts' := by
  simp only [closingSquare?, ht]
  split <;> rfl

section
variable {inner : Step} (hs : Sound (.binary BinaryOp.levels) inner)
  (hi : Carries BinaryOp.levels inner)
include hi

theorem enclosed_carries {b : Bracket} {n : Nat} {opens : List Opener} {ts rest : List Token}
    {e : Expr} (h : enclosed inner ⟨b, n⟩ opens ts = .ok (e, rest)) (m : Nat)
    (outer : List Opener) {ts' : List Token} (us : List Token) (hts : SameText ts' ts) :
    ∃ rest', SameText rest' rest ∧
      enclosed inner ⟨b, m⟩ outer (ts' ++ us) = .ok (e, rest' ++ us) := by
  unfold enclosed at h
  split at h
  · cases h
  · cases h
  · rename_i e' c rest₁ he
    split at h
    · rename_i b' hc
      split at h
      · rename_i hb
        obtain ⟨rfl, rfl⟩ := Prod.mk.inj (Except.ok.inj h)
        obtain ⟨rest', hr, hf'⟩ := hi he (⟨b, m⟩ :: outer) us hts nofun
        obtain ⟨c', rest', rfl, hc', hr⟩ := SameText.cons_iff.1 hr
        refine ⟨rest', hr, ?_⟩
        simp only [enclosed, hf', List.cons_append, hc'.trans hc, hb, if_true]
      · exact absurd h (rejectExtra_ne_ok _ _ _ _)
    · exact absurd h (rejectExtra_ne_ok _ _ _ _)

theorem applied_carries {e e' : Expr} {opens : List Opener} {ts rest : List Token}
    (h : applied inner e opens ts = .ok (e', rest)) (outer : List Opener) {ts' us : List Token}
    (hts : SameText ts' ts) (hus : rest = [] → Ends 0 us) :
    ∃ rest', SameText rest' rest ∧ applied inner e outer (ts' ++ us) = .ok (e', rest' ++ us) := by
  rcases ts with _ | ⟨t, ts⟩
  · obtain rfl := SameText.nil_iff.1 hts
    rw [applied_of_ends (show Ends 0 [] from trivial)] at h
    obtain ⟨rfl, rfl⟩ := Prod.mk.inj (Except.ok.inj h)
    exact ⟨[], rfl, applied_of_ends (hus rfl) e outer⟩
  obtain ⟨t', ts', rfl, ht', hts⟩ := SameText.cons_iff.1 hts
  -- Where nothing is applied, nothing is applied in front of other tokens either.
  have plain (he : ∀ o us, applied inner e o (t :: us) = .ok (e, t :: us))
      (he' : ∀ o us, applied inner e o (t' :: us) = .ok (e, t' :: us)) :
      ∃ rest', SameText rest' rest ∧
        applied inner e outer (t' :: ts' ++ us) = .ok (e', rest' ++ us) := by
    rw [he] at h
    obtain ⟨rfl, rfl⟩ := Prod.mk.inj (Except.ok.inj h)
    exact ⟨t' :: ts', SameText.cons_iff.2 ⟨t', ts', rfl, ht', hts⟩, he' outer (ts' ++ us)⟩
  cases e with
  | ident name =>
    by_cases ho : t.lexeme = .symbol (.opening .round) ∨ t.lexeme = .symbol (.opening .square)
    · rcases ho with ho | ho
      all_goals
        simp only [applied, ho] at h
        split at h
        · cases h
        · rename_i a rest₁ ha
          obtain ⟨rfl, rfl⟩ := Prod.mk.inj (Except.ok.inj h)
          obtain ⟨rest', hrest, hf'⟩ := enclosed_carries hi ha t'.start outer us hts
          exact ⟨rest', hrest, by simp only [List.cons_append, applied, ht'.trans ho, hf']⟩
    obtain ⟨hr, hq⟩ := not_or.1 ho
    have ends {u : Token} (hu : u.lexeme = t.lexeme) (us : List Token) : Ends 0 (u :: us) := by
      refine ⟨fun b hb => ?_, fun _ _ => Nat.zero_le _⟩
      cases b with
      | round => exact absurd (hu.symm.trans hb) hr
      | square => exact absurd (hu.symm.trans hb) hq
      | curly => rfl
    exact plain (fun o us => applied_of_ends (ends rfl us) _ o) fun o us =>
      applied_of_ends (ends ht' us) _ o
  | _ => exact plain (fun _ _ => rfl) fun _ _ => rfl

include hs

theorem group_carries {b : Bracket} {n : Nat} {opens : List Opener} {ts rest : List Token}
    {e : Expr} (h : group inner ⟨b, n⟩ opens ts = .ok (e, rest)) (m : Nat) (outer : List Opener)
    {ts' us : List Token} (hts : SameText ts' ts) (hus : rest = [] → Ends 0 us) :
    ∃ rest', SameText rest' rest ∧
      group inner ⟨b, m⟩ outer (ts' ++ us) = .ok (e, rest' ++ us) := by
  unfold group at h
  dsimp only at h
  split at h
  · rename_i rest₁ hc
    obtain ⟨rfl, rfl⟩ := Prod.mk.inj (Except.ok.inj h)
    split at hc
    · rename_i hb
      obtain ⟨c, rfl, hl⟩ := closingSquare?_eq_some_iff.1 hc
      obtain ⟨c', rest', rfl, hc', hr⟩ := SameText.cons_iff.1 hts
      refine ⟨rest', hr, ?_⟩
      simp only [group, hb, if_true, List.cons_append, closingSquare?, hc'.trans hl]
    · cases hc
  · rename_i hn
    split at h
    · cases h
    · rename_i e₁ rest₁ he
      obtain ⟨rest₁', hr₁, he'⟩ := enclosed_carries hi he m outer us hts
      obtain ⟨rest', hr, ha⟩ := applied_carries hi h outer hr₁ hus
      refine ⟨rest', hr, ?_⟩
      -- A group that is read has a token behind its opening bracket.
      obtain ⟨t, ts₁, rfl⟩ : ∃ t ts₁, ts = t :: ts₁ := by
        obtain ⟨read, c, rfl, -, -⟩ := enclosed_sound hs he
        exact List.exists_cons_of_ne_nil (by simp)
      obtain ⟨t', ts', rfl, ht', hts⟩ := SameText.cons_iff.1 hts
      have hn' : (if b = .square then closingSquare? (t' :: ts' ++ us) else none) = none := by
        split at hn
        · rename_i hb
          rw [if_pos hb, List.cons_append, closingSquare?_congr ht' ts₁, hn, Option.map_none]
        · rename_i hb
          rw [if_neg hb]
      simp only [group, hn', he', ha]

theorem primary_carries : Carries 0 (primary inner) := by
  intro opens ts e rest h outer us ts' hts hus
  rcases ts with _ | ⟨t, ts⟩
  · cases h
  obtain ⟨t', ts', rfl, ht', hts⟩ := SameText.cons_iff.1 hts
  unfold primary at h
  dsimp only at h
  rw [List.cons_append]
  split at h
  · rename_i ht
    obtain ⟨rfl, rfl⟩ := Prod.mk.inj (Except.ok.inj h)
    exact ⟨ts', hts, by simp only [primary, ht'.trans ht]⟩
  · rename_i ht
    obtain ⟨rfl, rfl⟩ := Prod.mk.inj (Except.ok.inj h)
    exact ⟨ts', hts, by simp only [primary, ht'.trans ht]⟩
  · rename_i ht
    obtain ⟨rest', hr, ha⟩ := applied_carries hi h outer hts hus
    exact ⟨rest', hr, by simp only [primary, ht'.trans ht, ha]⟩
  · rename_i ht
    obtain ⟨rest', hr, hg⟩ := group_carries hs hi h t'.start outer hts hus
    exact ⟨rest', hr, by simp only [primary, ht'.trans ht, hg]⟩
  · split at h <;> cases h
  · rename_i s ho hc ht
    split at h
    · rename_i r hr
      obtain ⟨rfl, rfl⟩ := Prod.mk.inj (Except.ok.inj h)
      have hs' := Root.ofSymbol?_eq_some_iff.1 hr
      refine ⟨ts', hts, ?_⟩
      cases r <;> simp only [primary, ht'.trans ht, hs', Root.symbol, Root.ofSymbol?]
    · cases h
  · cases h

theorem levels_carries (n : Nat) : Carries n (levels inner n) :=
  binary_carries (unary_sound (primary_sound hs) UnaryOp.levels)
    (unary_carries (primary_sound hs) (primary_carries hs hi) UnaryOp.levels) n

end

theorem expression_carries : ∀ depth, Carries BinaryOp.levels (expression depth)
  | 0 => fun _ _ _ _ h => by cases h
  | depth + 1 =>
    levels_carries (expression_sound depth) (expression_carries depth) BinaryOp.levels

theorem whole_eq_ok_iff {limit : Nat} {ts : List Token} {e : Expr} :
    whole limit ts = .ok e ↔ expression limit [] ts = .ok (e, []) := by
  constructor
  · intro h
    unfold whole at h
    split at h
    · cases h
    · rename_i e' he
      rw [he, Except.ok.inj h]
    · exact absurd h (rejectExtra_ne_ok _ _ _ _)
  · intro h
    rw [whole, h]

/-- A script is parsed alike wherever its lexemes stand. -/
theorem whole_of_sameText {limit : Nat} {ts ts' : List Token} {e : Expr}
    (h : whole limit ts = .ok e) (hts : SameText ts' ts) : whole limit ts' = .ok e := by
  rw [whole_eq_ok_iff] at h ⊢
  obtain ⟨rest', hr, hf⟩ := expression_carries limit h [] [] hts fun _ => trivial
  obtain rfl := SameText.nil_iff.1 hr
  rwa [List.append_nil] at hf

end Parse

/-! ## Scripts behind one another -/

/-- The tree `c` is the sequence of the statements of `a` and those of `b`, as one of them is nested
in the other when they are read one behind the other. -/
inductive Joined (a : Expr) : Expr → Expr → Prop
  | statement (b : Expr) : Joined a b (.binary .sequence a b)
  | sequence {l c : Expr} (r : Expr) :
      Joined a l c → Joined a (.binary .sequence l r) (.binary .sequence c r)

namespace Parse

theorem eq_sequence_of_level {op : BinaryOp} (h : op.level = 7) : op = .sequence := by
  cases op with
  | operator op =>
    cases op with
    | arithmetic op => cases op <;> cases h
    | comparison op => cases h
  | sequence => rfl
  | _ => cases h

/-- A chain of statements goes on behind another script as behind its own first statement. -/
theorem chain_joined {f : Step} {a : Expr} {opens : List Opener} {bound : List Token} :
    ∀ {left left' e : Expr} {ts rest : List Token}, Joined a left left' →
      chain 7 f opens bound left ts = .ok (e, rest) →
      ∃ c, Joined a e c ∧ chain 7 f opens bound left' ts = .ok (c, rest) := by
  induction bound with
  | nil =>
    intro left left' e ts rest hj h
    obtain ⟨rfl, rfl⟩ := Prod.mk.inj (Except.ok.inj h)
    exact ⟨left', hj, rfl⟩
  | cons b bound ih =>
    intro left left' e ts rest hj h
    unfold chain at h
    split at h
    · rename_i hn
      obtain ⟨rfl, rfl⟩ := Prod.mk.inj (Except.ok.inj h)
      exact ⟨left', hj, by rw [chain, hn]⟩
    · rename_i op rest₁ ho
      obtain ⟨-, -, -, hl⟩ := binaryAt?_eq_some_iff.1 ho
      obtain rfl := eq_sequence_of_level hl
      split at h
      · cases h
      · rename_i right rest₂ hr
        obtain ⟨c, hc, hch⟩ := ih (.sequence right hj) h
        refine ⟨c, hc, ?_⟩
        rw [chain, ho]
        simp only [hr, hch]

/-- Two scripts with a semicolon between them are a script, whose statements are theirs. -/
theorem whole_joined {limit : Nat} {as bs : List Token} {a b : Expr} {t : Token}
    (ha : whole limit as = .ok a) (hb : whole limit bs = .ok b)
    (ht : t.lexeme = .symbol .semicolon) :
    ∃ c, whole limit (as ++ t :: bs) = .ok c ∧ Joined a b c := by
  rw [whole_eq_ok_iff] at ha hb
  cases limit with
  | zero => cases ha
  | succ depth =>
    have hs : Sound (.binary 7) (levels (expression depth) 7) :=
      binary_sound (unary_sound (primary_sound (expression_sound depth)) UnaryOp.levels) 7
    have hf := levels_carries (expression_sound depth) (expression_carries depth) 7
    have step (ts : List Token) :
        expression (depth + 1) [] ts = levels (expression depth) (7 + 1) [] ts := rfl
    have hends : Ends BinaryOp.sequence.level (t :: bs) := ends_of_operator ht bs
    rw [step, levels, binary] at ha hb
    dsimp only at ha hb
    split at ha
    · cases ha
    rename_i left rest hl
    split at hb
    · cases hb
    rename_i left₂ rest₂ hl₂
    -- the first script is read as before, and then its chain goes on with the second one
    obtain ⟨rest', hr, hl'⟩ := hf hl [] (t :: bs) (.refl as) fun _ => hends
    obtain ⟨rest'', more, hr'', hm, hc, -⟩ :=
      chain_carries hs hf (Nat.le_refl _) ha [] hr (Nat.le_refl _) fun _ => hends
    obtain rfl := SameText.nil_iff.1 hr''
    obtain ⟨b', more, rfl⟩ := List.exists_cons_of_length_pos
      (show 0 < more.length by simp at hm; omega)
    have hlen : (rest₂ ++ []).length ≤ more.length := by
      have := hs.length_le hl₂
      simp at hm ⊢
      omega
    obtain ⟨rest₃, more₃, hr₃, -, hc₂, -⟩ :=
      chain_carries hs hf (Nat.le_refl _) hb [] (.refl rest₂) hlen fun _ => trivial
    obtain rfl := SameText.nil_iff.1 hr₃
    rw [List.append_nil, List.append_nil, chain_nil] at hc₂
    obtain ⟨c, hj, hch⟩ := chain_joined (.statement left₂) hc₂
    refine ⟨c, whole_eq_ok_iff.2 ?_, hj⟩
    have ho : binaryAt? 7 (t :: bs) = some (.sequence, bs) :=
      binaryAt?_eq_some_iff.2 ⟨t, rfl, ht, rfl⟩
    rw [step, levels, binary]
    simp only [hl', hc, List.nil_append]
    rw [chain, ho]
    simp only [hl₂, hch]

end Parse

end Scriptlet
