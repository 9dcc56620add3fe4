import Scriptlet.Proofs.Bits
import Scriptlet.Proofs.ParseSound
import Scriptlet.Proofs.Scan

/-!
# The trees of scripts

`Expr.WellFormed literal e`: every node of the tree is one that a script can have, every name in it
is the text of a name, and every number is in the set `literal`. A tree that the parser returns is
well formed, since its names and numbers are those of the tokens (`wellFormed_of_ofTokensWithin`).
Its numbers are not negative and not NaN, but one with too many digits is infinite.
-/

namespace Scriptlet

/-- A letter and word characters behind it. -/
def Text.isName (s : String) : Bool :=
  match s.toList with
  | [] => false
  | c :: cs => isLetter c && cs.all isWord

theorem Text.exists_of_isName {name : String} (h : isName name = true) :
    ∃ c cs, name.toList = c :: cs ∧ isLetter c = true ∧ ∀ d ∈ cs, isWord d = true := by
  unfold isName at h
  split at h
  · cases h
  · rename_i c cs hcs
    obtain ⟨hl, hw⟩ := (Bool.and_eq_true _ _).mp h
    exact ⟨c, cs, hcs, hl, List.all_eq_true.1 hw⟩

namespace Double

/-- The sign bit is clear, and the double is finite or infinite. -/
def IsUnsigned (x : Float) : Prop := isNegative x = false ∧ code x ≤ infinityCode

/-- The sign bit is clear, and the double is finite. -/
def IsFiniteUnsigned (x : Float) : Prop := isNegative x = false ∧ code x < infinityCode

end Double

/-- The tree has the nodes of a script, names for its names, and numbers in a set. -/
def Expr.WellFormed (literal : Float → Prop) : Expr → Prop
  | number x => literal x
  | text _ => True
  | ident name => Text.isName name = true
  | root _ => True
  | unary _ e => e.WellFormed literal
  | binary _ l r => l.WellFormed literal ∧ r.WellFormed literal
  | element name index => Text.isName name = true ∧ index.WellFormed literal
  | call name argument => Text.isName name = true ∧ argument.WellFormed literal
  | strangeUnary _ _ => False
  | strangeBinary _ _ _ => False
  | strange _ => False

/-! ## Lexemes -/

namespace Double

theorem nearestCode_le (num den : Nat) : nearestCode num den ≤ infinityCode := Nat.min_le_right _ _

theorem Decimal.code_le (d : Decimal) : d.code ≤ infinityCode := by
  unfold Decimal.code
  split
  · exact Nat.zero_le _
  split
  · exact Nat.le_refl _
  split
  · exact Nat.zero_le _
  split
  · exact nearestCode_le _ _
  · exact nearestCode_le _ _

theorem isUnsigned_ofCode {k : Nat} (h : k ≤ infinityCode) : IsUnsigned (ofCode false k) := by
  rw [IsUnsigned, isNegative_ofCode false h, code_ofCode false h]
  exact ⟨rfl, h⟩

end Double

namespace Lexeme

/-- A name is one by its characters, and a number is not negative and no NaN. -/
def WellFormed : Lexeme → Prop
  | name t => Text.isName t = true
  | number _ x => Double.IsUnsigned x
  | _ => True

theorem wellFormed_next (c : Char) (cs : List Char) : (next c cs).1.WellFormed := by
  unfold next
  split
  · trivial
  split
  · split <;> trivial
  split
  · trivial
  split
  · rename_i hl
    have hw : (cs.takeWhile Text.isWord).all Text.isWord = true := by simp
    simp [WellFormed, Text.isName, hl, hw]
  split
  · exact Double.isUnsigned_ofCode (Double.Decimal.code_le _)
  split <;> trivial

end Lexeme

theorem Token.wellFormed_of_mem_significant {source : String} {t : Token}
    (h : t ∈ significant (scan source)) : t.lexeme.WellFormed := by
  have hm : t.lexeme ∈ lexemes source.toList source.toList := by
    rw [← map_lexeme_place 0 (lexemes source.toList source.toList)]
    exact List.mem_map_of_mem (List.mem_filter.1 h).1
  exact forall_mem_lexemes Lexeme.wellFormed_next _ hm

/-! ## Trees -/

theorem Derives.wellFormed {p : Phrase} {ts : List Token} {e : Expr} (h : Derives p ts e)
    (hts : ∀ t ∈ ts, t.lexeme.WellFormed) : e.WellFormed Double.IsUnsigned := by
  induction h with
  | operand _ ih | tighter _ ih | primary _ ih | without _ ih | base _ ih => exact ih hts
  | binary _ _ _ ihl ihr =>
    obtain ⟨hl, hr⟩ := List.forall_mem_append.1 hts
    exact ⟨ihl hl, ihr (List.forall_mem_cons.1 hr).2⟩
  | unary _ _ ih => exact ih (List.forall_mem_cons.1 hts).2
  | number ht =>
    have hw := hts _ (List.mem_singleton_self _)
    rwa [ht] at hw
  | string _ | root _ | emptyArray _ _ => trivial
  | call _ _ _ _ ihf iht | element _ _ _ _ ihf iht =>
    obtain ⟨hf, hr⟩ := List.forall_mem_append.1 hts
    exact ⟨ihf hf, iht (List.forall_mem_append.1 (List.forall_mem_cons.1 hr).2).1⟩
  | name ht =>
    have hw := hts _ (List.mem_singleton_self _)
    rwa [ht] at hw
  | group _ _ _ ih => exact ih (List.forall_mem_append.1 (List.forall_mem_cons.1 hts).2).1

/-- The tree of a text is well formed. Its numbers may be infinite. -/
theorem wellFormed_of_ofTokensWithin {limit : Nat} {source : String} {e : Expr}
    (h : Expr.ofTokensWithin limit (Token.scan source) = .ok e) :
    e.WellFormed Double.IsUnsigned := by
  unfold Expr.ofTokensWithin at h
  split at h
  · rename_i e' hw
    obtain rfl := Except.ok.inj h
    exact (Parse.derives_of_whole hw).wellFormed fun t => Token.wellFormed_of_mem_significant
  · cases h

end Scriptlet
