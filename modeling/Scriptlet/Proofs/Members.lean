import Scriptlet.Proofs.Assigned
import Scriptlet.Proofs.Render

/-!
# Members and elements

An entry of the dictionary that a name is bound to can be written as a member, `d.k`, or as an
element, `d["k"]`. A member evaluates the name and then has its key; an element looks the name up
and then evaluates its index. Neither of these steps does anything to the session, so where they
come to a dictionary the two read alike. An assignment evaluates its right side before either of
them, so it makes no difference what the right side does (`place_member`).

* `member_eq_element`: the two forms read the same entry and write the same entry.
-/

namespace Scriptlet

/-- The member `d.k` of what a name is bound to. -/
def Expr.namedMember (d k : String) : Expr := .binary .member (.ident d) (.ident k)

/-- The element `d["k"]` of what a name is bound to. -/
def Expr.textElement (d k : String) : Expr := .element d (.text k)

/-! ## Scripts -/

namespace Token

/-- A name ends in front of a character that is in no name. -/
theorem content_name_append {name : String} (h : Text.isName name = true) {c : Char}
    (hc : Text.isWord c = false) (cs : List Char) :
    content (name.toList ++ c :: cs) = .name name :: content (c :: cs) := by
  obtain ⟨a, as, ha, hl, hw⟩ := Text.exists_of_isName h
  have hnext : Lexeme.next a (as ++ c :: cs) = (.name name, c :: cs) := by
    rw [Lexeme.next_letter hl, List.takeWhile_append_of_pos hw, List.dropWhile_append_of_pos hw,
      List.takeWhile_cons_of_neg (by simp [hc]), List.dropWhile_cons_of_neg (by simp [hc]),
      List.append_nil, ← ha, String.ofList_toList]
  rw [ha, List.cons_append, content_cons, hnext]
  rfl

theorem content_name {name : String} (h : Text.isName name = true) :
    content name.toList = [.name name] :=
  content_text rfl (Lexeme.isWhole_name ' ' h).read

theorem content_member {d k : String} (hd : Text.isName d = true) (hk : Text.isName k = true) :
    content (d ++ "." ++ k).toList = [.name d, .symbol .dot, .name k] := by
  have hchars : (d ++ "." ++ k).toList = d.toList ++ '.' :: k.toList := by simp
  have hread : Symbol.read? '.' k.toList = some (.dot, k.toList) := by
    cases k.toList <;> rfl
  have hnext : Lexeme.next '.' k.toList = (.symbol .dot, k.toList) := by
    rw [Lexeme.next, if_neg (by decide), if_neg (by decide), if_neg (by decide),
      if_neg (by decide), if_neg (by decide), hread]
  rw [hchars, content_name_append hd (by decide), content_cons, hnext, content_name hk]
  rfl

/-- No character of a name has to be protected in a string. -/
theorem flatMap_escapedChar_of_isName {k : String} (hk : Text.isName k = true) :
    k.toList.flatMap Lexeme.escapedChar = k.toList := by
  obtain ⟨a, as, ha, hl, hw⟩ := Text.exists_of_isName hk
  have plain : ∀ c ∈ k.toList, Lexeme.escapedChar c = [c] := by
    rw [ha]
    intro c hc
    have hword : Text.isWord c = true := by
      rcases List.mem_cons.1 hc with rfl | hc
      · simp [Text.isWord, Text.isAlphanumeric, hl]
      · exact hw c hc
    refine if_neg ?_
    rintro (rfl | rfl) <;> exact absurd hword (by decide)
  rw [List.flatMap_congr plain]
  exact List.flatMap_singleton' _

theorem content_element {d k : String} (hd : Text.isName d = true) (hk : Text.isName k = true) :
    content (d ++ "[\"" ++ k ++ "\"]").toList =
      [.name d, .symbol (.opening .square), .quoted k, .symbol (.closing .square)] := by
  have hchars : (d ++ "[\"" ++ k ++ "\"]").toList =
      d.toList ++ '[' :: '"' :: (k.toList ++ '"' :: [']']) := by simp
  have hopening : Lexeme.next '[' ('"' :: (k.toList ++ '"' :: [']'])) =
      (.symbol (.opening .square), '"' :: (k.toList ++ '"' :: [']'])) := rfl
  have hstring : Lexeme.next '"' (k.toList ++ '"' :: [']']) = (.quoted k, [']']) := by
    have hrest := Lexeme.stringRest_escaped k.toList [']']
    rw [Lexeme.next_quote, Lexeme.quoted]
    rw [flatMap_escapedChar_of_isName hk] at hrest ⊢
    rw [hrest, String.ofList_toList]
  rw [hchars, content_name_append hd (by decide), content_cons, hopening, content_cons, hstring]
  rfl

end Token

theorem parse_member {d k : String} (hd : Text.isName d = true) (hk : Text.isName k = true) :
    Expr.parse (d ++ "." ++ k) = .ok (.namedMember d k) := by
  have h := Token.content_member hd hk
  rw [← Token.map_lexeme_significant] at h
  obtain ⟨t, us, hs, ht, hu⟩ := List.map_eq_cons_iff.1 h
  obtain ⟨u, vs, rfl, hu', hv⟩ := List.map_eq_cons_iff.1 hu
  obtain ⟨v, rfl, hv'⟩ := List.map_eq_singleton_iff.1 hv
  have hname : Derives (.binary (BinaryOp.member.level + 1)) [t] (.ident d) :=
    .binary_of_primary (.base (.name ht)) _
  have hkey : Derives (.binary BinaryOp.member.level) [v] (.ident k) :=
    .binary_of_primary (.base (.name hv')) _
  refine whole_of_ofTokensWithin.2 ?_
  rw [hs]
  refine Parse.whole_of_derives (.binary_mono (.binary hname hu' hkey) (by decide)) ?_
  rw [nesting_cons (by simp [ht]) (by simp [ht]),
    nesting_cons_of_symbol hu' BinaryOp.member.symbol_ne_opening
      BinaryOp.member.symbol_ne_closing, nesting_cons (by simp [hv']) (by simp [hv'])]
  decide

theorem parse_element {d k : String} (hd : Text.isName d = true) (hk : Text.isName k = true) :
    Expr.parse (d ++ "[\"" ++ k ++ "\"]") = .ok (.textElement d k) := by
  have hformed : (Expr.textElement d k).WellFormed fun _ => False := ⟨hd, trivial⟩
  have hlexemes : (Expr.textElement d k).lexemes .exact =
      [.name d, .symbol (.opening .square), .quoted k, .symbol (.closing .square)] := rfl
  have hw := writes_lexemes hformed
    ((Token.map_lexeme_significant _).trans ((Token.content_element hd hk).trans hlexemes.symm))
  refine whole_of_ofTokensWithin.2 (Parse.whole_of_derives hw.1 ?_)
  rw [hw.2]
  show 1 < nestingLimit
  decide

/-! ## Evaluations -/

section
variable (rounds depth : Nat) (d k : String) (s : Session)

theorem eval_namedMember : eval rounds (depth + 2) (.namedMember d k) s =
    match s.scope.get d with
    | .dictionary a => Run.getItem (.dictionary a) (.text k) s
    | c => .error (.error (.mismatch (.noMember c.kind))) s := by
  have name : eval rounds (depth + 1) (.ident d) = Run.get d := rfl
  have run : eval rounds (depth + 2) (.namedMember d k) =
      Eval.member (eval rounds (depth + 1)) (.ident d) (.ident k) := rfl
  rw [run, Eval.member, name, Run.bind_of_ok (Run.get_apply s d)]
  cases s.scope.get d <;> rfl

theorem eval_textElement : eval rounds (depth + 2) (.textElement d k) s =
    Run.getItem (s.scope.get d) (.text k) s := rfl

/-- A dictionary is read alike in both forms, and where there is no room to evaluate a name or an
index both are given up. -/
theorem eval_namedMember_eq {a : Nat} (h : s.scope.get d = .dictionary a) :
    eval rounds depth (.namedMember d k) s = eval rounds depth (.textElement d k) s := by
  match depth with
  | 0 | 1 => rfl
  | depth + 2 => rw [eval_namedMember, eval_textElement, h]

/-- The two forms are the same target: evaluating a name looks it up, and evaluating a text changes
nothing that the name could be bound to. -/
theorem place_namedMember : Eval.place (eval rounds depth) (.namedMember d k) =
    Eval.place (eval rounds depth) (.textElement d k) := by
  match depth with
  | 0 | _ + 1 => rfl

/-- Targets with the same place are assigned to alike. -/
theorem Eval.assign_congr {f : Expr → Run Value} {target target' : Expr}
    {x : Run (Value × Value)} (h : place f target = some x) (h' : place f target' = some x)
    (e : Expr) : assign f target e = assign f target' e := by
  rw [assign_of_place h, assign_of_place h']

theorem eval_assign_namedMember (e : Expr) :
    eval rounds depth (.binary .assign (.namedMember d k) e) =
      eval rounds depth (.binary .assign (.textElement d k) e) := by
  match depth with
  | 0 => rfl
  | depth + 1 =>
    have element : Eval.place (eval rounds depth) (.textElement d k) = some do
        let i ← eval rounds depth (.text k)
        let c ← Run.get d
        return (c, i) := rfl
    exact Eval.assign_congr ((place_namedMember rounds depth d k).trans element) element e

end

/-- A member and an element with the same key, a name. As scripts they are read as the trees that
are compared here. If a name is bound to a dictionary, both are the entry, or the error that there is
none; if not, both are errors of kinds of values. An assignment ends in the same way for both, in
the same session, whatever its right side is and does. -/
theorem member_eq_element (d k : String) :
    (Text.isName d = true → Text.isName k = true →
      Expr.parse (d ++ "." ++ k) = .ok (.namedMember d k) ∧
        Expr.parse (d ++ "[\"" ++ k ++ "\"]") = .ok (.textElement d k)) ∧
    (∀ (rounds depth : Nat) (s : Session) (a : Nat), s.scope.get d = .dictionary a →
      eval rounds depth (.namedMember d k) s = eval rounds depth (.textElement d k) s ∧
        eval rounds (depth + 2) (.namedMember d k) s =
          match (s.store.dictionary a)[k]? with
          | some v => .ok v s
          | none => .error (.error (.keyNotFound k)) s) ∧
    (∀ (rounds depth : Nat) (s : Session), (∀ a, s.scope.get d ≠ .dictionary a) →
      eval rounds (depth + 2) (.namedMember d k) s =
          .error (.error (.mismatch (.noMember (s.scope.get d).kind))) s ∧
        eval rounds (depth + 2) (.textElement d k) s =
          .error (.error (.mismatch (.notIndexed (s.scope.get d).kind .string))) s) ∧
    ∀ (rounds depth : Nat) (e : Expr),
      eval rounds depth (.binary .assign (.namedMember d k) e) =
        eval rounds depth (.binary .assign (.textElement d k) e) := by
  refine ⟨fun hd hk => ⟨parse_member hd hk, parse_element hd hk⟩, fun rounds depth s a h => ?_,
    fun rounds depth s h => ?_, fun rounds depth e => eval_assign_namedMember rounds depth d k e⟩
  · refine ⟨eval_namedMember_eq rounds depth d k s h, ?_⟩
    rw [eval_namedMember, h]
    dsimp only
    rw [Run.getItem_apply, Store.getItem]
    cases (s.store.dictionary a)[k]? <;> rfl
  · rw [eval_namedMember, eval_textElement, Run.getItem_apply]
    cases hc : s.scope.get d with
    | dictionary a => exact absurd hc (h a)
    | _ => exact ⟨rfl, rfl⟩

/-- The right side binds the name to another dictionary, which is then written to. -/
theorem member_eq_element_rebound :
    Expr.parse ("d" ++ "." ++ "k") = .ok (.namedMember "d" "k") ∧
      eval 1 2 (.namedMember "d" "k") Session.withDictionary =
        .error (.error (.keyNotFound "k")) Session.withDictionary ∧
      eval 1 2 (.namedMember "d" "k") Session.initial =
        .error (.error (.mismatch (.noMember .null))) Session.initial ∧
      eval 1 3 (.binary .assign (.namedMember "d" "k")
          (.binary .assign (.ident "d") (.root .emptyDictionary))) =
        eval 1 3 (.binary .assign (.textElement "d" "k")
          (.binary .assign (.ident "d") (.root .emptyDictionary))) := by
  obtain ⟨hparse, hentry, hother, hassign⟩ := member_eq_element "d" "k"
  exact ⟨(hparse (by decide) (by decide)).1, (hentry 1 0 Session.withDictionary 0 rfl).2,
    (hother 1 0 Session.initial nofun).1, hassign 1 3 _⟩

end Scriptlet
