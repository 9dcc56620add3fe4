import Scriptlet.Proofs.Extent
import Scriptlet.Proofs.Outcome
import Scriptlet.Proofs.ParseComplete

/-!
# String literals

A string is written as items between two quotes (`StringItem`, `quotation`), each of them a
character that stands for itself or a backslash in front of any character. The value of a string has
one character for each item.

* `Lexeme.stringRest_items`: a string ends at its closing quote, whatever follows.
* `Lexeme.exists_spells`: whatever is read as a string is written with items. The closing quote may
  be missing, but then nothing follows, and a backslash at the very end stands for itself.
* `strings_decode`: so it is for the tokens of a text, and a text in quotes is a script for itself.
-/

namespace Scriptlet

/-! ## Items -/

/-- A piece of a string between its quotes. -/
inductive StringItem where
  /-- A character that stands for itself. -/
  | raw (c : Char) (ne_quote : c ≠ '"') (ne_backslash : c ≠ '\\')
  /-- A backslash and any character. -/
  | escape (c : Char)

namespace StringItem

/-- The characters that stand for a control character behind a backslash. -/
def controls : List (Char × Char) :=
  [('0', '\x00'), ('r', '\r'), ('n', '\n'), ('b', '\x08'), ('f', '\x0c'), ('a', '\x07'),
    ('t', '\t'), ('v', '\x0b')]

def source : StringItem → List Char
  | raw c _ _ => [c]
  | escape c => ['\\', c]

/-- The character that an item stands for. -/
def value : StringItem → Char
  | raw c _ _ => c
  | escape c => (controls.lookup c).getD c

/-- The string that is written with some items. -/
def quotation (items : List StringItem) : List Char := '"' :: (items.flatMap source ++ ['"'])

/-- The item for a character, with a backslash only where one is needed. -/
def ofChar (c : Char) : StringItem :=
  if h : c = '"' ∨ c = '\\' then escape c else raw c (not_or.1 h).1 (not_or.1 h).2

theorem value_ofChar (c : Char) : (ofChar c).value = c := by
  unfold ofChar
  split
  · rename_i h
    rcases h with rfl | rfl <;> rfl
  · rfl

theorem map_value_ofChar (cs : List Char) : (cs.map ofChar).map value = cs := by
  rw [List.map_map]
  exact (List.map_congr_left fun c _ => value_ofChar c).trans (List.map_id cs)

end StringItem

open StringItem

/-! ## Strings behind their opening quote -/

namespace Lexeme

/-- What is left of a string is written with some items. -/
inductive StringRest.Spells (items : List StringItem) : StringRest → Prop
  | closed (rest : List Char) :
      Spells items ⟨items.flatMap StringItem.source ++ ['"'], items.map StringItem.value, rest⟩
  | unclosed : Spells items ⟨items.flatMap StringItem.source, items.map StringItem.value, []⟩
  /-- A backslash at the very end of the text protects nothing. -/
  | backslash :
      Spells items
        ⟨items.flatMap StringItem.source ++ ['\\'], items.map StringItem.value ++ ['\\'], []⟩

theorem escaped_eq (c : Char) : escaped c = (controls.lookup c).getD c := by
  unfold escaped
  split
  case h_9 =>
    have none : controls.lookup c = none := by simp_all [controls, List.lookup_eq_none_iff]
    rw [none, Option.getD_none]
  all_goals rfl

/-- An item in front of what is left of a string. -/
theorem stringRest_append_item (item : StringItem) (cs : List Char) :
    stringRest (item.source ++ cs) =
      ⟨item.source ++ (stringRest cs).source, item.value :: (stringRest cs).value,
        (stringRest cs).rest⟩ := by
  cases item with
  | raw c hq hb => exact stringRest_cons hq fun hc => absurd hc hb
  | escape c =>
    rw [value, ← escaped_eq]
    rfl

/-- A string goes as far as its closing quote. -/
theorem stringRest_items (items : List StringItem) (rest : List Char) :
    stringRest (items.flatMap source ++ '"' :: rest) =
      ⟨items.flatMap source ++ ['"'], items.map value, rest⟩ := by
  induction items with
  | nil => rfl
  | cons item items ih =>
    rw [List.flatMap_cons, List.append_assoc, stringRest_append_item, ih, List.append_assoc]
    rfl

theorem StringRest.Spells.cons {items : List StringItem} {cs : List Char}
    (h : (stringRest cs).Spells items) (item : StringItem) :
    (stringRest (item.source ++ cs)).Spells (item :: items) := by
  rw [stringRest_append_item]
  generalize stringRest cs = r at h
  cases h with
  | closed rest =>
    rw [← List.append_assoc]
    exact .closed rest
  | unclosed => exact .unclosed
  | backslash =>
    rw [← List.append_assoc]
    exact .backslash

/-- Whatever is read as a string is written with items, which come off the text one by one. -/
theorem exists_spells (cs : List Char) : ∃ items, (stringRest cs).Spells items := by
  fun_induction stringRest cs with
  | case1 => exact ⟨[], .unclosed⟩
  | case2 cs => exact ⟨[], .closed cs⟩
  | case3 c cs r ih =>
    obtain ⟨items, h⟩ := ih
    exact ⟨escape c :: items, h.cons (escape c)⟩
  | case4 c cs hq hb r ih =>
    by_cases hc : c = '\\'
    · subst hc
      rcases cs with _ | ⟨d, cs⟩
      · exact ⟨[], .backslash⟩
      · exact absurd rfl (hb d cs rfl)
    · obtain ⟨items, h⟩ := ih
      have := h.cons (raw c hq hc)
      rw [stringRest_append_item] at this
      exact ⟨raw c hq hc :: items, this⟩

/-- Only a quote starts a string. -/
theorem next_eq_string {c : Char} {cs rest : List Char} {text value : String}
    (h : next c cs = (string text value, rest)) :
    c = '"' ∧ text = .ofList ('"' :: (stringRest cs).source) ∧
      value = .ofList (stringRest cs).value ∧ rest = (stringRest cs).rest := by
  by_cases hq : c = '"'
  · subst hq
    rw [next_quote, Prod.mk.injEq, string.injEq] at h
    obtain ⟨⟨rfl, rfl⟩, rfl⟩ := h
    exact ⟨rfl, rfl, rfl, rfl⟩
  · unfold next at h
    rw [if_neg hq] at h
    repeat' split at h
    all_goals cases h

end Lexeme

/-! ## Tokens -/

namespace Token

theorem scan_quotation_append (items : List StringItem) (rest : List Char) :
    scan (.ofList (quotation items ++ rest)) =
      ⟨.string (.ofList (quotation items)) (.ofList (items.map value)), 0⟩ ::
        place (quotation items).length (lexemes rest rest) := by
  have hn : Lexeme.next '"' (items.flatMap source ++ '"' :: rest) =
      (.string (.ofList (quotation items)) (.ofList (items.map value)), rest) := by
    rw [Lexeme.next_quote, Lexeme.stringRest_items]
    rfl
  have hq : quotation items ++ rest = '"' :: (items.flatMap source ++ '"' :: rest) := by
    simp [quotation]
  rw [scan, String.toList_ofList, hq, lexemes_cons, hn, place, Nat.zero_add, Lexeme.text,
    String.length_ofList]

/-- A string token is written with items between quotes, or it runs to the end of the text. -/
theorem spells_of_mem_scan {src : String} {t : Token} {text val : String} (ht : t ∈ scan src)
    (hl : t.lexeme = .string text val) :
    ∃ items, (text.toList = quotation items ∧ val.toList = items.map value) ∨
      t.stop = src.length ∧ ∃ tail, (tail = [] ∨ tail = ['\\']) ∧
        text.toList = '"' :: (items.flatMap source ++ tail) ∧
        val.toList = items.map value ++ tail := by
  obtain ⟨c, us, -, hn⟩ := next_of_mem_scan ht
  rw [hl] at hn
  obtain ⟨-, rfl, rfl, hrest⟩ := Lexeme.next_eq_string hn
  obtain ⟨items, h⟩ := Lexeme.exists_spells us
  have stop (h : (Lexeme.stringRest us).rest = []) : t.stop = src.length := by
    rw [← hrest, List.drop_eq_nil_iff, String.length_toList] at h
    exact Nat.le_antisymm (stop_le_of_mem_scan ht) h
  refine ⟨items, ?_⟩
  simp only [String.toList_ofList]
  generalize Lexeme.stringRest us = r at h stop
  cases h with
  | closed rest => exact .inl ⟨rfl, rfl⟩
  | unclosed => exact .inr ⟨stop rfl, [], .inl rfl, by simp, by simp⟩
  | backslash => exact .inr ⟨stop rfl, ['\\'], .inr rfl, rfl, rfl⟩

end Token

/-! ## Scripts -/

/-- A string alone is a script. -/
theorem Parse.whole_string {t : Token} {text val : String} (h : t.lexeme = .string text val)
    {limit : Nat} (hl : 0 < limit) : whole limit [t] = .ok (.text val) := by
  refine whole_of_derives ((Derives.string h).binary_of_primary _) ?_
  rw [nesting_cons (by simp [h]) (by simp [h])]
  exact hl

theorem ofTokensWithin_quotation (items : List StringItem) {limit : Nat} (hl : 0 < limit) :
    Expr.ofTokensWithin limit (Token.scan (.ofList (quotation items))) =
      .ok (.text (.ofList (items.map value))) := by
  have hscan := Token.scan_quotation_append items []
  rw [List.append_nil] at hscan
  have hs : Token.significant (Token.scan (.ofList (quotation items))) =
      [⟨.string (.ofList (quotation items)) (.ofList (items.map value)), 0⟩] := by
    rw [hscan]
    rfl
  rw [Expr.ofTokensWithin, hs, Parse.whole_string rfl hl]

/-- A string as a script gives its value and changes nothing. -/
theorem run_quotation (items : List StringItem) (s : Session) :
    s.run (.ofList (quotation items)) =
      (.ok (.text (.ofList (items.map value))),
        s.record (.parsed (.ofList (quotation items)) (.text (.ofList (items.map value))))) := by
  rw [Session.run_eq_runWithin,
    Session.runWithin_of_ok (ofTokensWithin_quotation items (by decide))]
  rfl

/-- Strings decode exactly. A string that is written with items is one token, and what follows it is
scanned as if it stood alone. The value of the token has one character for each item: the character
itself, or what it stands for behind a backslash. So the script that is a text in quotes, with a
backslash before its quotes and backslashes, has the text as its value. Conversely every string
token of a text is written in this way, or it runs to the end of the text without a closing quote.
Then a backslash may be left over at the end, and it stands for itself. -/
theorem strings_decode :
    (∀ (items : List StringItem) (rest : List Char),
      Token.scan (.ofList (quotation items ++ rest)) =
        ⟨.string (.ofList (quotation items)) (.ofList (items.map value)), 0⟩ ::
          Token.place (quotation items).length (Token.lexemes rest rest)) ∧
    (∀ (text : String) (s : Session),
      let source := String.ofList (quotation (text.toList.map ofChar))
      s.run source = (.ok (.text text), s.record (.parsed source (.text text)))) ∧
    ∀ (source : String) (t : Token) (text val : String), t ∈ Token.scan source →
      t.lexeme = .string text val →
      ∃ items, (text.toList = quotation items ∧ val.toList = items.map value) ∨
        t.stop = source.length ∧ ∃ tail, (tail = [] ∨ tail = ['\\']) ∧
          text.toList = '"' :: (items.flatMap StringItem.source ++ tail) ∧
          val.toList = items.map value ++ tail := by
  refine ⟨Token.scan_quotation_append, fun text s => ?_, fun source t text val =>
    Token.spells_of_mem_scan⟩
  have h := run_quotation (text.toList.map ofChar) s
  rwa [map_value_ofChar, String.ofList_toList] at h

example : (Token.scan "\"\\q\\n\\\"\" + \"\\").map (·.lexeme) =
    [.string "\"\\q\\n\\\"\"" "q\n\"", .blank " ", .symbol .plus, .blank " ",
      .string "\"\\" "\\"] := rfl

end Scriptlet
