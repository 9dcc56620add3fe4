import Scriptlet.Double.Decimal
import Scriptlet.Symbol
import Scriptlet.Text.Blank
import Scriptlet.Text.Numeral

/-! # Lexemes

The pieces into which every text falls: white space, comments, strings, names, numbers, symbols,
and single characters that start none of these. `Lexeme.next` reads the first piece of a text that
is not empty; what it reads and what it leaves make up the text again (`text_next`).
-/

namespace Scriptlet

/-- A piece of a script. Each piece keeps its own characters; a string and a number also keep what
they stand for. -/
inductive Lexeme where
  | blank (text : String)
  | comment (text : String)
  | string (text value : String)
  | name (text : String)
  | number (text : String) (value : Float)
  | symbol (symbol : Symbol)
  | stray (char : Char)

namespace Lexeme

def text : Lexeme → String
  | blank t | comment t | string t _ | name t | number t _ => t
  | symbol s => s.text
  | stray c => String.singleton c

/-- Whether a lexeme is more than layout. -/
def isSignificant : Lexeme → Bool
  | blank _ | comment _ => false
  | _ => true

/-! ## Comments -/

def isLineEnd (c : Char) : Bool := c == '\n' || c == '\r'

/-- A text up to and including its first closing mark of a block comment, and what follows; the
whole text if there is no such mark. -/
def throughBlockEnd : List Char → List Char × List Char
  | [] => ([], [])
  | '*' :: '/' :: cs => (['*', '/'], cs)
  | c :: cs => let (inside, rest) := throughBlockEnd cs; (c :: inside, rest)

/-- The comment behind a slash, if the next character makes it one, and what follows. -/
def comment? : List Char → Option (List Char × List Char)
  | '/' :: cs =>
    some ('/' :: cs.takeWhile (!isLineEnd ·), cs.dropWhile (!isLineEnd ·))
  | '*' :: cs => let (inside, rest) := throughBlockEnd cs; some ('*' :: inside, rest)
  | _ => none

/-! ## Strings -/

/-- The character that a backslash and a character stand for. -/
def escaped : Char → Char
  | '0' => '\x00'
  | 'a' => '\x07'
  | 'b' => '\x08'
  | 't' => '\t'
  | 'n' => '\n'
  | 'v' => '\x0b'
  | 'f' => '\x0c'
  | 'r' => '\r'
  | c => c

/-- The rest of a string behind its opening quote. -/
structure StringRest where
  /-- The characters up to and including the closing quote, or all if there is none. -/
  source : List Char
  /-- The characters that they stand for. -/
  value : List Char
  rest : List Char

/-- Reads a string up to its first quote that no backslash protects. A backslash at the very end
of the text stands for itself. -/
def stringRest : List Char → StringRest
  | [] => ⟨[], [], []⟩
  | '"' :: cs => ⟨['"'], [], cs⟩
  | '\\' :: c :: cs =>
    let r := stringRest cs
    ⟨'\\' :: c :: r.source, escaped c :: r.value, r.rest⟩
  | c :: cs =>
    let r := stringRest cs
    ⟨c :: r.source, c :: r.value, r.rest⟩

/-! ## Numbers -/

/-- The longest run of digits with at most one point that starts a text, and what follows. -/
def numberChars (cs : List Char) : List Char × List Char :=
  let whole := cs.takeWhile Text.isDigit
  match cs.dropWhile Text.isDigit with
  | '.' :: rest => (whole ++ '.' :: rest.takeWhile Text.isDigit, rest.dropWhile Text.isDigit)
  | rest => (whole, rest)

/-- The double nearest to the number that digits of any script with at most one point write. -/
def numberValue (cs : List Char) : Float := (Double.Numeral.take Text.digit? cs).1.toFloat

/-! ## The first lexeme of a text -/

/-- The first lexeme of the text with a given first character, and what follows it. -/
def next (c : Char) (cs : List Char) : Lexeme × List Char :=
  if Text.isBlank c then
    (blank (.ofList (c :: cs.takeWhile Text.isBlank)), cs.dropWhile Text.isBlank)
  else if c = '/' then
    match comment? cs with
    | some (inside, rest) => (comment (.ofList (c :: inside)), rest)
    | none => (symbol .slash, cs)
  else if c = '"' then
    let r := stringRest cs
    (string (.ofList (c :: r.source)) (.ofList r.value), r.rest)
  else if Text.isLetter c then
    (name (.ofList (c :: cs.takeWhile Text.isWord)), cs.dropWhile Text.isWord)
  else if Text.isDigit c then
    let (digits, rest) := numberChars (c :: cs)
    (number (.ofList digits) (numberValue digits), rest)
  else
    match Symbol.read? c cs with
    | some (s, rest) => (symbol s, rest)
    | none => (stray c, cs)

/-! ## Nothing is lost -/

theorem throughBlockEnd_append (cs : List Char) :
    (throughBlockEnd cs).1 ++ (throughBlockEnd cs).2 = cs := by
  fun_induction throughBlockEnd cs with
  | case1 => rfl
  | case2 cs => rfl
  | case3 c cs _ inside rest h ih => simpa [h] using ih

theorem comment?_append {cs inside rest : List Char} (h : comment? cs = some (inside, rest)) :
    inside ++ rest = cs := by
  unfold comment? at h
  split at h
  · simp only [Option.some.injEq, Prod.mk.injEq] at h
    obtain ⟨rfl, rfl⟩ := h
    simp
  · rename_i cs
    simp only [Option.some.injEq, Prod.mk.injEq] at h
    obtain ⟨rfl, rfl⟩ := h
    simp [throughBlockEnd_append]
  · cases h

theorem stringRest_append (cs : List Char) : (stringRest cs).source ++ (stringRest cs).rest = cs := by
  fun_induction stringRest cs with
  | case1 => rfl
  | case2 cs => rfl
  | case3 c cs r ih => simpa using ih
  | case4 c cs _ _ r ih => simpa using ih

theorem numberChars_append (cs : List Char) : (numberChars cs).1 ++ (numberChars cs).2 = cs := by
  have h := List.takeWhile_append_dropWhile (p := Text.isDigit) (l := cs)
  unfold numberChars
  dsimp only
  split
  · rename_i rest hr
    rw [hr] at h
    simpa using h
  · exact h

theorem symbol_read?_append {c : Char} {cs rest : List Char} {s : Symbol}
    (h : Symbol.read? c cs = some (s, rest)) : s.text.toList ++ rest = c :: cs := by
  unfold Symbol.read? at h
  split at h
  · obtain ⟨s', hs, h⟩ := Option.map_eq_some_iff.1 h
    cases h
    simp [Symbol.toList_text_of_ofChar? hs]
  · split at h
    · rename_i hs
      cases h
      simp [Symbol.toList_text_of_ofPair? hs]
    · obtain ⟨s', hs, h⟩ := Option.map_eq_some_iff.1 h
      cases h
      simp [Symbol.toList_text_of_ofChar? hs]

/-- The first lexeme and what follows it make up the text. -/
theorem text_next (c : Char) (cs : List Char) :
    (next c cs).1.text.toList ++ (next c cs).2 = c :: cs := by
  unfold next
  split
  · simp [text]
  split
  · split
    · rename_i h
      simp [text, comment?_append h]
    · rename_i h _ _
      simp [text, Symbol.text, h]
  split
  · simp [text, stringRest_append]
  split
  · simp [text]
  split
  · simp [text, numberChars_append]
  split
  · rename_i h
    simpa [text] using symbol_read?_append h
  · simp [text]

theorem symbol_text_ne_nil (s : Symbol) : s.text.toList ≠ [] := by
  cases s with
  | opening b | closing b => cases b <;> decide
  | _ => decide

/-- The first lexeme has a character. -/
theorem text_next_ne_nil (c : Char) (cs : List Char) : (next c cs).1.text.toList ≠ [] := by
  unfold next
  split
  · simp [text]
  split
  · split
    · simp [text]
    · simp [text, Symbol.text]
  split
  · simp [text]
  split
  · simp [text]
  split
  · rename_i hd
    unfold numberChars
    dsimp only
    split <;> simp [text, hd]
  split
  · exact symbol_text_ne_nil _
  · simp [text]

/-- What follows the first lexeme is shorter than the text. -/
theorem length_next_lt (c : Char) (cs : List Char) :
    (next c cs).2.length < (c :: cs).length := by
  have h := congrArg List.length (text_next c cs)
  have := List.length_pos_iff.2 (text_next_ne_nil c cs)
  rw [List.length_append] at h
  omega

end Lexeme

end Scriptlet
