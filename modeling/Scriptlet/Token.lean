import Scriptlet.Lexeme

/-! # Tokens

A text as the list of its lexemes, each with the offset at which it starts, in characters. Scanning
never fails, and the tokens make up the text (`text_lexemes`).
-/

namespace Scriptlet

structure Token where
  lexeme : Lexeme
  /-- The number of characters before the lexeme. -/
  start : Nat

namespace Token

def text (t : Token) : String := t.lexeme.text

def length (t : Token) : Nat := t.text.length

/-- The number of characters up to the end of a token. -/
def stop (t : Token) : Nat := t.start + t.length

/-- The lexemes of a text. Each is at least one character long, so the characters of the first
list bound their number. -/
def lexemes : List Char → List Char → List Lexeme
  | _ :: bound, c :: cs =>
    let (lexeme, rest) := Lexeme.next c cs
    lexeme :: lexemes bound rest
  | _, _ => []

/-- The lexemes of a text make up the text. -/
theorem text_lexemes {bound cs : List Char} (h : cs.length ≤ bound.length) :
    (lexemes bound cs).flatMap (·.text.toList) = cs := by
  fun_induction lexemes bound cs with
  | case1 _ bound c cs lexeme rest hn ih =>
    have ha := Lexeme.text_next c cs
    have hl := Lexeme.length_next_lt c cs
    rw [hn] at ha hl
    simp only [List.length_cons] at h hl
    rw [List.flatMap_cons, ih (by omega)]
    exact ha
  | case2 bound cs hx =>
    cases cs with
    | nil => rfl
    | cons c cs =>
      cases bound with
      | nil => simp at h
      | cons b bound => exact absurd rfl (hx _ _ _ _ rfl)

/-- Puts lexemes one behind the other from a given offset on. -/
def place : Nat → List Lexeme → List Token
  | _, [] => []
  | start, lexeme :: rest => ⟨lexeme, start⟩ :: place (start + lexeme.text.length) rest

/-- The tokens of a text, white space and comments included. -/
def scan (source : String) : List Token := place 0 (lexemes source.toList source.toList)

/-- The tokens that are more than layout. -/
def significant (tokens : List Token) : List Token := tokens.filter (·.lexeme.isSignificant)

/-- The offset at which the last token ends. -/
def endOf (tokens : List Token) : Nat := (tokens.getLast?.map stop).getD 0

end Token

end Scriptlet
