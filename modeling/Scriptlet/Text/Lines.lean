import Scriptlet.Text.Blank

/-! # Lines and words

Two cuts of a text that lose nothing: into lines, each with its line break, and into words, each
with the blanks behind it. A file is read with every kind of line end as a line feed.
-/

namespace Scriptlet.Text

/-- Whether a character breaks a line: line feed, vertical tab, form feed, carriage return, the
separators U+001C to U+001E, next line, line separator and paragraph separator. -/
def isLineBreak (c : Char) : Bool :=
  c == '\n' || c == '\x0b' || c == '\x0c' || c == '\r' || c == '\x1c' || c == '\x1d' || c == '\x1e'
    || c == '\u0085' || c == '\u2028' || c == '\u2029'

/-- Puts a character in front of the first line. -/
def onFirstLine (c : Char) : List (List Char) → List (List Char)
  | [] => [[c]]
  | line :: lines => (c :: line) :: lines

/-- The lines of a text, each with its break. A carriage return and a line feed behind it are one
break. -/
def lines : List Char → List (List Char)
  | [] => []
  | '\r' :: '\n' :: cs => ['\r', '\n'] :: lines cs
  | c :: cs => if isLineBreak c then [c] :: lines cs else onFirstLine c (lines cs)

/-- The words of a text, each with the blanks behind it. The characters of the first list bound
the number of words. -/
def wordsWithin : List Char → List Char → List (List Char)
  | _ :: bound, c :: cs =>
    let rest := (c :: cs).dropWhile (!isBlank ·)
    ((c :: cs).takeWhile (!isBlank ·) ++ rest.takeWhile isBlank)
      :: wordsWithin bound (rest.dropWhile isBlank)
  | _, _ => []

/-- The words of a text, each with the blanks behind it. -/
def words (cs : List Char) : List (List Char) := wordsWithin cs cs

/-- Every line end as a line feed. -/
def unifyLineEnds : List Char → List Char
  | [] => []
  | '\r' :: '\n' :: cs => '\n' :: unifyLineEnds cs
  | c :: cs => (if c = '\r' then '\n' else c) :: unifyLineEnds cs

/-- The lines of a text that end in line feeds, without them. What follows the last line feed is a
line if there is any of it. -/
def inputLines : List Char → List (List Char)
  | [] => []
  | c :: cs => if c = '\n' then [] :: inputLines cs else onFirstLine c (inputLines cs)

theorem onFirstLine_flatten (c : Char) (ls : List (List Char)) :
    (onFirstLine c ls).flatten = c :: ls.flatten := by
  cases ls <;> rfl

/-- The lines make up the text. -/
theorem lines_flatten (cs : List Char) : (lines cs).flatten = cs := by
  fun_induction lines cs with
  | case1 => rfl
  | case2 cs ih => simp [ih]
  | case3 c cs _ h ih => simp [ih]
  | case4 c cs _ h ih => rw [onFirstLine_flatten, ih]

end Scriptlet.Text
