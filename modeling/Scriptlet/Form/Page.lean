import Scriptlet.Form
import Scriptlet.Text.Lines

/-! # Forms on a page

A form that does not fit on its line is broken: a group has each of its items on a line of its own,
one column in, and a text is cut into quoted pieces below each other, behind its line breaks and,
where a line is still too long, between its words.
-/

namespace Scriptlet.Form

def pageWidth : Nat := 80

/-- Gathers words into pieces: a word joins the piece before it if the result fits. Whether it fits
may depend on its being the last word. -/
def gather (fits : Bool → List Char → Bool) : List Char → List (List Char) → List (List Char)
  | piece, [] => if piece.isEmpty then [] else [piece]
  | piece, word :: words =>
    if fits words.isEmpty (piece ++ word) then gather fits (piece ++ word) words
    else (if piece.isEmpty then [] else [piece]) ++ gather fits word words

/-- The pieces of the lines of a text. A piece has to fit behind the given column, and the last
piece of the last line has to leave room for what follows the text. -/
def pieces (column room : Nat) : List (List Char) → List (List Char)
  | [] => []
  | line :: lines =>
    let fits (last : Bool) (cs : List Char) : Bool :=
      (Text.quoteChars cs).length + column + (if last && lines.isEmpty then room else 0) ≤ pageWidth
    (if fits true line then [line] else gather fits [] (Text.words line)) ++ pieces column room lines

/-- The next line, from a given column on. -/
def newLine (column : Nat) : List Char := '\n' :: List.replicate column ' '

/-- A text in quotes, cut into pieces if it has more than one, in front of another text. -/
def brokenTextBefore (column room : Nat) (cs rest : List Char) : List Char :=
  match pieces column room (Text.lines cs) with
  | [] | [_] => Text.quoteChars cs ++ rest
  | piece :: more =>
    Text.quoteChars piece
      ++ more.foldr (fun p rest => newLine column ++ (Text.quoteChars p ++ rest)) rest

/-! ## Room on a line -/

/-- What is left of a number of columns when some of them are used. -/
def use? (used columns : Nat) : Option Nat :=
  if used ≤ columns then some (columns - used) else none

mutual

/-- What is left of a number of columns when a form is written into them on one line. The search
stops at the first item that does not fit. -/
def left? (columns : Nat) : Form → Option Nat
  | .text s => use? (Text.quoteChars s.toList).length columns
  | .number x => use? (Double.Layout.literal.text x).length columns
  | .group [] => use? 2 columns
  | .group [f] => do left? (← use? 3 columns) f
  | .group (f :: fs) => do leftBehind? (← left? (← use? 2 columns) f) fs

/-- What is left of a number of columns behind the further items of a group. -/
def leftBehind? (columns : Nat) : List Form → Option Nat
  | [] => some columns
  | f :: fs => do leftBehind? (← left? (← use? 2 columns) f) fs

end

theorem use?_bind_use? (m n columns : Nat) :
    (use? m columns).bind (use? n) = use? (m + n) columns := by
  by_cases hm : m ≤ columns
  · by_cases hn : n ≤ columns - m
    · simp only [use?, if_pos hm, Option.bind_some, if_pos hn, if_pos (show m + n ≤ columns by omega)]
      congr 1
      omega
    · simp only [use?, if_pos hm, Option.bind_some, if_neg hn,
        if_neg (show ¬ m + n ≤ columns by omega)]
  · simp only [use?, if_neg hm, Option.bind_none, if_neg (show ¬ m + n ≤ columns by omega)]

theorem length_lineBefore (f : Form) (rest : List Char) :
    (f.lineBefore rest).length = f.line.length + rest.length := by
  rw [lineBefore_eq, List.length_append]

/-- The number of characters of the further items of a group on one line, without its bracket. -/
def widthBehind : List Form → Nat
  | [] => 0
  | f :: fs => 2 + f.line.length + widthBehind fs

theorem length_lineTailBefore (fs : List Form) (rest : List Char) :
    (lineTailBefore fs rest).length = widthBehind fs + 1 + rest.length := by
  induction fs with
  | nil =>
    simp [lineTailBefore, widthBehind]
    omega
  | cons f fs ih =>
    simp [lineTailBefore, length_lineBefore, ih, widthBehind]
    omega

mutual

/-- What is left is what the line of the form does not use. -/
theorem left?_eq_use? (columns : Nat) (f : Form) : f.left? columns = use? f.line.length columns := by
  match f with
  | .text s => simp [left?, line, lineBefore]
  | .number x => simp [left?, line, lineBefore]
  | .group [] => simp [left?, line, lineBefore]
  | .group [f] =>
    have ih : (fun n => left? n f) = use? f.line.length := funext fun n => left?_eq_use? n f
    have h : (Form.group [f]).line.length = 3 + f.line.length := by
      rw [line, lineBefore, List.length_cons, length_lineBefore]
      simp only [List.length_cons, List.length_nil]
      omega
    rw [h, ← use?_bind_use?, ← ih]
    rfl
  | .group (f :: g :: fs) =>
    have ih : (fun n => left? n f) = use? f.line.length := funext fun n => left?_eq_use? n f
    have iht : (fun n => leftBehind? n (g :: fs)) = use? (widthBehind (g :: fs)) :=
      funext fun n => leftBehind?_eq_use? n (g :: fs)
    have h : (Form.group (f :: g :: fs)).line.length
        = 2 + f.line.length + widthBehind (g :: fs) := by
      rw [line, lineBefore, List.length_cons, length_lineBefore, length_lineTailBefore]
      · simp only [List.length_nil]
        omega
      · simp
    rw [h, ← use?_bind_use?, ← use?_bind_use?, ← ih, ← iht, Option.bind_assoc]
    rfl

theorem leftBehind?_eq_use? (columns : Nat) (fs : List Form) :
    leftBehind? columns fs = use? (widthBehind fs) columns := by
  match fs with
  | [] => simp [leftBehind?, widthBehind, use?]
  | f :: fs =>
    have ih : (fun n => left? n f) = use? f.line.length := funext fun n => left?_eq_use? n f
    have iht : (fun n => leftBehind? n fs) = use? (widthBehind fs) :=
      funext fun n => leftBehind?_eq_use? n fs
    rw [widthBehind, ← use?_bind_use?, ← use?_bind_use?, ← ih, ← iht, Option.bind_assoc]
    rfl

end

/-- Whether a form fits on a line from a given column on, with room left for what follows it. -/
def fits (column room : Nat) (f : Form) : Bool := (f.left? (pageWidth - (column + room))).isSome

theorem fits_iff (column room : Nat) (f : Form) :
    f.fits column room = true ↔ f.line.length ≤ pageWidth - (column + room) := by
  rw [fits, left?_eq_use?, use?]
  split <;> simp [*]

mutual

/-- A form from a given column on in front of a text, with room left for what follows it on its last
line. -/
def pageBefore (column room : Nat) (f : Form) (rest : List Char) : List Char :=
  if f.fits column room then f.lineBefore rest
  else
    match f with
    | .text s => brokenTextBefore column room s.toList rest
    | .number x => (Form.number x).lineBefore rest
    | .group [] => (Form.group []).lineBefore rest
    | .group [f] => '(' :: f.pageBefore (column + 1) (room + 2) (',' :: ')' :: rest)
    | .group (f :: g :: fs) =>
      '(' :: f.pageBefore (column + 1) 1 (pageTailBefore (column + 1) (room + 1) (g :: fs) rest)

/-- The items behind the first one of a broken group, and its closing bracket, in front of a
text. -/
def pageTailBefore (column room : Nat) (fs : List Form) (rest : List Char) : List Char :=
  match fs with
  | [] => ')' :: rest
  | [f] => ',' :: newLine column ++ f.pageBefore column room (')' :: rest)
  | f :: g :: fs =>
    ',' :: newLine column ++ f.pageBefore column 1 (pageTailBefore column room (g :: fs) rest)

end

def onPage (f : Form) : String := .ofList (f.pageBefore 0 0 [])

end Scriptlet.Form
