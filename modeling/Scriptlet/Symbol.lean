/-! # Symbols

The operators, brackets and root words of a script. A symbol has one or two characters, and at
every place of a text the longest one is read.
-/

namespace Scriptlet

/-- The three kinds of brackets. -/
inductive Bracket where
  | round
  | square
  | curly
deriving DecidableEq

/-- The symbols of a script, named by their look. -/
inductive Symbol where
  | opening (bracket : Bracket)
  | closing (bracket : Bracket)
  | squarePair
  | curlyPair
  | tilde
  | doubleTilde
  | dot
  | caret
  | star
  | slash
  | percent
  | plus
  | minus
  | equal
  | bangEqual
  | greater
  | less
  | greaterEqual
  | lessEqual
  | colon
  | doubleColon
  | question
  | doubleQuestion
  | bangQuestion
  | bang
  | semicolon
deriving DecidableEq

def Bracket.openingText : Bracket → String
  | .round => "("
  | .square => "["
  | .curly => "\x7b"

def Bracket.closingText : Bracket → String
  | .round => ")"
  | .square => "]"
  | .curly => "\x7d"

namespace Symbol

def text : Symbol → String
  | opening b => b.openingText
  | closing b => b.closingText
  | squarePair => "[]"
  | curlyPair => "\x7b\x7d"
  | tilde => "~"
  | doubleTilde => "~~"
  | dot => "."
  | caret => "^"
  | star => "*"
  | slash => "/"
  | percent => "%"
  | plus => "+"
  | minus => "-"
  | equal => "="
  | bangEqual => "!="
  | greater => ">"
  | less => "<"
  | greaterEqual => ">="
  | lessEqual => "<="
  | colon => ":"
  | doubleColon => "::"
  | question => "?"
  | doubleQuestion => "??"
  | bangQuestion => "!?"
  | bang => "!"
  | semicolon => ";"

def ofPair? : Char → Char → Option Symbol
  | '!', '=' => some bangEqual
  | '>', '=' => some greaterEqual
  | '<', '=' => some lessEqual
  | '?', '?' => some doubleQuestion
  | '!', '?' => some bangQuestion
  | ':', ':' => some doubleColon
  | '~', '~' => some doubleTilde
  | '[', ']' => some squarePair
  | '{', '}' => some curlyPair
  | _, _ => none

def ofChar? : Char → Option Symbol
  | '!' => some bang
  | '%' => some percent
  | '*' => some star
  | '(' => some (opening .round)
  | ')' => some (closing .round)
  | '-' => some minus
  | '+' => some plus
  | '=' => some equal
  | ':' => some colon
  | '<' => some less
  | '>' => some greater
  | '/' => some slash
  | '^' => some caret
  | '{' => some (opening .curly)
  | '}' => some (closing .curly)
  | '[' => some (opening .square)
  | ']' => some (closing .square)
  | '.' => some dot
  | '?' => some question
  | '~' => some tilde
  | ';' => some semicolon
  | _ => none

/-- The longest symbol that starts with a character and continues in a text, and what follows. -/
def read? (c : Char) (cs : List Char) : Option (Symbol × List Char) :=
  match cs with
  | [] => (ofChar? c).map (·, [])
  | d :: rest =>
    match ofPair? c d with
    | some s => some (s, rest)
    | none => (ofChar? c).map (·, d :: rest)

theorem toList_text_of_ofChar? {c : Char} {s : Symbol} (h : ofChar? c = some s) :
    s.text.toList = [c] := by
  unfold ofChar? at h
  split at h <;> first | (cases h; rfl) | cases h

theorem toList_text_of_ofPair? {c d : Char} {s : Symbol} (h : ofPair? c d = some s) :
    s.text.toList = [c, d] := by
  unfold ofPair? at h
  split at h <;> first | (cases h; rfl) | cases h

/-- A symbol has one or two characters and is what is read off them. -/
theorem toList_text_cases (s : Symbol) :
    (∃ c, s.text.toList = [c] ∧ ofChar? c = some s) ∨
      ∃ c d, s.text.toList = [c, d] ∧ ofPair? c d = some s := by
  cases s with
  | opening b | closing b => cases b <;> exact .inl ⟨_, rfl, rfl⟩
  | squarePair | curlyPair | doubleTilde | bangEqual | greaterEqual | lessEqual | doubleColon
  | doubleQuestion | bangQuestion => exact .inr ⟨_, _, rfl, rfl⟩
  | _ => exact .inl ⟨_, rfl, rfl⟩

end Symbol

end Scriptlet
