import Scriptlet.Expr
import Scriptlet.Token

/-! # Parsing

Recursive descent over the significant tokens. Every binary level folds to the left, a unary
operator wraps only what binds more tightly, and a bracket group stands for the tree inside it.
A parse that gives up leaves the tokens that it has not read, the first impossible one in front,
and that token places the error.

Every function ends for a plain reason: a level is a smaller level of the same tokens, a run of
operators is no longer than the tokens left, and brackets nest at most `nestingLimit` deep.
-/

namespace Scriptlet

/-- An opening bracket and where it stands. -/
structure Opener where
  bracket : Bracket
  start : Nat

/-- Why a parse gives up. -/
inductive Rejection.Cause where
  /-- A closing bracket that closes none of the open ones. -/
  | unmatched (bracket : Bracket)
  /-- A token where the script, or its bracket group, should have ended. -/
  | extra (text : String)
  /-- A token that no operand starts with. -/
  | unexpected (text : String)
  /-- The end where an operand should start. -/
  | operandExpected
  /-- The end inside a bracket group. -/
  | neverClosed (opener : Opener)
  /-- Brackets nested too deeply. -/
  | tooDeep

def Rejection.Cause.message : Rejection.Cause → String
  | unmatched b => "Unmatched `" ++ b.closingText ++ "`"
  | extra t => "Extra token `" ++ t ++ "`"
  | unexpected t => "Unexpected token `" ++ t ++ "`"
  | operandExpected => "Expected an operand"
  | neverClosed o => "`" ++ o.bracket.openingText ++ "` is never closed"
  | tooDeep => "Expression is nested too deeply"

/-- A parse that gave up. -/
structure Rejection where
  cause : Rejection.Cause
  /-- The tokens from the first impossible one on. -/
  unread : List Token

/-- A parse error and the offset that it is reported at. -/
structure ParseError where
  cause : Rejection.Cause
  position : Option Nat

def ParseError.message (e : ParseError) : String := e.cause.message

def ParseError.report (e : ParseError) : String :=
  match e.position with
  | some n => e.message ++ " @ " ++ toString n
  | none => e.message

namespace Rejection

/-- The offset that a rejection is reported at, for a script that ends at a given offset. -/
def position (r : Rejection) (scriptEnd : Nat) : Option Nat :=
  match r.cause with
  | .tooDeep => none
  | .neverClosed o => some o.start
  | _ => some ((r.unread.head?.map (·.start)).getD scriptEnd)

def toError (r : Rejection) (scriptEnd : Nat) : ParseError := ⟨r.cause, r.position scriptEnd⟩

end Rejection

namespace Parse

/-- A parser of one kind of operand: from the open brackets, innermost first, and the tokens left
to a tree and the tokens behind it. -/
abbrev Step := List Opener → List Token → Except Rejection (Expr × List Token)

def reject {α : Type} (cause : Rejection.Cause) (unread : List Token) : Except Rejection α :=
  .error ⟨cause, unread⟩

def isOpen (opens : List Opener) (b : Bracket) : Bool := opens.any (·.bracket == b)

/-- Gives up before a token behind a complete tree. -/
def rejectExtra {α : Type} (opens : List Opener) (t : Token) (rest : List Token) :
    Except Rejection α :=
  match t.lexeme with
  | .symbol (.closing b) =>
    if isOpen opens b then reject (.extra t.text) (t :: rest) else reject (.unmatched b) (t :: rest)
  | _ => reject (.extra t.text) (t :: rest)

/-! ## Binary and unary levels -/

/-- The operator of a level that comes next, and the tokens behind it. -/
def operatorAt? {α : Type} (ofSymbol? : Symbol → Option α) (levelOf : α → Nat) (level : Nat) :
    List Token → Option (α × List Token)
  | [] => none
  | t :: rest =>
    match t.lexeme with
    | .symbol s =>
      match ofSymbol? s with
      | some op => if levelOf op = level then some (op, rest) else none
      | none => none
    | _ => none

def binaryAt? (level : Nat) : List Token → Option (BinaryOp × List Token) :=
  operatorAt? BinaryOp.ofSymbol? BinaryOp.level level

def unaryAt? (level : Nat) : List Token → Option (UnaryOp × List Token) :=
  operatorAt? UnaryOp.ofSymbol? UnaryOp.level level

/-- Folds a run of operators of one level and their operands onto the tree on their left. The
first list of tokens bounds the length of the run. -/
def chain (level : Nat) (operand : Step) (opens : List Opener) :
    List Token → Expr → List Token → Except Rejection (Expr × List Token)
  | [], left, ts => .ok (left, ts)
  | _ :: bound, left, ts =>
    match binaryAt? level ts with
    | none => .ok (left, ts)
    | some (op, rest) =>
      match operand opens rest with
      | .error r => .error r
      | .ok (right, rest) => chain level operand opens bound (.binary op left right) rest

/-- A tree of binary operators below a level. -/
def binary (operand : Step) : Nat → Step
  | 0 => operand
  | level + 1 => fun opens ts =>
    match binary operand level opens ts with
    | .error r => .error r
    | .ok (left, rest) => chain level (binary operand level) opens rest left rest

/-- An operand behind unary operators below a level, each level at most once. -/
def unary (operand : Step) : Nat → Step
  | 0 => operand
  | level + 1 => fun opens ts =>
    match unaryAt? level ts with
    | none => unary operand level opens ts
    | some (op, rest) =>
      match unary operand level opens rest with
      | .error r => .error r
      | .ok (e, rest) => .ok (.unary op e, rest)

/-! ## Operands -/

/-- A tree behind an opening bracket, up to its closing bracket. -/
def enclosed (inner : Step) (opener : Opener) (opens : List Opener) (ts : List Token) :
    Except Rejection (Expr × List Token) :=
  match inner (opener :: opens) ts with
  | .error r => .error r
  | .ok (_, []) => reject (.neverClosed opener) []
  | .ok (e, t :: rest) =>
    match t.lexeme with
    | .symbol (.closing b) => if b = opener.bracket then .ok (e, rest) else rejectExtra opens t rest
    | _ => rejectExtra opens t rest

/-- What an opening bracket right behind a name makes of it: a call or an element. -/
def applied (inner : Step) (e : Expr) (opens : List Opener) (ts : List Token) :
    Except Rejection (Expr × List Token) :=
  match e, ts with
  | .ident name, t :: rest =>
    match t.lexeme with
    | .symbol (.opening .round) =>
      match enclosed inner ⟨.round, t.start⟩ opens rest with
      | .error r => .error r
      | .ok (argument, rest) => .ok (.call name argument, rest)
    | .symbol (.opening .square) =>
      match enclosed inner ⟨.square, t.start⟩ opens rest with
      | .error r => .error r
      | .ok (index, rest) => .ok (.element name index, rest)
    | _ => .ok (e, ts)
  | _, _ => .ok (e, ts)

/-- The tokens behind a closing square bracket, if one comes next. -/
def closingSquare? : List Token → Option (List Token)
  | [] => none
  | t :: rest =>
    match t.lexeme with
    | .symbol (.closing .square) => some rest
    | _ => none

/-- A bracket group as an operand. An empty pair of square brackets is the empty array; any other
group that holds just a name may be applied like the name. -/
def group (inner : Step) (opener : Opener) (opens : List Opener) (ts : List Token) :
    Except Rejection (Expr × List Token) :=
  match (if opener.bracket = .square then closingSquare? ts else none) with
  | some rest => .ok (.root .emptyArray, rest)
  | none =>
    match enclosed inner opener opens ts with
    | .error r => .error r
    | .ok (e, rest) => applied inner e opens rest

def primary (inner : Step) : Step
  | _, [] => reject .operandExpected []
  | opens, t :: rest =>
    match t.lexeme with
    | .number _ value => .ok (.number value, rest)
    | .string _ value => .ok (.text value, rest)
    | .name name => applied inner (.ident name) opens rest
    | .symbol (.opening b) => group inner ⟨b, t.start⟩ opens rest
    | .symbol (.closing b) =>
      if isOpen opens b then reject (.unexpected t.text) (t :: rest)
      else reject (.unmatched b) (t :: rest)
    | .symbol s =>
      match Root.ofSymbol? s with
      | some r => .ok (.root r, rest)
      | none => reject (.unexpected t.text) (t :: rest)
    | _ => reject (.unexpected t.text) (t :: rest)

/-! ## Scripts -/

/-- A whole tree whose brackets nest less deeply than a limit. -/
def expression : Nat → Step
  | 0 => fun _ ts => reject .tooDeep ts
  | depth + 1 =>
    binary (unary (primary (expression depth)) UnaryOp.levels) BinaryOp.levels

/-- The tree that all of some significant tokens make up. -/
def whole (depth : Nat) (ts : List Token) : Except Rejection Expr :=
  match expression depth [] ts with
  | .error r => .error r
  | .ok (e, []) => .ok e
  | .ok (_, t :: rest) => rejectExtra [] t rest

end Parse

/-- How deeply the brackets of a script may nest. -/
def nestingLimit : Nat := 1200

namespace Expr

/-- The tree of a list of tokens, layout left out, if its brackets nest less deeply than a limit. -/
def ofTokensWithin (limit : Nat) (tokens : List Token) : Except ParseError Expr :=
  match Parse.whole limit (Token.significant tokens) with
  | .ok e => .ok e
  | .error r => .error (r.toError (Token.endOf tokens))

def ofTokens (tokens : List Token) : Except ParseError Expr := ofTokensWithin nestingLimit tokens

/-- The tree of a script. -/
def parse (source : String) : Except ParseError Expr := ofTokens (Token.scan source)

end Expr

end Scriptlet
