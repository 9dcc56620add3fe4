import Scriptlet.Symbol

/-! # Expressions

The tree of a script, and the tables of its operators: what each one looks like and how tightly it
binds. Brackets leave no node.
-/

namespace Scriptlet

/-! ## Operators -/

/-- Operators on numbers; a sum also joins texts. -/
inductive Arithmetic where
  | add
  | subtract
  | multiply
  | divide
  | remainder
  | power
deriving DecidableEq

inductive Comparison where
  | equal
  | unequal
  | greater
  | less
  | greaterEqual
  | lessEqual
deriving DecidableEq

/-- Operators that take two values to a value. -/
inductive Operator where
  | arithmetic (op : Arithmetic)
  | comparison (op : Comparison)
deriving DecidableEq

/-- Everything that stands between two operands. -/
inductive BinaryOp where
  | operator (op : Operator)
  /-- An entry of a dictionary. -/
  | member
  /-- Binds a name, writes into a container or defines a function. -/
  | assign
  /-- Repeats the right side while the left side is true. -/
  | loop
  /-- Runs the right side if the left side is as wanted. -/
  | conditional (wanted : Bool)
  /-- What a conditional on the left does if its condition is not as wanted. -/
  | otherwise
  /-- First the left side, then the right side. -/
  | sequence
deriving DecidableEq

/-- Everything that stands before one operand. -/
inductive UnaryOp where
  | plus
  | minus
  | not
  /-- Ends the running function, or the program, with a value. -/
  | result
deriving DecidableEq

/-- The words that are expressions of their own. -/
inductive Root where
  | emptyArray
  | emptyDictionary
  /-- Leaves the innermost loop. -/
  | stop
deriving DecidableEq

def Arithmetic.symbol : Arithmetic → Symbol
  | add => .plus
  | subtract => .minus
  | multiply => .star
  | divide => .slash
  | remainder => .percent
  | power => .caret

def Comparison.symbol : Comparison → Symbol
  | equal => .equal
  | unequal => .bangEqual
  | greater => .greater
  | less => .less
  | greaterEqual => .greaterEqual
  | lessEqual => .lessEqual

namespace Operator

def symbol : Operator → Symbol
  | arithmetic op => op.symbol
  | comparison op => op.symbol

def text (op : Operator) : String := op.symbol.text

def ofSymbol? : Symbol → Option Operator
  | .plus => some (arithmetic .add)
  | .minus => some (arithmetic .subtract)
  | .star => some (arithmetic .multiply)
  | .slash => some (arithmetic .divide)
  | .percent => some (arithmetic .remainder)
  | .caret => some (arithmetic .power)
  | .equal => some (comparison .equal)
  | .bangEqual => some (comparison .unequal)
  | .greater => some (comparison .greater)
  | .less => some (comparison .less)
  | .greaterEqual => some (comparison .greaterEqual)
  | .lessEqual => some (comparison .lessEqual)
  | _ => none

theorem ofSymbol?_symbol (op : Operator) : ofSymbol? op.symbol = some op := by
  cases op with
  | arithmetic op | comparison op => cases op <;> rfl

end Operator

namespace BinaryOp

def symbol : BinaryOp → Symbol
  | operator op => op.symbol
  | member => .dot
  | assign => .colon
  | loop => .question
  | conditional true => .doubleQuestion
  | conditional false => .bangQuestion
  | otherwise => .doubleColon
  | sequence => .semicolon

def text (op : BinaryOp) : String := op.symbol.text

/-- The binary operator that a symbol between two operands stands for. -/
def ofSymbol? : Symbol → Option BinaryOp
  | .dot => some member
  | .colon => some assign
  | .question => some loop
  | .doubleQuestion => some (conditional true)
  | .bangQuestion => some (conditional false)
  | .doubleColon => some otherwise
  | .semicolon => some sequence
  | s => (Operator.ofSymbol? s).map operator

theorem ofSymbol?_symbol (op : BinaryOp) : ofSymbol? op.symbol = some op := by
  cases op with
  | operator op => cases op with
    | arithmetic op | comparison op => cases op <;> rfl
  | conditional wanted => cases wanted <;> rfl
  | _ => rfl

theorem ofSymbol?_eq_some_iff {s : Symbol} {op : BinaryOp} :
    ofSymbol? s = some op ↔ s = op.symbol := by
  refine ⟨fun h => ?_, fun h => by rw [h, ofSymbol?_symbol]⟩
  cases s <;> simp [ofSymbol?, Operator.ofSymbol?] at h <;> subst h <;> rfl

theorem symbol_injective {op op' : BinaryOp} (h : op.symbol = op'.symbol) : op = op' := by
  have h' := ofSymbol?_symbol op
  rw [h, ofSymbol?_symbol] at h'
  exact (Option.some.inj h').symm

theorem symbol_ne_opening (op : BinaryOp) (b : Bracket) : op.symbol ≠ .opening b := by
  intro h
  have h' := ofSymbol?_symbol op
  rw [h] at h'
  cases h'

theorem symbol_ne_closing (op : BinaryOp) (b : Bracket) : op.symbol ≠ .closing b := by
  intro h
  have h' := ofSymbol?_symbol op
  rw [h] at h'
  cases h'

/-- How loosely a binary operator binds. -/
def level : BinaryOp → Nat
  | member => 0
  | operator (.arithmetic .power) => 1
  | operator (.arithmetic .multiply) => 2
  | operator (.arithmetic .divide) => 2
  | operator (.arithmetic .remainder) => 2
  | operator (.arithmetic .add) => 3
  | operator (.arithmetic .subtract) => 3
  | operator (.comparison _) => 4
  | assign => 5
  | loop => 6
  | conditional _ => 6
  | otherwise => 6
  | sequence => 7

def levels : Nat := 8

end BinaryOp

namespace UnaryOp

def symbol : UnaryOp → Symbol
  | plus => .plus
  | minus => .minus
  | not => .bang
  | result => .doubleTilde

def text (op : UnaryOp) : String := op.symbol.text

/-- The unary operator that a symbol before an operand stands for. -/
def ofSymbol? : Symbol → Option UnaryOp
  | .plus => some plus
  | .minus => some minus
  | .bang => some not
  | .doubleTilde => some result
  | _ => none

theorem ofSymbol?_symbol (op : UnaryOp) : ofSymbol? op.symbol = some op := by
  cases op <;> rfl

theorem ofSymbol?_eq_some_iff {s : Symbol} {op : UnaryOp} :
    ofSymbol? s = some op ↔ s = op.symbol := by
  refine ⟨fun h => ?_, fun h => by rw [h, ofSymbol?_symbol]⟩
  cases s <;> simp [ofSymbol?] at h <;> subst h <;> rfl

theorem symbol_injective {op op' : UnaryOp} (h : op.symbol = op'.symbol) : op = op' := by
  have h' := ofSymbol?_symbol op
  rw [h, ofSymbol?_symbol] at h'
  exact (Option.some.inj h').symm

theorem symbol_ne_opening (op : UnaryOp) (b : Bracket) : op.symbol ≠ .opening b := by
  cases op <;> simp [symbol]

theorem symbol_ne_closing (op : UnaryOp) (b : Bracket) : op.symbol ≠ .closing b := by
  cases op <;> simp [symbol]

/-- How loosely a unary operator binds. It wraps only operands that bind more tightly. -/
def level : UnaryOp → Nat
  | plus => 0
  | minus => 0
  | not => 1
  | result => 2

def levels : Nat := 3

end UnaryOp

namespace Root

def symbol : Root → Symbol
  | emptyArray => .squarePair
  | emptyDictionary => .curlyPair
  | stop => .tilde

def text (r : Root) : String := r.symbol.text

def ofSymbol? : Symbol → Option Root
  | .squarePair => some emptyArray
  | .curlyPair => some emptyDictionary
  | .tilde => some stop
  | _ => none

theorem ofSymbol?_symbol (r : Root) : ofSymbol? r.symbol = some r := by
  cases r <;> rfl

theorem symbol_ne_opening (r : Root) (b : Bracket) : r.symbol ≠ .opening b := by
  cases r <;> simp [symbol]

theorem symbol_ne_closing (r : Root) (b : Bracket) : r.symbol ≠ .closing b := by
  cases r <;> simp [symbol]

theorem symbol_ne_unary (r : Root) (op : UnaryOp) : r.symbol ≠ op.symbol := by
  cases r <;> cases op <;> simp [symbol, UnaryOp.symbol]

theorem symbol_ne_binary (r : Root) (op : BinaryOp) : r.symbol ≠ op.symbol := by
  intro h
  have ho := BinaryOp.ofSymbol?_eq_some_iff.2 h
  cases r <;> cases ho

theorem ofSymbol?_eq_some_iff {s : Symbol} {r : Root} : ofSymbol? s = some r ↔ s = r.symbol := by
  refine ⟨fun h => ?_, fun h => by rw [h, ofSymbol?_symbol]⟩
  cases s <;> simp [ofSymbol?] at h <;> subst h <;> rfl

end Root

/-! ## Trees -/

/-- The written form of a tree: nested groups of texts and numbers. -/
inductive Form where
  | text (text : String)
  | number (value : Float)
  | group (items : List Form)

/-- The tree of a script. -/
inductive Expr where
  | number (value : Float)
  | text (value : String)
  | ident (name : String)
  | root (root : Root)
  | unary (op : UnaryOp) (operand : Expr)
  | binary (op : BinaryOp) (left right : Expr)
  /-- An element of the container that a name is bound to. -/
  | element (name : String) (index : Expr)
  /-- A call of the function that a name is bound to. -/
  | call (name : String) (argument : Expr)
  /-- A unary operator that no script has. It may stand in a tree that was built by hand. -/
  | strangeUnary (op : Form) (operand : Expr)
  /-- A binary operator that no script has. -/
  | strangeBinary (op : Form) (left right : Expr)
  /-- A form that no script has. -/
  | strange (form : Form)

end Scriptlet
