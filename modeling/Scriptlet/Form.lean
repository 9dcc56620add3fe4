import Scriptlet.Double.Layout
import Scriptlet.Expr
import Scriptlet.Text.Quoted

/-! # The written form of a tree

A tree is shown as nested groups: its kind, its operator or name, and its parts. `Expr.form` writes
a tree as a form and `Expr.ofForm` reads it back; a form that is no tree is kept as it is.
-/

namespace Scriptlet

/-! ## Trees as forms -/

namespace Expr

def form : Expr → Form
  | number x => .group [.text "literal", .number x]
  | text s => .group [.text "literal", .text s]
  | ident name => .group [.text "ident", .text name]
  | root r => .group [.text "root", .text r.text]
  | unary op e => .group [.text "unary", .text op.text, e.form]
  | binary op l r => .group [.text "binary", .text op.text, l.form, r.form]
  | element name index => .group [.text "deref", .text name, index.form]
  | call name argument => .group [.text "invoke", .text name, argument.form]
  | strangeUnary op e => .group [.text "unary", op, e.form]
  | strangeBinary op l r => .group [.text "binary", op, l.form, r.form]
  | strange f => f

end Expr

/-- The symbol that is written as a given text. -/
def Symbol.ofText? (s : String) : Option Symbol :=
  match s.toList with
  | [] => none
  | c :: cs =>
    match Symbol.read? c cs with
    | some (symbol, []) => some symbol
    | _ => none

/-- The symbol that a form names. -/
def Form.symbol? : Form → Option Symbol
  | .text s => Symbol.ofText? s
  | _ => none

def Expr.ofForm : Form → Expr
  | .group [.text "literal", .number x] => .number x
  | .group [.text "literal", .text s] => .text s
  | .group [.text "ident", .text name] => .ident name
  | .group [.text "root", r] =>
    match r.symbol?.bind Root.ofSymbol? with
    | some r => .root r
    | none => .strange (.group [.text "root", r])
  | .group [.text "unary", op, e] =>
    match op.symbol?.bind UnaryOp.ofSymbol? with
    | some op => .unary op (ofForm e)
    | none => .strangeUnary op (ofForm e)
  | .group [.text "binary", op, l, r] =>
    match op.symbol?.bind BinaryOp.ofSymbol? with
    | some op => .binary op (ofForm l) (ofForm r)
    | none => .strangeBinary op (ofForm l) (ofForm r)
  | .group [.text "deref", .text name, index] => .element name (ofForm index)
  | .group [.text "invoke", .text name, argument] => .call name (ofForm argument)
  | f => .strange f

/-! ## Forms as text -/

namespace Form

mutual

/-- A form on one line in front of a text: groups in round brackets, a group of one with a comma
behind it, texts in quotes. -/
def lineBefore : Form → List Char → List Char
  | .text s, rest => Text.quoteChars s.toList ++ rest
  | .number x, rest => Double.Layout.literal.text x ++ rest
  | .group [], rest => '(' :: ')' :: rest
  | .group [f], rest => '(' :: f.lineBefore (',' :: ')' :: rest)
  | .group (f :: fs), rest => '(' :: f.lineBefore (lineTailBefore fs rest)

/-- The items behind the first one of a group on one line, and its closing bracket, in front of a
text. -/
def lineTailBefore : List Form → List Char → List Char
  | [], rest => ')' :: rest
  | f :: fs, rest => ',' :: ' ' :: f.lineBefore (lineTailBefore fs rest)

end

def line (f : Form) : List Char := f.lineBefore []

def oneLine (f : Form) : String := .ofList f.line

mutual

theorem lineBefore_append (f : Form) (s t : List Char) :
    f.lineBefore s ++ t = f.lineBefore (s ++ t) := by
  match f with
  | .text s => simp [lineBefore]
  | .number x => simp [lineBefore]
  | .group [] => simp [lineBefore]
  | .group [f] => simp [lineBefore, lineBefore_append f]
  | .group (f :: g :: fs) =>
    simp [lineBefore, lineBefore_append f, lineTailBefore_append (g :: fs)]

theorem lineTailBefore_append (fs : List Form) (s t : List Char) :
    lineTailBefore fs s ++ t = lineTailBefore fs (s ++ t) := by
  match fs with
  | [] => simp [lineTailBefore]
  | f :: fs => simp [lineTailBefore, lineBefore_append f, lineTailBefore_append fs]

end

/-- Writing a form in front of a text puts its characters there. -/
theorem lineBefore_eq (f : Form) (rest : List Char) : f.lineBefore rest = f.line ++ rest :=
  (lineBefore_append f [] rest).symm

/-- A form inside a message: a text as it is, anything else on one line. -/
def plain : Form → String
  | .text s => s
  | f => f.oneLine

end Form

end Scriptlet
