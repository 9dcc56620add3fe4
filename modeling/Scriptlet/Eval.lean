import Scriptlet.Form
import Scriptlet.Operation
import Scriptlet.Session

/-! # Evaluation

The value of a tree in a session. An evaluation that does not come to a value exits: by one of the
two escapes of the language, by an error, by a broken promise of the caller, or because it was cut
off. Whatever the exit, the session is left as it was at that moment, so nothing that was bound,
written or printed is undone, and the frame of a call is taken off again.

Two bounds make every evaluation finite. `depth` bounds how deeply evaluations nest; beyond it they
fail with `EvalError.tooDeep`. A run of statements and a run of value operators count as one level
however long they are. `rounds` bounds how often one loop may repeat; beyond it the evaluation is
`unfinished`, which says nothing about the script but that it was not run to its end.
-/

namespace Scriptlet

/-- A promise that a caller did not keep. No script breaks one. -/
inductive Defect where
  /-- A form that is no tree was to be evaluated. -/
  | notATree (form : Form)
  /-- An operator that does not exist was to be applied to numbers. -/
  | noSuchOperator (op : Form)
  /-- The last frame was to be left. -/
  | outermostScope

/-- How an evaluation ends without a value. -/
inductive Exit where
  /-- Leaves the innermost loop. -/
  | stop
  /-- Ends the running function, or the program, with a value. -/
  | result (value : Value)
  | error (error : EvalError)
  | defect (defect : Defect)
  | unfinished

def Defect.message : Defect → String
  | notATree f => "Unexpected expression @ evaluate(): " ++ f.plain
  | noSuchOperator op => "No operator " ++ op.plain
  | outermostScope => "Cannot leave the outermost scope @ leave_scope()"

/-- A computation in a session. -/
abbrev Run := EStateM Exit Session

namespace Run

def fail {α : Type} (e : EvalError) : Run α := throw (.error e)

/-- The value of something that does not depend on the session. -/
def ofExcept {α : Type} : Except EvalError α → Run α
  | .ok a => pure a
  | .error e => fail e

def get (name : String) : Run Value := return (← MonadState.get).scope.get name

def set (name : String) (v : Value) : Run Unit := modify (·.set name v)

def getItem (container index : Value) : Run Value := do
  ofExcept ((← MonadState.get).store.getItem container index)

def setItem (container index value : Value) : Run Unit := do
  let slot ← ofExcept ((← MonadState.get).store.slot container index)
  modify fun s => { s with store := s.store.write slot value }

/-- A new container without items or entries. -/
def newEmpty (new : Store → Value × Store) : Run Value :=
  modifyGet fun s => let (v, store) := new s.store; (v, { s with store })

/-- Runs a computation in a frame of its own, which is taken off again however it ends. -/
def inFrame {α : Type} (x : Run α) : Run α := fun s =>
  match x s.enter with
  | .ok a s =>
    match s.leave? with
    | some s => .ok a s
    | none => .error (.defect .outermostScope) s
  | .error e s =>
    match s.leave? with
    | some s => .error e s
    | none => .error (.defect .outermostScope) s

/-- Turns the escape from a loop into nothing. -/
def untilStop {α : Type} (x : Run α) : Run (Option α) := fun s =>
  match x s with
  | .ok a s => .ok (some a) s
  | .error .stop s => .ok none s
  | .error e s => .error e s

/-- Turns the escape from a function into its value. -/
def untilResult (x : Run Value) : Run Value := fun s =>
  match x s with
  | .error (.result v) s => .ok v s
  | r => r

end Run

namespace Builtin

def call : Builtin → Value → Run Value
  | print, v => do
    modify (·.writeLine v.display)
    return v
  | len, v => do
    let n ← Run.ofExcept ((← get).store.length v)
    return .number (Double.ofNat n)

end Builtin

namespace UnaryOp

def apply : UnaryOp → Value → Run Value
  | plus, v => do return .number (← Run.ofExcept v.toDouble)
  | minus, v => do return .number (-(← Run.ofExcept v.toDouble))
  | not, v => return .ofBool !v.isTrue
  | result, v => throw (.result v)

end UnaryOp

/-! ## Flattened trees -/

namespace Expr

/-- The statements of the sequence on the left edge of a tree, in front of later ones. -/
def statements : Expr → List Expr → Expr × List Expr
  | binary .sequence l r, later => statements l (r :: later)
  | e, later => (e, later)

/-- The first operand of the value operators on the left edge of a tree, and the operators with
their right operands, in front of later ones. -/
def operands : Expr → List (Operator × Expr) → Expr × List (Operator × Expr)
  | binary (.operator op) l r, later => operands l ((op, r) :: later)
  | e, later => (e, later)

end Expr

namespace Eval

/-- Evaluates one tree after the other; the value is that of the last one. -/
def inTurn (eval : Expr → Run Value) : Expr → List Expr → Run Value
  | e, [] => eval e
  | e, next :: later => do
    let _ ← eval e
    inTurn eval next later

/-- Applies operators to a value from the left, each to the value of its right operand, which is
evaluated just before. -/
def applyInTurn (eval : Expr → Run Value) : Value → List (Operator × Expr) → Run Value
  | left, [] => pure left
  | left, (op, e) :: later => do
    let right ← eval e
    let v ← Run.ofExcept (op.apply left right)
    applyInTurn eval v later

/-- Runs a body as long as a condition is true. The value is the last one of the condition. -/
def loop (condition body : Run Value) : Nat → Value → Run Value
  | 0, _ => throw .unfinished
  | rounds + 1, last => do
    match ← condition.untilStop with
    | none => return last
    | some c =>
      if c.isTrue then
        match ← body.untilStop with
        | none => return c
        | some _ => loop condition body rounds c
      else return c

/-- Evaluates a branch if a condition is as wanted, else the alternative. Without an alternative
the value is that of the condition. -/
def branch (eval : Expr → Run Value) (wanted : Bool) (condition body : Expr)
    (alternative : Option Expr) : Run Value := do
  let c ← eval condition
  if c.isTrue = wanted then eval body
  else
    match alternative with
    | some e => eval e
    | none => return c

def alternative (eval : Expr → Run Value) : Expr → Expr → Run Value
  | .binary (.conditional wanted) condition body, e => branch eval wanted condition body (some e)
  | _, _ => Run.fail .unboundElse

def member (eval : Expr → Run Value) (container key : Expr) : Run Value := do
  let c ← eval container
  match c, key with
  | .dictionary _, .ident name => Run.getItem c (.text name)
  | .dictionary _, _ => Run.fail (.mismatch .memberNotNamed)
  | _, _ => Run.fail (.mismatch (.noMember c.kind))

/-- Writes a value to the target of an assignment. A part of the target that has to be evaluated is
evaluated first. -/
def write (eval : Expr → Run Value) (v : Value) : Expr → Run Unit
  | .ident name => Run.set name v
  | .binary .member container (.ident key) => do
    let c ← eval container
    Run.setItem c (.text key) v
  | .element name index => do
    let i ← eval index
    let c ← Run.get name
    Run.setItem c i v
  | _ => Run.fail (.badTarget .notAssignable)

/-- Assigns to a target. A call with a name for its argument is the definition of a function, and
nothing is evaluated for it. -/
def assign (eval : Expr → Run Value) : Expr → Expr → Run Value
  | .call name (.ident parameter), body => do
    let f := .function parameter body
    Run.set name f
    return f
  | .call name _, _ => Run.fail (.badTarget (.parameter name))
  | target, e => do
    let v ← eval e
    write eval v target
    return v

/-- Reads an element. The container is looked up before the index is evaluated. -/
def element (eval : Expr → Run Value) (name : String) (index : Expr) : Run Value := do
  let c ← Run.get name
  let i ← eval index
  Run.getItem c i

/-- Calls a function of the language: its body runs in a new frame that binds the parameter. -/
def enterFunction (parameter : String) (v : Value) (body : Run Value) : Run Value := do
  modify (·.record (.called parameter v))
  Run.inFrame (do
    Run.set parameter v
    body.untilResult)

/-- Calls what a name is bound to. The argument is evaluated before the name is looked up. -/
def call (eval : Expr → Run Value) (name : String) (argument : Expr) : Run Value := do
  let v ← eval argument
  match ← Run.get name with
  | .function parameter body => enterFunction parameter v (eval body)
  | .builtin b => b.call v
  | f => Run.fail (.notCallable f.kind name)

/-- Applies an operator that does not exist. The operands are looked at as for any other operator,
so a value without operators or without a number is reported first. -/
def applyStrange (op : Form) (left right : Value) : Run Value :=
  match left with
  | .number _ | .null | .text _ => do
    let _ ← Run.ofExcept left.toDouble
    let _ ← Run.ofExcept right.toDouble
    throw (.defect (.noSuchOperator op))
  | v => Run.fail (.mismatch (.noOperator op.plain v.kind))

/-- Evaluates a tree whose operator is given, by means of an evaluation of its parts. -/
def binary (rounds : Nat) (eval : Expr → Run Value) : BinaryOp → Expr → Expr → Run Value
  | .sequence, l, r =>
    let (first, later) := l.statements [r]
    inTurn eval first later
  | .operator op, l, r => do
    let (first, later) := l.operands [(op, r)]
    let v ← eval first
    applyInTurn eval v later
  | .member, l, r => member eval l r
  | .assign, l, r => assign eval l r
  | .loop, l, r => loop (eval l) (eval r) rounds .null
  | .conditional wanted, l, r => branch eval wanted l r none
  | .otherwise, l, r => alternative eval l r

/-- The value of a tree, by means of an evaluation of its parts. -/
@[inline] def node (rounds : Nat) (eval : Expr → Run Value) : Expr → Run Value
  | .number x => return .number x
  | .text s => return .text s
  | .ident name => Run.get name
  | .root .emptyArray => Run.newEmpty (·.newArray #[])
  | .root .emptyDictionary => Run.newEmpty (·.newDictionary ∅)
  | .root .stop => throw .stop
  | .unary op e => do
    let v ← eval e
    op.apply v
  | .binary op l r => binary rounds eval op l r
  | .element name index => element eval name index
  | .call name argument => call eval name argument
  | .strangeUnary _ e => do
    let _ ← eval e
    return .null
  | .strangeBinary op l r => do
    let v ← eval l
    let w ← eval r
    applyStrange op v w
  | .strange f => throw (.defect (.notATree f))

end Eval

def eval (rounds : Nat) : Nat → Expr → Run Value
  | 0, _ => Run.fail .tooDeep
  | depth + 1, e => Eval.node rounds (eval rounds depth) e

end Scriptlet
