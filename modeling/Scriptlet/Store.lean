import Std.Data.TreeMap
import Scriptlet.EvalError

/-! # The store

The arrays and dictionaries of a session. A new container gets the next free address and is never
removed, and every reference of a session was given out by its store; an address that was not is
read as an empty container and written to without effect.
-/

namespace Scriptlet

/-- The entries of a dictionary, in the order of their keys. -/
abbrev Entries := Std.TreeMap String Value

/-- The containers of a session. -/
structure Store where
  arrays : Array (Array Value)
  dictionaries : Array Entries

/-- A place in a container that a value can be written to. -/
inductive Slot where
  /-- A position of an array, at most the one behind its last item. -/
  | item (address position : Nat)
  /-- A key of a dictionary. -/
  | entry (address : Nat) (key : String)

namespace Store

def empty : Store := ⟨#[], #[]⟩

def array (s : Store) (address : Nat) : Array Value := s.arrays[address]?.getD #[]

def dictionary (s : Store) (address : Nat) : Entries := s.dictionaries[address]?.getD ∅

def modifyArray (s : Store) (address : Nat) (f : Array Value → Array Value) : Store :=
  { s with arrays := s.arrays.modify address f }

def modifyDictionary (s : Store) (address : Nat) (f : Entries → Entries) : Store :=
  { s with dictionaries := s.dictionaries.modify address f }

def newArray (s : Store) (items : Array Value) : Value × Store :=
  (.array s.arrays.size, { s with arrays := s.arrays.push items })

def newDictionary (s : Store) (entries : Entries) : Value × Store :=
  (.dictionary s.dictionaries.size, { s with dictionaries := s.dictionaries.push entries })

/-! ## Items and entries -/

/-- The position that an index names, if it is a position of an array of a given size or, where
`atEnd` is set, the one right behind its last item. -/
def position? (size : Nat) (atEnd : Bool) (index : Float) : Option Nat :=
  match Double.truncate? index with
  | some (.ofNat n) => if n < size ∨ n = size ∧ atEnd then some n else none
  | _ => none

def getItem (s : Store) (container index : Value) : Except EvalError Value :=
  match container, index with
  | .dictionary a, .text key =>
    match (s.dictionary a)[key]? with
    | some v => .ok v
    | none => .error (.keyNotFound key)
  | .array a, .number i =>
    match position? (s.array a).size false i with
    | some n => .ok ((s.array a)[n]?.getD .null)
    | none => .error (.indexOutOfRange i)
  | c, i => .error (.mismatch (.notIndexed c.kind i.kind))

/-- The slot that a container has for an index. A dictionary has one for every key, an array for
the positions of its items and for the one behind them. -/
def slot (s : Store) (container index : Value) : Except EvalError Slot :=
  match container, index with
  | .dictionary a, .text key => .ok (.entry a key)
  | .array a, .number i =>
    match position? (s.array a).size true i with
    | some n => .ok (.item a n)
    | none => .error (.indexOutOfRange i)
  | c, i => .error (.mismatch (.notIndexed c.kind i.kind))

def write (s : Store) (slot : Slot) (value : Value) : Store :=
  match slot with
  | .entry a key => s.modifyDictionary a (·.insert key value)
  | .item a n =>
    s.modifyArray a fun items =>
      if n < items.size then items.setIfInBounds n value else items.push value

def setItem (s : Store) (container index value : Value) : Except EvalError Store := do
  return s.write (← s.slot container index) value

/-- The number of characters, items or entries of a value. -/
def length (s : Store) (v : Value) : Except EvalError Nat :=
  match v with
  | .text t => .ok t.length
  | .array a => .ok (s.array a).size
  | .dictionary a => .ok (s.dictionary a).size
  | v => .error (.mismatch (.noLength v.kind))

/-! ## Copies -/

/-- Copies a value that nests less deeply than a limit, with every container in it. A container
that stands in two places is copied twice. -/
def copyWithin : Nat → Value → StateT Store Option Value
  | 0, .array _ => fun _ => none
  | 0, .dictionary _ => fun _ => none
  | depth + 1, .array a => do
    let items ← ((← get).array a).toList.mapM (copyWithin depth)
    modifyGet (·.newArray items.toArray)
  | depth + 1, .dictionary a => do
    let entries ← ((← get).dictionary a).toList.mapM fun (key, v) => do
      return (key, ← copyWithin depth v)
    modifyGet (·.newDictionary (.ofList entries))
  | _, v => pure v

/-- The number of containers. Values without a cycle nest no more deeply. -/
def size (s : Store) : Nat := s.arrays.size + s.dictionaries.size

/-- A deep copy of a value; nothing if the value contains itself. -/
def copy? (s : Store) (v : Value) : Option (Value × Store) := copyWithin s.size v s

end Store

end Scriptlet
