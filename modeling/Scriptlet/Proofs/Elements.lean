import Scriptlet.Proofs.Assigned
import Scriptlet.Proofs.Invariant
import Scriptlet.Proofs.Items
import Scriptlet.Proofs.View

/-!
# Elements that are read and written

An element has the same form as a target and as a value, but its container is looked up behind the
index where it is written, and in front of the index where it is read. The two come to one slot as
long as the name of the container is bound to the same value in both places
(`element_read_where_written`), and that it is as long as the index does not bind it
(`scope_get_of_not_rebinds`): calls, writes and other names make no difference. An index that binds
the name sends the two to different containers (`element_read_elsewhere`).
-/

namespace Scriptlet

/-! ## Slots -/

/-- What a slot holds. There is nothing behind the last item of an array and for a key that a
dictionary does not have. -/
def Store.content? (s : Store) : Slot → Option Value
  | .item a n => (s.array a)[n]?
  | .entry a key => (s.dictionary a)[key]?

/-- The result is that of reading a slot: what it holds, or the error that there is nothing. -/
def Session.ReadsAt (s : Session) (slot : Slot) (r : EStateM.Result Exit Session Value) : Prop :=
  match s.store.content? slot with
  | some v => r = .ok v s
  | none => (∃ x, r = .error (.error (.indexOutOfRange x)) s) ∨
      ∃ key, r = .error (.error (.keyNotFound key)) s

/-- Where there is a slot to write to, a read is one of that slot. -/
theorem Session.readsAt_getItem {s : Session} {c i : Value} {slot : Slot}
    (h : s.store.slot c i = .ok slot) : s.ReadsAt slot (Run.getItem c i s) := by
  rw [ReadsAt, Run.getItem_apply]
  obtain ⟨a, key, rfl, rfl, rfl⟩ | ⟨a, x, n, rfl, rfl, rfl, hx, hn⟩ := Store.slot_cases h
  · rw [Store.getItem_dictionary, Store.content?]
    cases (s.store.dictionary a)[key]? with
    | some v => rfl
    | none => exact .inr ⟨key, rfl⟩
  · rw [Store.getItem_array, Store.content?]
    rcases Nat.lt_or_eq_of_le hn with hlt | rfl
    · rw [Store.position?_eq_some_iff.2 ⟨hx, .inl hlt⟩]
      simp [hlt]
    · have hnone : Store.position? (s.store.array a).size false x = none := by
        refine Option.eq_none_iff_forall_ne_some.2 fun m hm => ?_
        obtain ⟨hm, hlt⟩ := Store.position?_eq_some_iff.1 hm
        have := hm.unique hx
        simp at hlt
        omega
      rw [hnone]
      simp

/-! ## Names that stay bound -/

/-- The evaluation of the tree may bind a name in the frame that it starts in: an assignment to the
name or the definition of a function with that name is among its parts. The body of a function is no
part of the tree that defines or calls it. -/
inductive Expr.Rebinds (name : String) : Expr → Prop
  | assign (e : Expr) : Rebinds name (.binary .assign (.ident name) e)
  | define (p : String) (body : Expr) : Rebinds name (.binary .assign (.call name (.ident p)) body)
  | part {e p : Expr} : p ∈ e.parts → Rebinds name p → Rebinds name e

theorem Expr.not_rebinds {name : String} {e : Expr}
    (hassign : ∀ r, e ≠ .binary .assign (.ident name) r)
    (hdefine : ∀ p b, e ≠ .binary .assign (.call name (.ident p)) b)
    (hparts : ∀ p ∈ e.parts, ¬ p.Rebinds name) : ¬ e.Rebinds name := by
  intro h
  cases h with
  | assign r => exact hassign r rfl
  | define p b => exact hdefine p b rfl
  | part hp h => exact hparts _ hp h

/-- Trees that do not bind the name leave it bound to its value. A call may bind it in its own
frame, which is gone when the call has ended. -/
def keepsBinding (name : String) (v : Value) : Invariant where
  name n := n ≠ name
  tree e := ¬ e.Rebinds name
  value _ := True
  exit _ := True
  session s := s.scope.get name = v
  part he hp h := he (.part hp h)
  target h hn := h (hn ▸ .assign _)
  definition h := ⟨fun hn => h (hn ▸ .define _ _), trivial⟩
  plain _ := trivial
  error _ := trivial
  unfinished := trivial
  stop _ := trivial
  result _ _ := trivial
  notATree _ := trivial
  noSuchOperator _ := trivial
  get _ _ := trivial
  item _ _ := trivial
  set {s n w} hs hn _ := ((s.scope.get_set n w name).trans (if_neg hn.symm)).trans hs
  write hs _ _ := hs
  newArray hs := hs
  newDictionary hs := hs
  writeLine _ hs := hs
  call {p b w x} hb _ _ _ s hs := by
    rw [enterFunction_apply (hb (s.callee p w))]
    cases x (s.callee p w) with
    | ok a t => exact ⟨trivial, hs⟩
    | error e t => cases e <;> exact ⟨trivial, hs⟩

theorem scope_get_of_not_rebinds {rounds depth : Nat} {name : String} {e : Expr} {s t : Session}
    {v : Value} (he : ¬ e.Rebinds name) (h : eval rounds depth e s = .ok v t) :
    t.scope.get name = s.scope.get name :=
  (((keepsBinding name (s.scope.get name)).eval rounds depth he).ok rfl h).2

/-! ## Elements -/

/-- A number or a text, which stands for itself. -/
def Expr.IsLiteral : Expr → Prop
  | number _ => True
  | text _ => True
  | _ => False

theorem eval_of_isLiteral {rounds depth : Nat} {e : Expr} (he : e.IsLiteral) {s t : Session}
    {v : Value} (h : eval rounds depth e s = .ok v t) : t = s := by
  cases depth with
  | zero => cases h
  | succ depth =>
    cases e with
    | number x | text x =>
      cases h
      rfl
    | _ => exact he.elim

/-- An assignment of a literal to an element that comes to a value has evaluated the index and has
then written to a slot of what the name was bound to by that time. Reading the element in the same
session evaluates the index in the same way and looks for its value in what the name was bound to
before. If that is the same, the two come to the same slot of the same container, whatever else the
index does, and it is the same if the index does not bind the name. -/
theorem element_read_where_written (rounds depth : Nat) (name : String) {index e : Expr}
    (he : e.IsLiteral) {s u : Session} {v : Value}
    (h : eval rounds (depth + 1) (.binary .assign (.element name index) e) s = .ok v u) :
    ∃ i t slot, eval rounds depth index s = .ok i t ∧
      t.store.slot (t.scope.get name) i = .ok slot ∧
      u = { t with store := t.store.write slot v } ∧
      (s.Closed → Store.WrittenAt slot v t.store u.store) ∧
      eval rounds (depth + 1) (.element name index) s = Run.getItem (s.scope.get name) i t ∧
      (t.scope.get name = s.scope.get name →
        t.ReadsAt slot (eval rounds (depth + 1) (.element name index) s)) ∧
      (¬ index.Rebinds name → t.scope.get name = s.scope.get name) := by
  obtain ⟨s', t, c, i, slot, hv, hplace, hslot, rfl⟩ := assign_eq_ok rfl h
  obtain rfl := eval_of_isLiteral he hv
  obtain ⟨i', t', hi, hplace⟩ := Run.bind_eq_ok hplace
  cases hplace
  have hread : eval rounds (depth + 1) (.element name index) s' =
      Run.getItem (s'.scope.get name) i t :=
    (Run.bind_of_ok (Run.get_apply s' name)).trans (Run.bind_of_ok hi)
  refine ⟨i, t, slot, hi, hslot, rfl, fun hs => ?_, hread, fun hsame => ?_, fun hn => ?_⟩
  · exact Store.writtenAt_write ((hs.eval_ok hi).1.get name) hslot v
  · rw [hread, ← hsame]
    exact Session.readsAt_getItem hslot
  · exact scope_get_of_not_rebinds hn hi

/-- An index that puts a value to a key of `d` and then stands for that key. -/
def Expr.storingIndex : Expr :=
  .binary .sequence (.binary .assign (.element "d" (.text "k")) (.text "y")) (.text "k")

theorem Expr.not_rebinds_storingIndex : ¬ storingIndex.Rebinds "d" := by
  have htext (s : String) : ¬ (text s).Rebinds "d" := not_rebinds nofun nofun nofun
  have helement : ¬ (element "d" (text "k")).Rebinds "d" :=
    not_rebinds nofun nofun (List.forall_mem_singleton.2 (htext "k"))
  have hassign : ¬ (binary .assign (element "d" (text "k")) (text "y")).Rebinds "d" :=
    not_rebinds nofun nofun
      (List.forall_mem_cons.2 ⟨helement, List.forall_mem_singleton.2 (htext "y")⟩)
  exact not_rebinds nofun nofun
    (List.forall_mem_cons.2 ⟨hassign, List.forall_mem_singleton.2 (htext "k")⟩)

/-- The value is written over the one that the index has put there, which is the one that a read
finds. -/
theorem element_read_where_written_inside :
    (Expr.text "x").IsLiteral ∧ ¬ Expr.storingIndex.Rebinds "d" ∧
      ∃ t u, eval 1 4 (.binary .assign (.element "d" .storingIndex) (.text "x"))
          Session.withDictionary = .ok (.text "x") u ∧
        t.ReadsAt (.entry 0 "k") (eval 1 4 (.element "d" .storingIndex) Session.withDictionary) ∧
        eval 1 4 (.element "d" .storingIndex) Session.withDictionary = .ok (.text "y") t := by
  have hliteral : (Expr.text "x").IsLiteral := trivial
  have hwritten : ∃ u, eval 1 4 (.binary .assign (.element "d" .storingIndex) (.text "x"))
      Session.withDictionary = .ok (.text "x") u := ⟨_, rfl⟩
  obtain ⟨u, hu⟩ := hwritten
  obtain ⟨i, t, slot, hi, hslot, -, -, -, hreads, hkept⟩ :=
    element_read_where_written 1 3 "d" hliteral hu
  cases hi
  cases hslot
  exact ⟨hliteral, Expr.not_rebinds_storingIndex, _, u, hu,
    hreads (hkept Expr.not_rebinds_storingIndex), rfl⟩

/-- An index that binds `d` to a new dictionary and then stands for a key. -/
def Expr.rebindingIndex : Expr :=
  .binary .sequence (.binary .assign (.ident "d") (.root .emptyDictionary)) (.text "k")

/-- Under an index that binds the name, the value is written to the new dictionary, and what is read
stands in the old one, where the index has put nothing. -/
theorem element_read_elsewhere :
    ¬ ∀ (name : String) (index e : Expr) (s u : Session) (v : Value), e.IsLiteral →
      eval 1 4 (.binary .assign (.element name index) e) s = .ok v u →
      ∃ i t slot, eval 1 3 index s = .ok i t ∧
        t.store.slot (t.scope.get name) i = .ok slot ∧
        u = { t with store := t.store.write slot v } ∧
        t.ReadsAt slot (eval 1 4 (.element name index) s) := by
  intro h
  let s : Session := { Session.withDictionary with
    store := Session.withDictionary.store.write (.entry 0 "k") (.text "old") }
  obtain ⟨i, t, slot, hi, hslot, -, hreads⟩ :=
    h "d" .rebindingIndex (.text "x") s _ _ trivial rfl
  cases hi
  cases hslot
  obtain ⟨x, hx⟩ | ⟨key, hkey⟩ := hreads
  · cases hx
  · cases hkey

end Scriptlet
