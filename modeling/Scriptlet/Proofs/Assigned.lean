import Scriptlet.Proofs.Closed

/-!
# Assignments to containers

An assignment to a member or to an element evaluates its right side, then the part of its target
that has to be evaluated, and then writes once (`assign_eq_ok`). Together with the growth of all
containers this is what an evaluation does to them (`containers_grow`).
-/

namespace Scriptlet

namespace Eval

/-- The container and the index that an assignment to a member or an element writes to. No other
target has any. -/
def place (eval : Expr → Run Value) : Expr → Option (Run (Value × Value))
  | .binary .member container (.ident key) => some do
    let c ← eval container
    return (c, .text key)
  | .element name index => some do
    let i ← eval index
    let c ← Run.get name
    return (c, i)
  | _ => none

variable {f : Expr → Run Value} {target : Expr} {x : Run (Value × Value)}

theorem write_of_place (h : place f target = some x) (v : Value) :
    Eval.write f v target = x >>= fun (c, i) => Run.setItem c i v := by
  unfold place at h
  split at h
  · cases h
    simp [Eval.write]
  · cases h
    simp [Eval.write]
  · cases h

theorem assign_of_place (h : place f target = some x) (e : Expr) :
    Eval.assign f target e = (do
      let v ← f e
      let (c, i) ← x
      Run.setItem c i v
      return v) := by
  have hcall (n : String) (a : Expr) : target ≠ .call n a := by
    rintro rfl
    cases h
  simp only [assign_of_ne_call hcall, write_of_place h, bind_assoc]

end Eval

/-- An assignment to a container that comes to a value has evaluated its right side and the parts of
its target, and has written that value to one slot. -/
theorem assign_eq_ok {rounds depth : Nat} {target e : Expr} {x : Run (Value × Value)}
    (hx : Eval.place (eval rounds depth) target = some x) {s t : Session} {v : Value}
    (h : eval rounds (depth + 1) (.binary .assign target e) s = .ok v t) :
    ∃ u w c i slot, eval rounds depth e s = .ok v u ∧ x u = .ok (c, i) w ∧
      w.store.slot c i = .ok slot ∧ t = { w with store := w.store.write slot v } := by
  have node : eval rounds (depth + 1) (.binary .assign target e) =
      Eval.assign (eval rounds depth) target e := rfl
  rw [node, Eval.assign_of_place hx] at h
  obtain ⟨v', u, hv, h⟩ := Run.bind_eq_ok h
  obtain ⟨⟨c, i⟩, w, hw, h⟩ := Run.bind_eq_ok h
  obtain ⟨_, t', ht, h⟩ := Run.bind_eq_ok h
  cases h
  rw [Run.setItem_apply] at ht
  cases hslot : w.store.slot c i with
  | error e =>
    rw [hslot] at ht
    cases ht
  | ok slot =>
    rw [hslot] at ht
    cases ht
    exact ⟨u, w, c, i, slot, hv, hw, hslot, rfl⟩

theorem Session.Closed.place {rounds depth : Nat} {target : Expr} {x : Run (Value × Value)}
    (hx : Eval.place (eval rounds depth) target = some x) {s t : Session} (hs : s.Closed)
    {c i : Value} (h : x s = .ok (c, i) t) : t.store.Has c := by
  unfold Eval.place at hx
  split at hx
  · cases hx
    obtain ⟨c', t', hc, h⟩ := Run.bind_eq_ok h
    cases h
    exact (hs.eval_ok hc).2
  · cases hx
    obtain ⟨i', t', hi, h⟩ := Run.bind_eq_ok h
    cases h
    exact (hs.eval_ok hi).1.get _
  · cases hx

/-- However an evaluation ends, every array is still an array with no fewer items, every dictionary
is still one with all its keys, and no reference leads nowhere if none did before. An assignment to
a container that comes to a value changes one slot of one container right after the parts of it have
been evaluated: a position of an array or the one behind its end, or a key of a dictionary. -/
theorem containers_grow (limits : Limits) (s : Session) (e : Expr) :
    s.store.Grows (s.evaluateWithin limits e).2.store ∧
      (s.Closed → (s.evaluateWithin limits e).2.Closed) ∧
      ∀ (depth : Nat) (target : Expr) (x : Run (Value × Value)) (v : Value) (t : Session),
        Eval.place (eval limits.rounds depth) target = some x → s.Closed →
        eval limits.rounds (depth + 1) (.binary .assign target e) s = .ok v t →
        ∃ u w c i slot, eval limits.rounds depth e s = .ok v u ∧ x u = .ok (c, i) w ∧
          w.store.slot c i = .ok slot ∧ t = { w with store := w.store.write slot v } ∧
          Store.WrittenAt slot v w.store t.store := by
  refine ⟨?_, fun hs => hs.evaluateWithin limits e, fun depth target x v t hx hs h => ?_⟩
  · rw [evaluateWithin_snd]
    exact grows_eval limits.rounds limits.depth e s
  · obtain ⟨u, w, c, i, slot, hv, hw, hslot, rfl⟩ := assign_eq_ok hx h
    have hc : w.store.Has c := (hs.eval_ok hv).1.place hx hw
    exact ⟨u, w, c, i, slot, hv, hw, hslot, rfl, Store.writtenAt_write hc hslot v⟩

/-- A session with a name for an empty dictionary. -/
def Session.withDictionary : Session :=
  { Session.initial with store := (Store.empty.newDictionary ∅).2 }.set "d" (.dictionary 0)

theorem Session.closed_withDictionary : Session.withDictionary.Closed := by
  have hs : Session.Closed { Session.initial with store := (Store.empty.newDictionary ∅).2 } :=
    .grow (Session.Holds.initial _) (.newDictionary .empty ∅)
      (Session.Holds.initial _).store.newDictionary
  exact hs.set "d" (v := .dictionary 0) Nat.zero_lt_one

theorem containers_grow_member :
    Eval.place (eval 1 1) (.binary .member (.ident "d") (.ident "k")) =
        some (do return (← eval 1 1 (.ident "d"), .text "k")) ∧
      Session.withDictionary.Closed ∧
      ∃ t, eval 1 2 (.binary .assign (.binary .member (.ident "d") (.ident "k")) (.text "x"))
          Session.withDictionary = .ok (.text "x") t ∧
        ∃ w slot, Store.WrittenAt slot (.text "x") w t.store := by
  refine ⟨rfl, Session.closed_withDictionary, _, rfl, ?_⟩
  obtain ⟨-, w, -, -, slot, -, -, -, -, h⟩ := (containers_grow ⟨2, 1⟩ Session.withDictionary
    (.text "x")).2.2 1 (.binary .member (.ident "d") (.ident "k")) _ _ _ rfl
    Session.closed_withDictionary rfl
  exact ⟨w.store, slot, h⟩

end Scriptlet
