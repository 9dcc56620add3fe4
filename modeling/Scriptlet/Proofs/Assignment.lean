import Scriptlet.Proofs.Assigned

/-!
# Assignments write last

`Eval.Prepared f target e s p t`: before it writes, the assignment of `e` to `target` in the session
`s` comes to `p` in the session `t`, by means of an evaluation `f` of parts. It comes to a
destination and a value for it, or to the exit that it ends with. Nothing in the relation writes;
the session changes by what is evaluated and by that only.

* `Eval.assign_eq_iff`: an assignment is its preparation and, if that comes to a destination, one
  write (`Session.complete`).
* `Session.writtenAt_put`: the write changes one binding or one slot.
* `assign_writes_last`: both, for an assignment in a script.
-/

namespace Scriptlet

/-! ## Destinations -/

/-- What an assignment writes to. -/
inductive Destination where
  /-- A name in the newest frame. -/
  | name (name : String)
  /-- A place in a container. -/
  | slot (slot : Slot)

/-- The second scope binds a name to a value in its newest frame, and is the first one elsewhere. -/
structure Scope.BoundAt (name : String) (v : Value) (s t : Scope) : Prop where
  below : t.below = s.below
  here : t.top.get? name = some v
  others : ∀ n, n ≠ name → t.top.get? n = s.top.get? n
  names : t.top.names = if s.top.binds name then s.top.names else s.top.names ++ [name]

theorem Scope.boundAt_set (name : String) (v : Value) (s : Scope) :
    BoundAt name v s (s.set name v) where
  below := rfl
  here := Bindings.get?_set_self name v s.top
  others _ hn := Bindings.get?_set_of_ne hn v s.top
  names := Bindings.names_set name v s.top

namespace Session

def put (s : Session) : Destination → Value → Session
  | .name n, v => s.set n v
  | .slot slot, v => { s with store := s.store.write slot v }

/-- The second session holds a value at a destination, and is the first one elsewhere. -/
def WrittenAt (d : Destination) (v : Value) (s t : Session) : Prop :=
  match d with
  | .name n => Scope.BoundAt n v s.scope t.scope ∧ t = { s with scope := t.scope }
  | .slot slot => Store.WrittenAt slot v s.store t.store ∧ t = { s with store := t.store }

/-- The session has the container that a destination is in. -/
def HasDestination (s : Session) : Destination → Prop
  | .name _ => True
  | .slot slot => ∃ c i, s.store.Has c ∧ s.store.slot c i = .ok slot

theorem writtenAt_put {s : Session} {d : Destination} (h : s.HasDestination d) (v : Value) :
    WrittenAt d v s (s.put d v) := by
  cases d with
  | name n => exact ⟨Scope.boundAt_set n v s.scope, rfl⟩
  | slot slot =>
    obtain ⟨c, i, hc, hs⟩ := h
    exact ⟨Store.writtenAt_write hc hs v, rfl⟩

/-- The slot of a container for a value, or the error that there is none. -/
def aim (s : Session) (container index v : Value) : Except Exit (Destination × Value) :=
  match s.store.slot container index with
  | .ok slot => .ok (.slot slot, v)
  | .error e => .error (.error e)

/-- Ends an assignment: with a write, or with the exit that its preparation came to. -/
def complete (s : Session) :
    Except Exit (Destination × Value) → EStateM.Result Exit Session Value
  | .ok (d, v) => .ok v (s.put d v)
  | .error x => .error x s

end Session

/-- Something that a value can be assigned to. -/
def Expr.isPlace : Expr → Bool
  | .ident _ => true
  | .binary .member _ (.ident _) => true
  | .element _ _ => true
  | _ => false

namespace Eval

/-- What an assignment comes to before it writes. -/
inductive Prepared (f : Expr → Run Value) : Expr → Expr → Session →
    Except Exit (Destination × Value) → Session → Prop
  /-- The definition of a function. Nothing is evaluated. -/
  | definition {n p : String} {e : Expr} {s : Session} :
      Prepared f (.call n (.ident p)) e s (.ok (.name n, .function p e)) s
  /-- The definition of a function whose parameter is no name. Nothing is evaluated. -/
  | badParameter {n : String} {a e : Expr} {s : Session} : (∀ p, a ≠ .ident p) →
      Prepared f (.call n a) e s (.error (.error (.badTarget (.parameter n)))) s
  | exitInValue {target e : Expr} {s t : Session} {x : Exit} : (∀ n a, target ≠ .call n a) →
      f e s = .error x t → Prepared f target e s (.error x) t
  | name {n : String} {e : Expr} {s t : Session} {v : Value} :
      f e s = .ok v t → Prepared f (.ident n) e s (.ok (.name n, v)) t
  | exitInContainer {c e : Expr} {key : String} {s t u : Session} {v : Value} {x : Exit} :
      f e s = .ok v t → f c t = .error x u →
      Prepared f (.binary .member c (.ident key)) e s (.error x) u
  | member {c e : Expr} {key : String} {s t u : Session} {v w : Value} :
      f e s = .ok v t → f c t = .ok w u →
      Prepared f (.binary .member c (.ident key)) e s (u.aim w (.text key) v) u
  | exitInIndex {n : String} {i e : Expr} {s t u : Session} {v : Value} {x : Exit} :
      f e s = .ok v t → f i t = .error x u → Prepared f (.element n i) e s (.error x) u
  /-- The container is looked up after the index was evaluated. -/
  | element {n : String} {i e : Expr} {s t u : Session} {v w : Value} :
      f e s = .ok v t → f i t = .ok w u →
      Prepared f (.element n i) e s (u.aim (u.scope.get n) w v) u
  /-- The target is nothing to assign to, which is noticed after the value was evaluated. -/
  | notAPlace {target e : Expr} {s t : Session} {v : Value} : (∀ n a, target ≠ .call n a) →
      target.isPlace = false → f e s = .ok v t →
      Prepared f target e s (.error (.error (.badTarget .notAssignable))) t

variable {f : Expr → Run Value} {target e : Expr} {s t : Session}
  {p : Except Exit (Destination × Value)}

theorem write_of_isPlace_eq_false (h : target.isPlace = false) (v : Value) :
    Eval.write f v target = Run.fail (.badTarget .notAssignable) := by
  unfold Eval.write
  split
  · cases h
  · cases h
  · cases h
  · rfl

theorem complete_of_write {u : Session} {c i v : Value}
    (h : Eval.write f v target t = Run.setItem c i v u) :
    (do Eval.write f v target; return v : Run Value) t = u.complete (u.aim c i v) := by
  rw [Run.bind_apply, h, Run.setItem_apply, Session.aim]
  cases u.store.slot c i with
  | ok slot => rfl
  | error e => rfl

/-- An assignment does what it has prepared. -/
theorem Prepared.assign_eq (h : Prepared f target e s p t) :
    Eval.assign f target e s = t.complete p := by
  cases h with
  | definition => rfl
  | @badParameter n a e s ha =>
    cases a with
    | ident p => exact absurd rfl (ha p)
    | _ => rfl
  | exitInValue htarget he =>
    rw [assign_of_ne_call htarget]
    exact Run.bind_of_error he
  | name he => exact Run.bind_of_ok he
  | exitInContainer he hc | exitInIndex he hc =>
    exact (Run.bind_of_ok he).trans (Run.bind_of_error (Run.bind_of_error hc))
  | member he hc => exact (Run.bind_of_ok he).trans (complete_of_write (Run.bind_of_ok hc))
  | element he hi =>
    refine (Run.bind_of_ok he).trans (complete_of_write ?_)
    exact (Run.bind_of_ok hi).trans (Run.bind_of_ok (Run.get_apply _ _))
  | notAPlace htarget hplace he =>
    rw [assign_of_ne_call htarget, Run.bind_of_ok he, write_of_isPlace_eq_false hplace]
    rfl

theorem exists_prepared (f : Expr → Run Value) (target e : Expr) (s : Session) :
    ∃ p t, Prepared f target e s p t := by
  by_cases hcall : ∃ n a, target = .call n a
  · obtain ⟨n, a, rfl⟩ := hcall
    by_cases ha : ∃ p, a = .ident p
    · obtain ⟨p, rfl⟩ := ha
      exact ⟨_, _, .definition⟩
    · exact ⟨_, _, .badParameter fun p hp => ha ⟨p, hp⟩⟩
  have htarget : ∀ n a, target ≠ .call n a := fun n a h => hcall ⟨n, a, h⟩
  -- the value comes first, even if there is nothing to assign it to
  cases he : f e s with
  | error x t => exact ⟨_, _, .exitInValue htarget he⟩
  | ok v t =>
    cases hplace : target.isPlace with
    | false => exact ⟨_, _, .notAPlace htarget hplace he⟩
    | true =>
      unfold Expr.isPlace at hplace
      split at hplace
      · exact ⟨_, _, .name he⟩
      · rename_i c _
        cases hc : f c t with
        | error x u => exact ⟨_, _, .exitInContainer he hc⟩
        | ok w u => exact ⟨_, _, .member he hc⟩
      · rename_i i
        cases hi : f i t with
        | error x u => exact ⟨_, _, .exitInIndex he hi⟩
        | ok w u => exact ⟨_, _, .element he hi⟩
      · cases hplace

theorem assign_eq_iff {r : EStateM.Result Exit Session Value} :
    Eval.assign f target e s = r ↔ ∃ p t, Prepared f target e s p t ∧ r = t.complete p := by
  constructor
  · rintro rfl
    obtain ⟨p, t, h⟩ := exists_prepared f target e s
    exact ⟨p, t, h, h.assign_eq⟩
  · rintro ⟨p, t, h, rfl⟩
    exact h.assign_eq

end Eval

theorem Session.hasDestination_of_aim {s : Session} {c i v v' : Value} {d : Destination}
    (hc : s.store.Has c) (h : s.aim c i v = .ok (d, v')) : s.HasDestination d := by
  unfold Session.aim at h
  split at h
  case h_1 slot hs =>
    cases h
    exact ⟨c, i, hc, hs⟩
  case h_2 => cases h

/-- The container of the destination is there, for no evaluation takes a container away. -/
theorem Session.Closed.hasDestination {rounds depth : Nat} {target e : Expr} {s t : Session}
    {d : Destination} {v : Value} (hs : s.Closed)
    (h : Eval.Prepared (eval rounds depth) target e s (.ok (d, v)) t) : t.HasDestination d := by
  generalize hp : Except.ok (d, v) = p at h
  cases h with
  | definition | name _ =>
    cases hp
    trivial
  | member he hc => exact hasDestination_of_aim ((hs.eval_ok he).1.eval_ok hc).2 hp.symm
  | element he hi => exact hasDestination_of_aim (((hs.eval_ok he).1.eval_ok hi).1.get _) hp.symm
  | _ => cases hp

/-- An assignment evaluates its value and then the part of its target that has to be evaluated, and
writes at the very end or not at all. However it exits, the session is as these evaluations have
left it. If it comes to a value, the write changes one binding of the newest frame or one slot of a
container, which then holds that value. -/
theorem assign_writes_last (rounds depth : Nat) (target e : Expr) (s : Session) :
    (∀ r, eval rounds (depth + 1) (.binary .assign target e) s = r ↔
      ∃ p t, Eval.Prepared (eval rounds depth) target e s p t ∧ r = t.complete p) ∧
      (s.Closed → ∀ d v t, Eval.Prepared (eval rounds depth) target e s (.ok (d, v)) t →
        Session.WrittenAt d v t (t.put d v)) :=
  ⟨fun _ => Eval.assign_eq_iff, fun hs _ v _ h => Session.writtenAt_put (hs.hasDestination h) v⟩

/-- An element of `d` whose index binds `k` to a key and stands for it. -/
def Expr.elementBehindBinding : Expr :=
  .element "d" (.binary .assign (.ident "k") (.text "key"))

/-- What the index binds is bound before the write, and the write is all that follows. -/
theorem assign_writes_last_element :
    Session.withDictionary.Closed ∧
      ∃ t, Eval.Prepared (eval 1 3) .elementBehindBinding (.text "x") Session.withDictionary
          (.ok (.slot (.entry 0 "key"), .text "x")) t ∧
        t.scope.get "k" = .text "key" ∧
        eval 1 4 (.binary .assign .elementBehindBinding (.text "x")) Session.withDictionary =
          .ok (.text "x") (t.put (.slot (.entry 0 "key")) (.text "x")) ∧
        Session.WrittenAt (.slot (.entry 0 "key")) (.text "x") t
          (t.put (.slot (.entry 0 "key")) (.text "x")) := by
  obtain ⟨hends, hwrites⟩ :=
    assign_writes_last 1 3 .elementBehindBinding (.text "x") Session.withDictionary
  have hp : Eval.Prepared (eval 1 3) .elementBehindBinding (.text "x") Session.withDictionary
      (.ok (.slot (.entry 0 "key"), .text "x")) (Session.withDictionary.set "k" (.text "key")) :=
    .element (t := Session.withDictionary) (u := Session.withDictionary.set "k" (.text "key"))
      (v := .text "x") (w := .text "key") rfl rfl
  exact ⟨Session.closed_withDictionary, _, hp, rfl, (hends _).2 ⟨_, _, hp, rfl⟩,
    hwrites Session.closed_withDictionary _ _ _ hp⟩

end Scriptlet
