import Mathlib.Logic.Relation
import Scriptlet.Proofs.Items
import Scriptlet.Proofs.Values

/-!
# Positions in a value

What is seen of a value from outside: at each position, that is at the end of each way down through
items and entries, the shape of the value there (`Store.read`). Where the containers come from and
whether one of them stands in two places is not seen.

`Store.Change target value s t`: the store `t` is one step later than `s`, where a step makes a new
container or writes one of certain values to one of certain containers.

* `read_of_untouched`: what is seen of a value stays, as long as none of its containers is written
  to.
* `valueAt?_of_changes`: writes of values that are no containers put no container to a new position.
-/

namespace Scriptlet

/-- One step down from a container to a value in it. -/
inductive Step where
  | item (position : Nat)
  | entry (key : String)

/-- What a value is, apart from the values in it and from where it is stored. -/
inductive Shape where
  | plain (value : Value)
  | array (size : Nat)
  | dictionary (keys : List String)

namespace Value

def IsContainer : Value → Prop
  | array _ | dictionary _ => True
  | _ => False

end Value

namespace Store

def shape (s : Store) : Value → Shape
  | .array a => .array (s.array a).size
  | .dictionary a => .dictionary (s.dictionary a).keys
  | v => .plain v

def child? (s : Store) : Value → Step → Option Value
  | .array a, .item n => (s.array a)[n]?
  | .dictionary a, .entry key => (s.dictionary a)[key]?
  | _, _ => none

/-- The value at the end of a way down. -/
def valueAt? (s : Store) (v : Value) (p : List Step) : Option Value := p.foldlM s.child? v

/-- What is seen at the end of a way down. -/
def read (s : Store) (v : Value) (p : List Step) : Option Shape := (s.valueAt? v p).map s.shape

section
variable {s t u : Store} {v w c x : Value} {k : Step} {p q : List Step}

theorem valueAt?_cons (s : Store) (v : Value) (k : Step) (p : List Step) :
    s.valueAt? v (k :: p) = (s.child? v k).bind fun x => s.valueAt? x p := by
  rw [valueAt?, List.foldlM_cons]
  rfl

theorem valueAt?_cons_eq_some :
    s.valueAt? v (k :: p) = some c ↔ ∃ x, s.child? v k = some x ∧ s.valueAt? x p = some c := by
  rw [valueAt?_cons, Option.bind_eq_some_iff]

theorem valueAt?_append (s : Store) (v : Value) (p q : List Step) :
    s.valueAt? v (p ++ q) = (s.valueAt? v p).bind fun x => s.valueAt? x q := by
  rw [valueAt?, List.foldlM_append]
  rfl

/-- There is a way down only from containers. -/
theorem isContainer_of_child? (h : s.child? c k = some x) : c.IsContainer := by
  cases c with
  | array a | dictionary a => trivial
  | _ => cases h

theorem eq_of_not_isContainer (hc : ¬ c.IsContainer) (h : s.valueAt? c p = some x) : x = c := by
  cases p with
  | nil => exact (Option.some.inj h).symm
  | cons k p =>
    obtain ⟨y, hy, -⟩ := valueAt?_cons_eq_some.1 h
    exact absurd (isContainer_of_child? hy) hc

/-! ## The same contents -/

/-- The container holds in the second store what it holds in the first one. -/
structure Same (s t : Store) (c : Value) : Prop where
  shape : t.shape c = s.shape c
  child : ∀ k, t.child? c k = s.child? c k

theorem Same.trans (h : s.Same t c) (h' : t.Same u c) : s.Same u c :=
  ⟨h'.shape.trans h.shape, fun k => (h'.child k).trans (h.child k)⟩

theorem Same.refl (s : Store) (c : Value) : s.Same s c := ⟨rfl, fun _ => rfl⟩

theorem same_of_not_isContainer (h : ¬ c.IsContainer) : s.Same t c := by
  cases c with
  | array a | dictionary a => exact absurd trivial h
  | _ => exact ⟨rfl, fun _ => rfl⟩

theorem same_of_array {a : Nat} (h : t.array a = s.array a) : s.Same t (.array a) := by
  refine ⟨by rw [shape, shape, h], fun k => ?_⟩
  cases k with
  | item n => rw [child?, child?, h]
  | entry key => rfl

theorem same_of_dictionary {a : Nat} (h : t.dictionary a = s.dictionary a) :
    s.Same t (.dictionary a) := by
  refine ⟨by rw [shape, shape, h], fun k => ?_⟩
  cases k with
  | item n => rfl
  | entry key => rw [child?, child?, h]

theorem valueAt?_of_same (h : ∀ p c, s.valueAt? v p = some c → s.Same t c) :
    t.valueAt? v p = s.valueAt? v p := by
  induction p generalizing v with
  | nil => rfl
  | cons k p ih =>
    rw [valueAt?_cons, valueAt?_cons, (h [] v rfl).child k]
    cases hx : s.child? v k with
    | none => rfl
    | some x => exact ih fun q c hq => h (k :: q) c (valueAt?_cons_eq_some.2 ⟨x, hx, hq⟩)

/-- A value looks the same in both stores if all containers in it hold the same. -/
theorem read_of_same (h : ∀ p c, s.valueAt? v p = some c → s.Same t c) : t.read v = s.read v := by
  funext p
  rw [read, read, valueAt?_of_same h]
  cases hx : s.valueAt? v p with
  | none => rfl
  | some x => exact congrArg some (h p x hx).shape

/-! ## Containers that are there -/

/-- Every container in the value is in the store. -/
def Within (s : Store) (v : Value) : Prop := ∀ p c, s.valueAt? v p = some c → s.Has c

theorem holds_iff_child? {V : Value → Prop} :
    s.Holds V ↔ ∀ c k x, s.child? c k = some x → V x := by
  constructor
  · intro hs c k x h
    cases c with
    | array a =>
      cases k with
      | item n => exact hs.items a x (Array.mem_of_getElem? h)
      | entry key => cases h
    | dictionary a =>
      cases k with
      | item n => cases h
      | entry key => exact hs.entries a key x h
    | _ => cases h
  · intro h
    refine ⟨fun a x hx => ?_, fun a key x hx => h (.dictionary a) (.entry key) x hx⟩
    obtain ⟨n, hn⟩ := Array.getElem?_of_mem hx
    exact h (.array a) (.item n) x hn

theorem Holds.within (hs : s.Holds s.Has) (hv : s.Has v) : s.Within v := by
  intro p c h
  induction p generalizing v with
  | nil => exact Option.some.inj h ▸ hv
  | cons k p ih =>
    obtain ⟨x, hx, hp⟩ := valueAt?_cons_eq_some.1 h
    exact ih (holds_iff_child?.1 hs v k x hx) hp

theorem Within.has (h : s.Within v) : s.Has v := h [] v rfl

theorem Within.child (h : s.Within v) (hx : s.child? v k = some x) : s.Within x :=
  fun p c hp => h (k :: p) c (valueAt?_cons_eq_some.2 ⟨x, hx, hp⟩)

/-- Every container of the first store is in the second one, with the same contents. -/
structure Extends (s t : Store) : Prop where
  arrays : Kept Eq s.arrays t.arrays
  dictionaries : Kept Eq s.dictionaries t.dictionaries

namespace Extends

theorem refl (s : Store) : s.Extends s := ⟨.refl (fun _ => rfl) _, .refl (fun _ => rfl) _⟩

theorem trans (h : s.Extends t) (h' : t.Extends u) : s.Extends u :=
  ⟨Kept.trans (R := Eq) (fun _ _ _ => Eq.trans) h.arrays h'.arrays,
    Kept.trans (R := Eq) (fun _ _ _ => Eq.trans) h.dictionaries h'.dictionaries⟩

theorem newArray (s : Store) (items : Array Value) : s.Extends (s.newArray items).2 :=
  ⟨.push (fun _ => rfl) _ _, .refl (fun _ => rfl) _⟩

theorem newDictionary (s : Store) (entries : Entries) : s.Extends (s.newDictionary entries).2 :=
  ⟨.refl (fun _ => rfl) _, .push (fun _ => rfl) _ _⟩

theorem grows (h : s.Extends t) : s.Grows t where
  arrays a xs hx := by
    obtain ⟨ys, hy, rfl⟩ := h.arrays a xs hx
    exact ⟨xs, hy, Nat.le_refl _⟩
  dictionaries a d hd := by
    obtain ⟨e, he, rfl⟩ := h.dictionaries a d hd
    exact ⟨d, he, fun _ => id⟩

theorem array {a : Nat} (h : s.Extends t) (ha : s.Has (.array a)) : t.array a = s.array a := by
  have hx : s.arrays[a]? = some s.arrays[a] := Array.getElem?_eq_getElem ha
  obtain ⟨ys, hy, rfl⟩ := h.arrays a _ hx
  rw [Store.array, Store.array, hx, hy]

theorem dictionary {a : Nat} (h : s.Extends t) (ha : s.Has (.dictionary a)) :
    t.dictionary a = s.dictionary a := by
  have hx : s.dictionaries[a]? = some s.dictionaries[a] := Array.getElem?_eq_getElem ha
  obtain ⟨ys, hy, rfl⟩ := h.dictionaries a _ hx
  rw [Store.dictionary, Store.dictionary, hx, hy]

theorem same (h : s.Extends t) (hc : s.Has c) : s.Same t c := by
  cases c with
  | array a => exact same_of_array (h.array hc)
  | dictionary a => exact same_of_dictionary (h.dictionary hc)
  | _ => exact same_of_not_isContainer id

theorem valueAt? (h : s.Extends t) (hv : s.Within v) : t.valueAt? v p = s.valueAt? v p :=
  valueAt?_of_same fun p c hp => h.same (hv p c hp)

theorem read (h : s.Extends t) (hv : s.Within v) : t.read v = s.read v :=
  read_of_same fun p c hp => h.same (hv p c hp)

theorem within (h : s.Extends t) (hv : s.Within v) : t.Within v := by
  intro p c hp
  rw [h.valueAt? hv] at hp
  exact h.grows.has (hv p c hp)

end Extends

end

/-! ## Changes -/

/-- The second store is one step later than the first one. A step makes a new container, or writes
one of certain values to one of certain containers. -/
inductive Change (target : Store → Value → Prop) (value : Value → Prop) : Store → Store → Prop
  | write {s t : Store} {c i v : Value} : s.Has c → target s c → value v →
      s.setItem c i v = .ok t → Change target value s t
  | newArray (s : Store) (items : Array Value) : Change target value s (s.newArray items).2
  | newDictionary (s : Store) (entries : Entries) :
      Change target value s (s.newDictionary entries).2

/-- A write that succeeds finds a slot, and that is what it changes. -/
theorem exists_slot_of_setItem {s t : Store} {c i v : Value} (hc : s.Has c)
    (h : s.setItem c i v = .ok t) : ∃ slot, s.slot c i = .ok slot ∧ WrittenAt slot v s t := by
  cases hs : s.slot c i with
  | ok slot =>
    rw [setItem_of_slot hs] at h
    cases h
    exact ⟨slot, rfl, writtenAt_write hc hs v⟩
  | error e =>
    rw [setItem_of_error hs] at h
    cases h

section
variable {target : Store → Value → Prop} {value : Value → Prop} {s t u : Store} {c v w x : Value}

/-- What stands in a container behind a write stood there before, or is what was written. -/
theorem child?_of_writtenAt {slot : Slot} {i : Value} (hs : s.slot c i = .ok slot)
    (h : WrittenAt slot v s t) {k : Step} (hx : t.child? c k = some x) :
    s.child? c k = some x ∨ x = v := by
  obtain ⟨a, key, rfl, rfl, rfl⟩ | ⟨a, y, n, rfl, rfl, rfl, -⟩ := slot_cases hs
  · have hput := dictionary_of_changedAt h
    cases k with
    | item m => cases hx
    | entry l =>
      change (t.dictionary a)[l]? = some x at hx
      by_cases hl : l = key
      · rw [hl, hput.here] at hx
        exact .inr (Option.some.inj hx).symm
      · rw [hput.others l hl] at hx
        exact .inl hx
  · have hput := array_of_changedAt h
    cases k with
    | entry key => cases hx
    | item m =>
      change (t.array a)[m]? = some x at hx
      by_cases hm : m = n
      · rw [hm, hput.here] at hx
        exact .inr (Option.some.inj hx).symm
      · rw [hput.others m hm] at hx
        exact .inl hx

theorem same_of_setItem {i : Value} (hc : s.Has c) (h : s.setItem c i v = .ok t) (hx : x ≠ c) :
    s.Same t x := by
  obtain ⟨slot, hs, hw⟩ := exists_slot_of_setItem hc h
  obtain ⟨harrays, hdictionaries⟩ := others_of_writtenAt hs hw
  cases x with
  | array a => exact same_of_array (by rw [Store.array, Store.array, harrays a hx])
  | dictionary a =>
    exact same_of_dictionary (by rw [Store.dictionary, Store.dictionary, hdictionaries a hx])
  | _ => exact same_of_not_isContainer id

theorem isContainer_of_setItem {i : Value} (hc : s.Has c) (h : s.setItem c i v = .ok t) :
    c.IsContainer := by
  obtain ⟨slot, hs, -⟩ := exists_slot_of_setItem hc h
  obtain ⟨a, key, rfl, -⟩ | ⟨a, y, n, rfl, -⟩ := slot_cases hs <;> trivial

namespace Change

theorem grows (h : Change target value s t) : s.Grows t := by
  cases h with
  | @write t c i v hc _ _ ht =>
    cases hs : s.slot c i with
    | ok slot =>
      rw [setItem_of_slot hs] at ht
      cases ht
      exact .write s slot v
    | error e =>
      rw [setItem_of_error hs] at ht
      cases ht
  | newArray items => exact .newArray s items
  | newDictionary entries => exact .newDictionary s entries

/-- A container that is not written to stays as it is. -/
theorem same (h : Change target value s t) (hx : s.Has x) (hn : x.IsContainer → ¬ target s x) :
    s.Same t x := by
  cases h with
  | @write t c i v hc htarget _ ht =>
    refine same_of_setItem hc ht ?_
    rintro rfl
    exact hn (isContainer_of_setItem hc ht) htarget
  | newArray items => exact (Extends.newArray s items).same hx
  | newDictionary entries => exact (Extends.newDictionary s entries).same hx

/-- What stands in a container behind a change stood there before, or is one of the values that are
written. -/
theorem child? (h : Change target value s t) (hc : s.Has c) {k : Step}
    (hx : t.child? c k = some x) : s.child? c k = some x ∨ value x := by
  cases h with
  | @write t d i v hd htarget hv ht =>
    by_cases hcd : c = d
    · obtain ⟨slot, hs, hw⟩ := exists_slot_of_setItem hd ht
      subst hcd
      rcases child?_of_writtenAt hs hw hx with hx | rfl
      · exact .inl hx
      · exact .inr hv
    · rw [(same_of_setItem hd ht hcd).child k] at hx
      exact .inl hx
  | newArray items =>
    rw [((Extends.newArray s items).same hc).child k] at hx
    exact .inl hx
  | newDictionary entries =>
    rw [((Extends.newDictionary s entries).same hc).child k] at hx
    exact .inl hx

/-- If no containers are written, a container is at no position where it was not before. -/
theorem valueAt? (h : Change target value s t) (hval : ∀ y, value y → ¬ y.IsContainer)
    (hw : s.Within w) {p : List Step} (hc : c.IsContainer) (hp : t.valueAt? w p = some c) :
    s.valueAt? w p = some c := by
  induction p generalizing w with
  | nil => exact hp
  | cons k p ih =>
    obtain ⟨x, hx, hp⟩ := valueAt?_cons_eq_some.1 hp
    rcases h.child? hw.has hx with hx | hx
    · exact valueAt?_cons_eq_some.2 ⟨x, hx, ih (hw.child hx) hp⟩
    · obtain rfl := eq_of_not_isContainer (hval x hx) hp
      exact absurd hc (hval c hx)

end Change

/-! ## Runs of changes -/

open Relation (ReflTransGen)

theorem grows_of_changes (h : ReflTransGen (Change target value) s t) : s.Grows t := by
  induction h with
  | refl => exact .refl s
  | tail _ hs ih => exact ih.trans hs.grows

/-- A container that is never written to stays as it is. -/
theorem same_of_untouched (h : ReflTransGen (Change target value) s t) (hx : s.Has x)
    (hn : x.IsContainer → ∀ u, ReflTransGen (Change target value) s u → ¬ target u x) :
    s.Same t x := by
  induction h with
  | refl => exact .refl s x
  | tail hs h ih =>
    exact ih.trans (h.same ((grows_of_changes hs).has hx) fun hc => hn hc _ hs)

/-- What is seen of a value stays, as long as none of its containers is written to. -/
theorem read_of_untouched (h : ReflTransGen (Change target value) s t) (hv : s.Within v)
    (hn : ∀ p c, s.valueAt? v p = some c → c.IsContainer →
      ∀ u, ReflTransGen (Change target value) s u → ¬ target u c) :
    t.read v = s.read v :=
  read_of_same fun p c hp => same_of_untouched h (hv p c hp) (hn p c hp)

/-- Writes of values that are no containers put no container to a new position. -/
theorem valueAt?_of_changes (h : ReflTransGen (Change target value) s t)
    (hval : ∀ y, value y → ¬ y.IsContainer) (hw : s.Within w) {p : List Step} (hc : c.IsContainer)
    (hp : t.valueAt? w p = some c) : s.valueAt? w p = some c := by
  induction h generalizing c p with
  | refl => exact hp
  | @tail u t hs h ih =>
    -- a container at a position of `w` in `u` was there in `s` already
    have hu : u.Within w := by
      intro q d hq
      by_cases hd : d.IsContainer
      · exact (grows_of_changes hs).has (hw q d (ih hd hq))
      · cases d with
        | array a | dictionary a => exact absurd trivial hd
        | _ => trivial
    exact ih hc (h.valueAt? hval hu hc hp)

end

end Store

end Scriptlet
