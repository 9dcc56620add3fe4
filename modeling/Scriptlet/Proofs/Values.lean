import Scriptlet.Proofs.Invariant
import Scriptlet.Proofs.WellFormed

/-!
# The values of a session

`Session.Holds V s`: every value that is bound in a frame or stands in a container is in the set
`V`. Every effect of an evaluation keeps this, as long as the values that it binds and writes are in
the set. One such set is that of the values whose functions have the bodies of scripts: then no
evaluation finds a node that it has no case for (`scripted`).
-/

namespace Scriptlet

/-- Every value that is bound in one of the frames is in the set. -/
def Scope.Holds (V : Value → Prop) (s : Scope) : Prop :=
  ∀ f ∈ s.frames, ∀ n v, f.get? n = some v → V v

/-- Every item of an array and every entry of a dictionary is in the set. -/
structure Store.Holds (V : Value → Prop) (s : Store) : Prop where
  items (a : Nat) : ∀ v ∈ s.array a, V v
  entries (a : Nat) (k : String) : ∀ v, (s.dictionary a)[k]? = some v → V v

/-- Every value of the session is in the set. -/
structure Session.Holds (V : Value → Prop) (s : Session) : Prop where
  scope : s.scope.Holds V
  store : s.store.Holds V

variable {V : Value → Prop}

/-! ## Scopes -/

namespace Scope.Holds

variable {s : Scope}

theorem get (h : s.Holds V) (hn : V .null) (n : String) : V (s.get n) := by
  rw [Scope.get, get?]
  cases hf : s.frames.findSome? (·.get? n) with
  | none => exact hn
  | some v =>
    obtain ⟨f, hm, hv⟩ := List.exists_of_findSome?_eq_some hf
    exact h f hm n v hv

theorem set (h : s.Holds V) (n : String) {v : Value} (hv : V v) : (s.set n v).Holds V := by
  intro f hf m w hw
  rcases List.mem_cons.1 hf with rfl | hf
  · have hw : (s.top.set n v).get? m = some w := hw
    by_cases hm : m = n
    · rw [hm, Bindings.get?_set_self] at hw
      exact Option.some.inj hw ▸ hv
    · rw [Bindings.get?_set_of_ne hm] at hw
      exact h s.top List.mem_cons_self m w hw
  · exact h f (List.mem_cons_of_mem _ hf) m w hw

theorem enter (h : s.Holds V) : s.enter.Holds V := by
  intro f hf n v hv
  rcases List.mem_cons.1 hf with rfl | hf
  · cases hv
  · exact h f hf n v hv

end Scope.Holds

/-! ## Stores -/

namespace Store.Holds

variable {s : Store}

/-- A container is changed or left as it is. -/
theorem getD_modify {α : Type} (xs : Array α) (d : α) (a b : Nat) (f : α → α) :
    (xs.modify a f)[b]?.getD d = xs[b]?.getD d ∨
      (xs.modify a f)[b]?.getD d = f (xs[b]?.getD d) := by
  rw [Array.getElem?_modify]
  split
  · cases xs[b]? with
    | none => exact .inl rfl
    | some x => exact .inr rfl
  · exact .inl rfl

theorem getD_push {α : Type} (xs : Array α) (d : α) (b : Nat) :
    (xs.push d)[b]?.getD d = xs[b]?.getD d := by
  rw [Array.getElem?_push]
  split
  · rename_i hb
    rw [hb, Array.getElem?_eq_none (Nat.le_refl _)]
    rfl
  · rfl

theorem getItem (h : s.Holds V) (hn : V .null) {c i v : Value} (hv : s.getItem c i = .ok v) :
    V v := by
  unfold Store.getItem at hv
  split at hv
  · rename_i a key
    split at hv
    · rename_i w hw
      obtain rfl := Except.ok.inj hv
      exact h.entries a key w hw
    · cases hv
  · rename_i a i
    split at hv
    · rename_i n _
      obtain rfl := Except.ok.inj hv
      cases hw : (s.array a)[n]? with
      | none => exact hn
      | some w => exact h.items a w (Array.mem_of_getElem? hw)
    · cases hv
  · cases hv

theorem write (h : s.Holds V) (slot : Slot) {v : Value} (hv : V v) : (s.write slot v).Holds V := by
  cases slot with
  | entry a key =>
    refine ⟨h.items, fun b k w hw => ?_⟩
    have hd : (s.write (.entry a key) v).dictionary b =
        (s.dictionaries.modify a (·.insert key v))[b]?.getD ∅ := rfl
    rw [hd] at hw
    rcases getD_modify s.dictionaries ∅ a b (·.insert key v) with hm | hm
    · rw [hm] at hw
      exact h.entries b k w hw
    · rw [hm, Std.TreeMap.getElem?_insert] at hw
      split at hw
      · exact Option.some.inj hw ▸ hv
      · exact h.entries b k w hw
  | item a n =>
    refine ⟨fun b w hw => ?_, h.entries⟩
    have hd : (s.write (.item a n) v).array b = (s.arrays.modify a fun items =>
        if n < items.size then items.setIfInBounds n v else items.push v)[b]?.getD #[] := rfl
    rw [hd] at hw
    rcases getD_modify s.arrays #[] a b fun items =>
        if n < items.size then items.setIfInBounds n v else items.push v with hm | hm
    · rw [hm] at hw
      exact h.items b w hw
    · rw [hm] at hw
      split at hw
      · rcases Array.mem_or_eq_of_mem_setIfInBounds hw with hw | rfl
        · exact h.items b w hw
        · exact hv
      · rcases Array.mem_push.1 hw with hw | rfl
        · exact h.items b w hw
        · exact hv

theorem newArray (h : s.Holds V) : (s.newArray #[]).2.Holds V := by
  refine ⟨fun b w hw => h.items b w ?_, h.entries⟩
  have hd : (s.newArray #[]).2.array b = (s.arrays.push #[])[b]?.getD #[] := rfl
  rwa [hd, getD_push] at hw

theorem newDictionary (h : s.Holds V) : (s.newDictionary ∅).2.Holds V := by
  refine ⟨h.items, fun b k w hw => h.entries b k w ?_⟩
  have hd : (s.newDictionary ∅).2.dictionary b = (s.dictionaries.push ∅)[b]?.getD ∅ := rfl
  rwa [hd, getD_push] at hw

end Store.Holds

/-! ## Sessions -/

namespace Session.Holds

variable {s : Session}

theorem set (h : s.Holds V) (n : String) {v : Value} (hv : V v) : (s.set n v).Holds V :=
  ⟨h.scope.set n hv, h.store⟩

theorem enter (h : s.Holds V) : s.enter.Holds V := ⟨h.scope.enter, h.store⟩

theorem callee (h : s.Holds V) (p : String) {v : Value} (hv : V v) : (s.callee p v).Holds V := by
  have hr : (s.record (.called p v)).Holds V := ⟨h.scope, h.store⟩
  exact hr.enter.set p hv

/-- A call is gone back to the frames of the caller, with the containers as the body left them. -/
theorem returnTo (h : s.Holds V) {caller : Scope} (hc : caller.Holds V) :
    (s.returnTo caller).Holds V := ⟨hc, h.store⟩

theorem initial (V : Value → Prop) : Session.initial.Holds V := by
  refine ⟨fun f hf n v hv => ?_, fun a v hv => ?_, fun a k v hv => ?_⟩
  · rw [List.mem_singleton.1 hf] at hv
    cases hv
  · simp [Session.initial, Store.empty, Store.array] at hv
  · simp [Session.initial, Store.empty, Store.dictionary] at hv

theorem withBuiltins (h : s.Holds V) (hn : V .null) (hb : ∀ b, V (.builtin b)) :
    s.withBuiltins.Holds V :=
  (((h.set _ hn).set _ (hb .print)).set _ (hb .len)).enter

end Session.Holds

/-! ## Scripts -/

/-- A function has a body that a script can have. -/
def Value.OfScript : Value → Prop
  | function _ body => body.WellFormed Double.IsUnsigned
  | _ => True

theorem Value.ofScript_of_ne_function {v : Value} (h : ∀ p b, v ≠ .function p b) :
    v.OfScript := by
  cases v with
  | function p b => exact absurd rfl (h p b)
  | _ => trivial

theorem Expr.WellFormed.part {literal : Float → Prop} {e p : Expr} (he : e.WellFormed literal)
    (hp : p ∈ e.parts) : p.WellFormed literal := by
  unfold parts at hp
  split at hp
  · rwa [List.mem_singleton.1 hp]
  · cases hp
  · rcases List.mem_cons.1 hp with rfl | hp
    · exact he.1
    · rw [List.mem_singleton.1 hp]
      exact he.2
  · rw [List.mem_singleton.1 hp]
    exact he.2
  · rw [List.mem_singleton.1 hp]
    exact he.2
  · exact he.elim
  · exact he.elim
  · cases hp

/-- Scripts make functions of scripts only, and meet no defect. -/
def scripted : Invariant where
  name _ := True
  tree e := e.WellFormed Double.IsUnsigned
  value := Value.OfScript
  exit
    | .result v => v.OfScript
    | .defect _ => False
    | _ => True
  session := Session.Holds Value.OfScript
  part := Expr.WellFormed.part
  target _ := trivial
  definition h := ⟨trivial, h.2⟩
  plain := Value.ofScript_of_ne_function
  error _ := trivial
  unfinished := trivial
  stop _ := trivial
  result _ hv := hv
  notATree h := h
  noSuchOperator h := h
  get n hs := hs.scope.get trivial n
  item hs hv := hs.store.getItem trivial hv
  set hs _ hv := hs.set _ hv
  write hs _ hv := ⟨hs.scope, hs.store.write _ hv⟩
  newArray hs := ⟨hs.scope, hs.store.newArray⟩
  newDictionary hs := ⟨hs.scope, hs.store.newDictionary⟩
  writeLine _ hs := ⟨hs.scope, hs.store⟩
  call hb hf hv hx := .enterFunction hb (fun _ h => h) (fun _ hs => hs.callee _ hv)
    (fun _ _ hs ht => ht.returnTo hs.scope) (hx hf)

end Scriptlet
