import Scriptlet.Proofs.Frames

/-!
# Containers grow

`Store.Grows s t`: every array of the store `s` is an array of `t` with no fewer items, and every
dictionary of `s` is a dictionary of `t` with all its keys. So it is between the stores before and
after an evaluation, however it ends (`grows_eval`). `Store.WrittenAt slot v s t`: the stores differ
in one container only, and there at one slot only, which holds `v` in `t`. So it is between the
stores before and after a single write to a container that is there (`writtenAt_write`).
-/

namespace Scriptlet

namespace Store

/-! ## Lists of containers -/

section
variable {α : Type}

/-- Every container is still at its address, and is related to what it was. -/
def Kept (R : α → α → Prop) (xs ys : Array α) : Prop :=
  ∀ (a : Nat) x, xs[a]? = some x → ∃ y, ys[a]? = some y ∧ R x y

/-- The container at an address is related to what it was, and no other one is changed. -/
structure ChangedAt (a : Nat) (R : α → α → Prop) (xs ys : Array α) : Prop where
  size : ys.size = xs.size
  there : ∃ x y, xs[a]? = some x ∧ ys[a]? = some y ∧ R x y
  others : ∀ b, b ≠ a → ys[b]? = xs[b]?

variable {R : α → α → Prop}

theorem Kept.refl (hR : ∀ x, R x x) (xs : Array α) : Kept R xs xs := fun _ x h => ⟨x, h, hR x⟩

theorem Kept.trans (hR : ∀ x y z, R x y → R y z → R x z) {xs ys zs : Array α} (h : Kept R xs ys)
    (h' : Kept R ys zs) : Kept R xs zs := by
  intro a x hx
  obtain ⟨y, hy, hxy⟩ := h a x hx
  obtain ⟨z, hz, hyz⟩ := h' a y hy
  exact ⟨z, hz, hR x y z hxy hyz⟩

theorem Kept.push (hR : ∀ x, R x x) (xs : Array α) (x : α) : Kept R xs (xs.push x) := by
  intro a y hy
  obtain ⟨ha, rfl⟩ := Array.getElem?_eq_some_iff.1 hy
  exact ⟨xs[a], by simp [Array.getElem?_push, ha, Nat.ne_of_lt ha], hR _⟩

theorem Kept.modify (hR : ∀ x, R x x) (xs : Array α) (a : Nat) {f : α → α} (hf : ∀ x, R x (f x)) :
    Kept R xs (xs.modify a f) := by
  intro b x hx
  rw [Array.getElem?_modify, hx]
  split
  · exact ⟨f x, rfl, hf x⟩
  · exact ⟨x, rfl, hR x⟩

theorem Kept.size_le {xs ys : Array α} (h : Kept R xs ys) : xs.size ≤ ys.size := by
  refine Nat.le_of_not_lt fun hlt => ?_
  obtain ⟨y, hy, -⟩ := h ys.size xs[ys.size] (Array.getElem?_eq_getElem hlt)
  simp at hy

theorem changedAt_modify {xs : Array α} {a : Nat} (ha : a < xs.size) (f : α → α)
    (hf : R xs[a] (f xs[a])) : ChangedAt a R xs (xs.modify a f) where
  size := Array.size_modify
  there := by
    have hx : xs[a]? = some xs[a] := Array.getElem?_eq_getElem ha
    exact ⟨xs[a], f xs[a], hx, by rw [Array.getElem?_modify, if_pos rfl, hx]; rfl, hf⟩
  others b hb := by rw [Array.getElem?_modify, if_neg (Ne.symm hb)]

end

/-! ## Growth -/

/-- No container is gone or has lost a position or a key. -/
structure Grows (s t : Store) : Prop where
  arrays : Kept (fun old new => old.size ≤ new.size) s.arrays t.arrays
  dictionaries : Kept (fun old new => ∀ key ∈ old, key ∈ new) s.dictionaries t.dictionaries

namespace Grows

theorem refl (s : Store) : s.Grows s := ⟨.refl (by simp) _, .refl (by simp) _⟩

theorem trans {s t u : Store} (h : s.Grows t) (h' : t.Grows u) : s.Grows u where
  arrays := by
    refine Kept.trans (fun old mid new => ?_) h.arrays h'.arrays
    exact Nat.le_trans
  dictionaries := by
    refine Kept.trans (fun old mid new hm hn key hk => ?_) h.dictionaries h'.dictionaries
    exact hn key (hm key hk)

theorem newArray (s : Store) (items : Array Value) : s.Grows (s.newArray items).2 :=
  ⟨.push (by simp) _ _, .refl (by simp) _⟩

theorem newDictionary (s : Store) (entries : Entries) : s.Grows (s.newDictionary entries).2 :=
  ⟨.refl (by simp) _, .push (by simp) _ _⟩

theorem write (s : Store) (slot : Slot) (v : Value) : s.Grows (s.write slot v) := by
  cases slot with
  | item a n =>
    refine ⟨.modify (by simp) _ _ fun items => ?_, .refl (by simp) _⟩
    split <;> simp
  | entry a key =>
    refine ⟨.refl (by simp) _, .modify (by simp) _ _ fun entries k hk => ?_⟩
    exact Std.TreeMap.mem_insert.2 (.inr hk)

end Grows

/-! ## A single write -/

/-- The second array holds a value at a position of the first one or right behind its end, and has
the items of the first one elsewhere. -/
structure ItemPut (n : Nat) (v : Value) (old new : Array Value) : Prop where
  bound : n ≤ old.size
  size : new.size = max old.size (n + 1)
  here : new[n]? = some v
  others : ∀ m, m ≠ n → new[m]? = old[m]?

/-- The second dictionary holds a value under a key, and has the entries of the first one under the
other keys. -/
structure EntryPut (key : String) (v : Value) (old new : Entries) : Prop where
  size : new.size = if key ∈ old then old.size else old.size + 1
  here : new[key]? = some v
  others : ∀ k, k ≠ key → new[k]? = old[k]?

/-- The second store holds a value at a slot, and is the first one elsewhere. -/
def WrittenAt (slot : Slot) (v : Value) (s t : Store) : Prop :=
  match slot with
  | .item a n => ChangedAt a (ItemPut n v) s.arrays t.arrays ∧ t.dictionaries = s.dictionaries
  | .entry a key =>
    ChangedAt a (EntryPut key v) s.dictionaries t.dictionaries ∧ t.arrays = s.arrays

/-- The container that a value refers to is there, if it refers to one. -/
def Has (s : Store) : Value → Prop
  | .array a => a < s.arrays.size
  | .dictionary a => a < s.dictionaries.size
  | _ => True

theorem itemPut {n : Nat} {items : Array Value} (hn : n ≤ items.size) (v : Value) :
    ItemPut n v items (if n < items.size then items.setIfInBounds n v else items.push v) := by
  split
  case isTrue hlt =>
    refine ⟨hn, by simp; omega, by simp [hlt], fun m hm => ?_⟩
    rw [Array.getElem?_setIfInBounds_ne (Ne.symm hm)]
  case isFalse hge =>
    obtain rfl : n = items.size := by omega
    refine ⟨hn, by simp, by simp, fun m hm => ?_⟩
    rw [Array.getElem?_push, if_neg hm]

theorem entryPut (key : String) (v : Value) (entries : Entries) :
    EntryPut key v entries (entries.insert key v) where
  size := Std.TreeMap.size_insert
  here := Std.TreeMap.getElem?_insert_self
  others k hk := by
    rw [Std.TreeMap.getElem?_insert, if_neg]
    rwa [Std.LawfulEqCmp.compare_eq_iff_eq, eq_comm]

theorem position?_le {size : Nat} {atEnd : Bool} {i : Float} {n : Nat}
    (h : position? size atEnd i = some n) : n ≤ size := by
  unfold position? at h
  split at h
  · split at h
    · cases h
      omega
    · cases h
  · cases h

/-- A write to a slot of a container that is there changes nothing but that slot. -/
theorem writtenAt_write {s : Store} {c i : Value} {slot : Slot} (hc : s.Has c)
    (hs : s.slot c i = .ok slot) (v : Value) : WrittenAt slot v s (s.write slot v) := by
  unfold Store.slot at hs
  split at hs
  · rename_i a key
    cases hs
    exact ⟨changedAt_modify hc (·.insert key v) (entryPut key v s.dictionaries[a]), rfl⟩
  · rename_i a i
    split at hs
    · rename_i n hn
      cases hs
      have items : s.array a = s.arrays[a] := by
        rw [Store.array, Array.getElem?_eq_getElem hc, Option.getD_some]
      refine ⟨changedAt_modify hc (fun items =>
        if n < items.size then items.setIfInBounds n v else items.push v) ?_, rfl⟩
      exact itemPut (items ▸ position?_le hn) v
    · cases hs
  · cases hs

theorem Grows.has {s t : Store} (h : s.Grows t) {v : Value} (hv : s.Has v) : t.Has v := by
  cases v with
  | array a => exact Nat.lt_of_lt_of_le hv h.arrays.size_le
  | dictionary a => exact Nat.lt_of_lt_of_le hv h.dictionaries.size_le
  | _ => trivial

end Store

/-! ## Evaluations -/

theorem grows_stable : Session.Stable fun s t => s.store.Grows t.store where
  refl s := .refl s.store
  trans h h' := h.trans h'
  set s _ _ := .refl s.store
  write s slot v := .write s.store slot v
  newArray s := .newArray s.store #[]
  newDictionary s := .newDictionary s.store ∅
  writeLine s _ := .refl s.store
  call _ h := h

theorem grows_eval (rounds depth : Nat) (e : Expr) (s : Session) :
    s.store.Grows ((eval rounds depth e).final s).store :=
  (grows_stable.keeps_eval rounds depth e s).2

end Scriptlet
