import Scriptlet.Proofs.Growth
import Scriptlet.Proofs.Rounding

/-!
# Reading and writing items

Which indices a container answers to, said without the functions that look them up: a dictionary has
an item for each of its keys and room for any text, an array has an item for each number whose whole
part (`Double.HasWholePart`) is a position of it, and room for one item more. `SameSlot i j`: the
two indices stand for one slot, whatever container they are used on.

* `slot_eq_ok_iff`, `getItem_eq_ok_iff`: the functions find a slot exactly where there is room and
  an item exactly where there is one.
* `getItem_of_writtenAt`, `getItem_of_writtenAt_of_ne`: what is read behind a write.
* `setItem_laws`: all of it about one write, be it that it succeeds or fails.
-/

namespace Scriptlet

/-! ## Whole parts -/

namespace Double

/-- The double is finite, and `n` is what is left of it without its fraction. -/
structure HasWholePart (x : Float) (n : Int) : Prop where
  finite : isFinite x = true
  lower : n.natAbs * one ≤ units (code x)
  upper : units (code x) < (n.natAbs + 1) * one
  nonneg : isNegative x = false → 0 ≤ n
  nonpos : isNegative x = true → n ≤ 0

theorem truncate?_eq_some_iff {x : Float} {n : Int} : truncate? x = some n ↔ HasWholePart x n := by
  have hdiv : units (code x) / one = n.natAbs ↔
      n.natAbs * one ≤ units (code x) ∧ units (code x) < (n.natAbs + 1) * one := by
    rw [Nat.div_eq_iff one_pos]
    have := one_pos
    rw [Nat.add_mul, Nat.one_mul, Nat.mul_comm]
    omega
  unfold truncate?
  generalize hq : units (code x) / one = q at hdiv
  cases hf : isFinite x with
  | false => simpa [hf] using fun h : HasWholePart x n => absurd h.finite (by simp [hf])
  | true =>
    simp only [if_true, Option.some.injEq]
    constructor
    · intro h
      have hn : q = n.natAbs := by
        split at h <;> omega
      obtain ⟨hl, hu⟩ := hdiv.1 hn
      refine ⟨hf, hl, hu, fun hs => ?_, fun hs => ?_⟩
      · simp only [hs, Bool.false_eq_true, if_false] at h
        omega
      · simp only [hs, if_true] at h
        omega
    · rintro ⟨-, hl, hu, hnn, hnp⟩
      have hn := hdiv.2 ⟨hl, hu⟩
      cases hs : isNegative x with
      | false =>
        have := hnn hs
        simp only [Bool.false_eq_true, if_false]
        omega
      | true =>
        have := hnp hs
        simp only [if_true]
        omega

theorem HasWholePart.unique {x : Float} {m n : Int} (h : HasWholePart x m) (h' : HasWholePart x n) :
    m = n := by
  rw [← truncate?_eq_some_iff] at h h'
  exact Option.some.inj (h.symm.trans h')

end Double

open Double (HasWholePart)

/-! ## What a container answers to -/

/-- The container and the index are of kinds that go together. -/
inductive Value.Indexes : Value → Value → Prop
  | key (a : Nat) (k : String) : Indexes (.text k) (.dictionary a)
  | position (a : Nat) (x : Float) : Indexes (.number x) (.array a)

/-- The indices stand for one slot: they are one key, or numbers with one whole part. -/
inductive SameSlot : Value → Value → Prop
  | key (k : String) : SameSlot (.text k) (.text k)
  | position {x y : Float} {n : Int} :
      HasWholePart x n → HasWholePart y n → SameSlot (.number x) (.number y)

namespace Store

/-- The container holds something at the index. -/
inductive HasItem (s : Store) : Value → Value → Prop
  | key {a : Nat} {k : String} : k ∈ s.dictionary a → HasItem s (.dictionary a) (.text k)
  | position {a n : Nat} {x : Float} :
      HasWholePart x n → n < (s.array a).size → HasItem s (.array a) (.number x)

/-- The container takes something at the index. -/
inductive HasRoom (s : Store) : Value → Value → Prop
  | key (a : Nat) (k : String) : HasRoom s (.dictionary a) (.text k)
  | position {a n : Nat} {x : Float} :
      HasWholePart x n → n ≤ (s.array a).size → HasRoom s (.array a) (.number x)

/-- The index stands for what the container would be longer by: a new key, or the position right
behind the last item. -/
inductive IsNew (s : Store) : Value → Value → Prop
  | key {a : Nat} {k : String} : k ∉ s.dictionary a → IsNew s (.dictionary a) (.text k)
  | position {a : Nat} {x : Float} :
      HasWholePart x (s.array a).size → IsNew s (.array a) (.number x)

/-! ## Looking up -/

theorem position?_eq_some_iff {size n : Nat} {atEnd : Bool} {x : Float} :
    position? size atEnd x = some n ↔ HasWholePart x n ∧ (n < size ∨ n = size ∧ atEnd = true) := by
  rw [← Double.truncate?_eq_some_iff]
  unfold position?
  split
  · rename_i m hm
    simp only [hm, Option.some.injEq, Int.ofNat_eq_natCast, Int.natCast_inj]
    split
    · rename_i h
      simp only [Option.some.injEq]
      exact ⟨fun hmn => ⟨hmn, hmn ▸ h⟩, fun hmn => hmn.1⟩
    · rename_i h
      simp only [reduceCtorEq, false_iff]
      rintro ⟨rfl, hn⟩
      exact h hn
  · rename_i hx
    simp only [reduceCtorEq, false_iff]
    exact fun h => hx n h.1

/-- Where an array looks for an item depends on its size only as far as the item is concerned. -/
theorem position?_congr {size size' : Nat} {x : Float}
    (h : ∀ n : Nat, HasWholePart x n → (n < size ↔ n < size')) :
    position? size false x = position? size' false x := by
  refine Option.ext fun n => ?_
  simp only [position?_eq_some_iff, Bool.false_eq_true, and_false, or_false]
  exact and_congr_right (h n)

theorem slot_array (s : Store) (a : Nat) (x : Float) :
    s.slot (.array a) (.number x) = match position? (s.array a).size true x with
      | some n => .ok (.item a n)
      | none => .error (.indexOutOfRange x) := rfl

theorem getItem_array (s : Store) (a : Nat) (x : Float) :
    s.getItem (.array a) (.number x) = match position? (s.array a).size false x with
      | some n => .ok ((s.array a)[n]?.getD .null)
      | none => .error (.indexOutOfRange x) := rfl

theorem getItem_dictionary (s : Store) (a : Nat) (k : String) :
    s.getItem (.dictionary a) (.text k) = match (s.dictionary a)[k]? with
      | some v => .ok v
      | none => .error (.keyNotFound k) := rfl

/-- Nothing is looked up in a container for an index of the wrong kind. -/
theorem mismatch_of_not_indexes {c i : Value} (h : ¬ i.Indexes c) (s : Store) :
    s.slot c i = .error (.mismatch (.notIndexed c.kind i.kind)) ∧
      s.getItem c i = .error (.mismatch (.notIndexed c.kind i.kind)) := by
  cases c with
  | array a =>
    cases i with
    | number x => exact absurd (.position a x) h
    | _ => exact ⟨rfl, rfl⟩
  | dictionary a =>
    cases i with
    | text k => exact absurd (.key a k) h
    | _ => exact ⟨rfl, rfl⟩
  | _ => exact ⟨rfl, rfl⟩

/-- The slot that is found is the one that the index stands for. -/
theorem slot_cases {s : Store} {c i : Value} {slot : Slot} (h : s.slot c i = .ok slot) :
    (∃ a k, c = .dictionary a ∧ i = .text k ∧ slot = .entry a k) ∨
      ∃ a x n, c = .array a ∧ i = .number x ∧ slot = .item a n ∧ HasWholePart x n ∧
        n ≤ (s.array a).size := by
  by_cases hi : i.Indexes c
  · cases hi with
    | key a k =>
      cases h
      exact .inl ⟨a, k, rfl, rfl, rfl⟩
    | position a x =>
      rw [slot_array] at h
      split at h
      · rename_i n hn
        cases h
        obtain ⟨hx, hle⟩ := position?_eq_some_iff.1 hn
        exact .inr ⟨a, x, n, rfl, rfl, rfl, hx, by omega⟩
      · cases h
  · rw [(mismatch_of_not_indexes hi s).1] at h
    cases h

theorem slot_eq_ok_iff {s : Store} {c i : Value} :
    (∃ slot, s.slot c i = .ok slot) ↔ s.HasRoom c i := by
  constructor
  · rintro ⟨slot, h⟩
    obtain ⟨a, k, rfl, rfl, -⟩ | ⟨a, x, n, rfl, rfl, -, hx, hn⟩ := slot_cases h
    · exact .key a k
    · exact .position hx hn
  · intro h
    cases h with
    | key a k => exact ⟨.entry a k, rfl⟩
    | @position a n x hx hn =>
      rw [slot_array, position?_eq_some_iff.2 ⟨hx, by simp; omega⟩]
      exact ⟨.item a n, rfl⟩

/-- Where a container is written to for an index of its kind, a missing slot is an index out of its
range. -/
theorem slot_eq_error {s : Store} {c i : Value} {e : EvalError} (hi : i.Indexes c)
    (h : s.slot c i = .error e) : ∃ x, i = .number x ∧ e = .indexOutOfRange x := by
  cases hi with
  | key a k => cases h
  | position a x =>
    rw [slot_array] at h
    split at h <;> cases h
    exact ⟨x, rfl, rfl⟩

theorem getItem_eq_ok_iff {s : Store} {c i : Value} :
    (∃ v, s.getItem c i = .ok v) ↔ s.HasItem c i := by
  by_cases h : i.Indexes c
  · cases h with
    | key a k =>
      rw [getItem_dictionary]
      constructor
      · rintro ⟨v, hv⟩
        split at hv
        · rename_i w hw
          exact .key (Std.TreeMap.mem_iff_isSome_getElem?.2 (by simp [hw]))
        · cases hv
      · intro h
        cases h with
        | key hk =>
          rw [Std.TreeMap.getElem?_eq_some_getElem hk]
          exact ⟨_, rfl⟩
    | position a x =>
      rw [getItem_array]
      constructor
      · rintro ⟨v, hv⟩
        split at hv
        · rename_i n hn
          obtain ⟨hx, hn⟩ := position?_eq_some_iff.1 hn
          exact .position hx (by simpa using hn)
        · cases hv
      · intro h
        cases h with
        | @position _ n _ hx hn =>
          rw [position?_eq_some_iff.2 ⟨hx, .inl hn⟩]
          exact ⟨_, rfl⟩
  · rw [(mismatch_of_not_indexes h s).2]
    refine ⟨by simp, fun hr => absurd ?_ h⟩
    cases hr <;> constructor

/-! ## Reading behind a write -/

section
variable {s t : Store} {c i v : Value} {slot : Slot}

theorem array_of_changedAt {a n : Nat} (h : WrittenAt (.item a n) v s t) :
    ItemPut n v (s.array a) (t.array a) := by
  obtain ⟨xs, ys, hx, hy, hput⟩ := h.1.there
  simpa [Store.array, hx, hy] using hput

theorem dictionary_of_changedAt {a : Nat} {k : String} (h : WrittenAt (.entry a k) v s t) :
    EntryPut k v (s.dictionary a) (t.dictionary a) := by
  obtain ⟨xs, ys, hx, hy, hput⟩ := h.1.there
  simpa [Store.dictionary, hx, hy] using hput

theorem getItem_of_writtenAt (hs : s.slot c i = .ok slot) (h : WrittenAt slot v s t) :
    t.getItem c i = .ok v := by
  obtain ⟨a, k, rfl, rfl, rfl⟩ | ⟨a, x, n, rfl, rfl, rfl, hx, hn⟩ := slot_cases hs
  · rw [getItem_dictionary, (dictionary_of_changedAt h).here]
  · have hput := array_of_changedAt h
    have hlt : n < (t.array a).size := by
      rw [hput.size]
      omega
    rw [getItem_array, position?_eq_some_iff.2 ⟨hx, .inl hlt⟩]
    simp [hput.here]

/-- What is read at another slot, be it a value or an error, is what was read there before. -/
theorem getItem_of_writtenAt_of_ne (hs : s.slot c i = .ok slot) (h : WrittenAt slot v s t)
    {j : Value} (hj : ¬ SameSlot i j) : t.getItem c j = s.getItem c j := by
  by_cases hc : j.Indexes c
  · obtain ⟨a, k, rfl, rfl, rfl⟩ | ⟨a, x, n, rfl, rfl, rfl, hx, hn⟩ := slot_cases hs
    · cases hc with
      | key _ l =>
        have hl : l ≠ k := by
          rintro rfl
          exact hj (.key l)
        rw [getItem_dictionary, getItem_dictionary, (dictionary_of_changedAt h).others l hl]
    · cases hc with
      | position _ y =>
        have hput := array_of_changedAt h
        have hne {m : Nat} (hy : HasWholePart y m) : m ≠ n := by
          rintro rfl
          exact hj (.position hx hy)
        -- the array is longer at most by the position that is written to
        have hpos : position? (t.array a).size false y = position? (s.array a).size false y := by
          refine position?_congr fun m hy => ?_
          have := hne hy
          rw [hput.size]
          omega
        rw [getItem_array, getItem_array, hpos]
        split
        · rename_i m hm
          rw [hput.others m (hne (position?_eq_some_iff.1 hm).1)]
        · rfl
  · rw [(mismatch_of_not_indexes hc t).2, (mismatch_of_not_indexes hc s).2]

/-- A container is longer behind a write to a slot that is new, and by one. -/
theorem length_of_writtenAt (hs : s.slot c i = .ok slot) (h : WrittenAt slot v s t) :
    ∃ n, s.length c = .ok n ∧ (s.IsNew c i → t.length c = .ok (n + 1)) ∧
      (¬ s.IsNew c i → t.length c = .ok n) := by
  obtain ⟨a, k, rfl, rfl, rfl⟩ | ⟨a, x, n, rfl, rfl, rfl, hx, hn⟩ := slot_cases hs
  · have hsize := (dictionary_of_changedAt h).size
    refine ⟨(s.dictionary a).size, rfl, fun hnew => ?_, fun hold => ?_⟩
    · cases hnew with
      | key hk => simp [Store.length, hsize, hk]
    · have hk : k ∈ s.dictionary a := Classical.byContradiction fun hk => hold (.key hk)
      simp [Store.length, hsize, hk]
  · have hsize := (array_of_changedAt h).size
    refine ⟨(s.array a).size, rfl, fun hnew => ?_, fun hold => ?_⟩
    · cases hnew with
      | position hx' =>
        have := hx.unique hx'
        simp only [Store.length, hsize, Except.ok.injEq]
        omega
    · have hne : n ≠ (s.array a).size := by
        rintro rfl
        exact hold (.position hx)
      simp only [Store.length, hsize, Except.ok.injEq]
      omega

/-- No container changes but the one that is written to. -/
theorem others_of_writtenAt (hs : s.slot c i = .ok slot) (h : WrittenAt slot v s t) :
    (∀ a, .array a ≠ c → t.arrays[a]? = s.arrays[a]?) ∧
      ∀ a, .dictionary a ≠ c → t.dictionaries[a]? = s.dictionaries[a]? := by
  obtain ⟨a, k, rfl, rfl, rfl⟩ | ⟨a, x, n, rfl, rfl, rfl, -⟩ := slot_cases hs
  · refine ⟨fun b _ => by rw [h.2], fun b hb => h.1.others b fun hab => hb (by rw [hab])⟩
  · refine ⟨fun b hb => h.1.others b fun hab => hb (by rw [hab]), fun b _ => by rw [h.2]⟩

end

end Store

/-! ## Writing -/

theorem Store.setItem_of_slot {s : Store} {c i v : Value} {slot : Slot}
    (h : s.slot c i = .ok slot) : s.setItem c i v = .ok (s.write slot v) := by
  simp [setItem, h, bind, Except.bind, pure, Except.pure]

theorem Store.setItem_of_error {s : Store} {c i v : Value} {e : EvalError}
    (h : s.slot c i = .error e) : s.setItem c i v = .error e := by
  simp [setItem, h, bind, Except.bind]

/-- A write succeeds exactly where there is room, and a read where there is an item. After a write
that succeeds, the value is read at its index, anything else is read at every other slot as before,
the container is longer by one if the slot is new and else as long as it was, and no other container
and nothing else of the session has changed. A write that fails changes nothing at all; it fails for
the kinds of the container and the index if these do not go together, and else because the index is
out of range. -/
theorem setItem_laws (s : Session) {c : Value} (hc : s.store.Has c) (i v : Value) :
    ((∃ t, s.store.setItem c i v = .ok t) ↔ s.store.HasRoom c i) ∧
      ((∃ w, s.store.getItem c i = .ok w) ↔ s.store.HasItem c i) ∧
      (∀ t, s.store.setItem c i v = .ok t →
        Run.setItem c i v s = .ok () { s with store := t } ∧ t.getItem c i = .ok v ∧
          (∀ j, ¬ SameSlot i j → t.getItem c j = s.store.getItem c j) ∧
          (∃ n, s.store.length c = .ok n ∧ (s.store.IsNew c i → t.length c = .ok (n + 1)) ∧
            (¬ s.store.IsNew c i → t.length c = .ok n)) ∧
          (∀ a, .array a ≠ c → t.arrays[a]? = s.store.arrays[a]?) ∧
          ∀ a, .dictionary a ≠ c → t.dictionaries[a]? = s.store.dictionaries[a]?) ∧
      ∀ e, s.store.setItem c i v = .error e →
        Run.setItem c i v s = .error (.error e) s ∧
          ((∃ m, e = .mismatch m) ↔ ¬ i.Indexes c) ∧
          (i.Indexes c → ∃ x, i = .number x ∧ e = .indexOutOfRange x) := by
  rw [← Store.slot_eq_ok_iff, ← Store.getItem_eq_ok_iff, Run.setItem_apply]
  cases hs : s.store.slot c i with
  | ok slot =>
    rw [Store.setItem_of_slot hs]
    have hw := Store.writtenAt_write hc hs v
    refine ⟨by simp, Iff.rfl, fun t ht => ?_, by simp⟩
    cases ht
    exact ⟨rfl, Store.getItem_of_writtenAt hs hw, fun j => Store.getItem_of_writtenAt_of_ne hs hw,
      Store.length_of_writtenAt hs hw, Store.others_of_writtenAt hs hw⟩
  | error e =>
    rw [Store.setItem_of_error hs]
    refine ⟨by simp, Iff.rfl, by simp, fun e' he => ?_⟩
    cases he
    refine ⟨rfl, ⟨?_, fun hi => ?_⟩, fun hi => Store.slot_eq_error hi hs⟩
    · rintro ⟨m, rfl⟩ hi
      obtain ⟨x, -, hx⟩ := Store.slot_eq_error hi hs
      cases hx
    · rw [(Store.mismatch_of_not_indexes hi s.store).1] at hs
      cases hs
      exact ⟨_, rfl⟩

/-- An array of one item takes itself behind that item, under an index with a fraction. An index
that is a little below zero still stands for the first item, and three is too much for the array. -/
theorem setItem_laws_append :
    let c : Value := .array 0
    let s : Session := { Session.initial with store := ⟨#[#[.number 4]], #[]⟩ }
    s.store.Has c ∧ ¬ SameSlot (.number 1.5) (.number (-0.5)) ∧
      (∃ t, s.store.setItem c (.number 1.5) c = .ok t ∧ t.getItem c (.number 1.5) = .ok c ∧
        t.getItem c (.number (-0.5)) = .ok (.number 4) ∧ t.length c = .ok 2) ∧
      ∃ x, Run.setItem c (.number 3) c s = .error (.error (.indexOutOfRange x)) s := by
  intro c s
  have hc : s.store.Has c := Nat.zero_lt_one
  have h1 : HasWholePart 1.5 (1 : Nat) := Double.truncate?_eq_some_iff.1 (by decide +kernel)
  have h0 : HasWholePart (-0.5) (0 : Nat) := Double.truncate?_eq_some_iff.1 (by decide +kernel)
  have h3 : HasWholePart 3 3 := Double.truncate?_eq_some_iff.1 (by decide +kernel)
  have hne : ¬ SameSlot (.number 1.5) (.number (-0.5)) := by
    intro h
    cases h with
    | position hx hy => exact absurd ((hx.unique h1).symm.trans (hy.unique h0)) (by decide)
  refine ⟨hc, hne, ?_, ?_⟩
  · obtain ⟨hroom, -, hok, -⟩ := setItem_laws s hc (.number 1.5) c
    obtain ⟨t, ht⟩ := hroom.2 (.position h1 (Nat.le_refl 1))
    obtain ⟨-, hget, hother, ⟨n, hn, hnew, -⟩, -⟩ := hok t ht
    cases hn
    refine ⟨t, ht, hget, ?_, hnew (.position h1)⟩
    have hp : Store.position? (s.store.array 0).size false (-0.5) = some 0 :=
      Store.position?_eq_some_iff.2 ⟨h0, .inl Nat.zero_lt_one⟩
    rw [hother _ hne, Store.getItem_array, hp]
    rfl
  · obtain ⟨hroom, -, -, herror⟩ := setItem_laws s hc (.number 3) c
    cases he : s.store.setItem c (.number 3) c with
    | ok t =>
      have hr : s.store.HasRoom (.array 0) (.number 3) := hroom.1 ⟨t, he⟩
      cases hr with
      | position hx hn =>
        have := hx.unique h3
        have : (s.store.array 0).size = 1 := rfl
        omega
    | error e =>
      obtain ⟨hrun, -, hrange⟩ := herror e he
      obtain ⟨x, -, rfl⟩ := hrange (.position 0 3)
      exact ⟨x, hrun⟩

end Scriptlet
