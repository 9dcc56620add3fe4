import Scriptlet.Proofs.Positions

/-!
# Deep copies

`Store.Copied b s t v w`: between the stores `s` and `t` a value `w` was made that looks like the
value `v` does in the store `b`, out of containers that `s` does not have and each of which stands
in one place. A container whose children are copied one after the other is a copy as well, since the
copies of two children have no container in common (`Copies.disjoint`, `Copies.copied`). A value
without a cycle never lies in more containers than the store has, so its copy is made
(`makesCopy_copyWithin`).

* `copy_is_separate`: the copy of a value without a cycle, and that neither of the two is changed by
  what is written to the other.
-/

namespace Scriptlet

namespace Store

variable {b s t u : Store} {v w x c : Value} {k : Step}

/-! ## Cycles -/

/-- No container in the value contains itself. -/
def Acyclic (s : Store) (v : Value) : Prop :=
  ∀ p c, s.valueAt? v p = some c → ∀ q, s.valueAt? c q = some c → q = []

theorem Acyclic.child (h : s.Acyclic v) (hx : s.child? v k = some x) : s.Acyclic x :=
  fun p c hp => h (k :: p) c (valueAt?_cons_eq_some.2 ⟨x, hx, hp⟩)

/-- A value has no cycle if there is a rank that is lower in every item and entry. -/
theorem acyclic_of_rank (rank : Value → Nat)
    (h : ∀ c k x, s.child? c k = some x → rank x < rank c) (v : Value) : s.Acyclic v := by
  have lower : ∀ (p : List Step) (c d : Value), s.valueAt? c p = some d →
      rank d + p.length ≤ rank c := by
    intro p
    induction p with
    | nil =>
      intro c d hp
      cases hp
      exact Nat.le_refl _
    | cons k p ih =>
      intro c d hp
      obtain ⟨x, hx, hp⟩ := valueAt?_cons_eq_some.1 hp
      have := h c k x hx
      have := ih x d hp
      rw [List.length_cons]
      omega
  intro p c _ q hq
  have := lower q c c hq
  exact List.eq_nil_of_length_eq_zero (by omega)

/-- The containers of the store. -/
def containers (s : Store) : List Value :=
  (List.range s.arrays.size).map .array ++ (List.range s.dictionaries.size).map .dictionary

theorem length_containers (s : Store) : s.containers.length = s.size := by
  simp [containers, size]

theorem mem_containers (hc : c.IsContainer) (h : s.Has c) : c ∈ s.containers := by
  cases c with
  | array a => simpa [containers, Has] using h
  | dictionary a => simpa [containers, Has] using h
  | _ => exact hc.elim

/-- The containers of the list are different ones of the store, and the value lies in all of
them. -/
structure Around (s : Store) (v : Value) (around : List Value) : Prop where
  nodup : around.Nodup
  there : ∀ c ∈ around, c ∈ s.containers
  inside : ∀ c ∈ around, ∃ k p, s.valueAt? c (k :: p) = some v

namespace Around

variable {around : List Value}

theorem nil (s : Store) (v : Value) : s.Around v [] := ⟨.nil, nofun, nofun⟩

/-- A value without a cycle is none of the containers around it. -/
theorem nodup_cons (h : s.Around v around) (hv : s.Acyclic v) : (v :: around).Nodup := by
  refine List.nodup_cons.2 ⟨fun hm => ?_, h.nodup⟩
  obtain ⟨k, p, hp⟩ := h.inside v hm
  cases hv [] v rfl _ hp

theorem child (h : s.Around v around) (hv : s.Acyclic v) (hm : v ∈ s.containers)
    (hx : s.child? v k = some x) : s.Around x (v :: around) where
  nodup := h.nodup_cons hv
  there := List.forall_mem_cons.2 ⟨hm, h.there⟩
  inside := by
    have step : s.valueAt? v [k] = some x := valueAt?_cons_eq_some.2 ⟨x, hx, rfl⟩
    refine List.forall_mem_cons.2 ⟨⟨k, [], step⟩, fun c hc => ?_⟩
    obtain ⟨l, p, hp⟩ := h.inside c hc
    refine ⟨l, p ++ [k], ?_⟩
    rw [← List.cons_append, valueAt?_append, hp, Option.bind_some, step]

theorem length_lt (h : s.Around v around) (hv : s.Acyclic v) (hm : v ∈ s.containers) :
    around.length < s.size := by
  have hle := (h.nodup_cons hv).length_le_of_subset (List.forall_mem_cons.2 ⟨hm, h.there⟩)
  rwa [length_containers] at hle

end Around

/-! ## One copy -/

/-- The second value was made between the stores `s` and `t`. It looks like the first one in the
store `b`, all its containers are new, and each stands in one place. -/
structure Copied (b s t : Store) (v w : Value) : Prop where
  kept : s.Extends t
  within : t.Within w
  looks : t.read w = b.read v
  fresh : ∀ p c, c.IsContainer → t.valueAt? w p = some c → ¬ s.Has c
  once : ∀ p q c, c.IsContainer → t.valueAt? w p = some c → t.valueAt? w q = some c → p = q

namespace Copied

theorem later (h : Copied b s t v w) (ht : t.Extends u) : Copied b s u v w where
  kept := h.kept.trans ht
  within := ht.within h.within
  looks := (ht.read h.within).trans h.looks
  fresh p c hc hp := by
    rw [ht.valueAt? h.within] at hp
    exact h.fresh p c hc hp
  once p q c hc hp hq := by
    rw [ht.valueAt? h.within] at hp hq
    exact h.once p q c hc hp hq

theorem earlier (h : Copied b t u v w) (hs : s.Extends t) : Copied b s u v w where
  kept := hs.trans h.kept
  within := h.within
  looks := h.looks
  fresh p c hc hp hh := h.fresh p c hc hp (hs.grows.has hh)
  once := h.once

/-- A value that is no container is its own copy. -/
theorem self (hv : ¬ v.IsContainer) (b s : Store) : Copied b s s v v := by
  have here : ∀ p c, s.valueAt? v p = some c → c = v := fun p c => eq_of_not_isContainer hv
  refine ⟨.refl s, fun p c hp => ?_, read_of_same fun p c hp => ?_, fun p c hc hp => ?_,
    fun p q c hc hp => ?_⟩
  · rw [here p c hp]
    cases v with
    | array a | dictionary a => exact absurd trivial hv
    | _ => trivial
  · rw [eq_of_not_isContainer hv hp]
    exact same_of_not_isContainer hv
  · exact absurd (here p c hp ▸ hc) hv
  · exact absurd (here p c hp ▸ hc) hv

end Copied

/-! ## Copies of all children -/

/-- The values of the first list are copied one after the other, each for its step. -/
inductive Copies (b : Store) : Store → List (Step × Value) → List (Step × Value) → Store → Prop
  | nil (s : Store) : Copies b s [] [] s
  | cons {s t u : Store} {v w : Value} {l l' : List (Step × Value)} (k : Step) :
      Copied b s t v w → Copies b t l l' u → Copies b s ((k, v) :: l) ((k, w) :: l') u

namespace Copies

variable {l l' : List (Step × Value)}

theorem kept (h : Copies b s l l' u) : s.Extends u := by
  induction h with
  | nil s => exact .refl s
  | cons k h _ ih => exact h.kept.trans ih

theorem steps_eq (h : Copies b s l l' u) : l'.map Prod.fst = l.map Prod.fst := by
  induction h with
  | nil s => rfl
  | cons k _ _ ih => rw [List.map_cons, List.map_cons, ih]

theorem of_mem (h : Copies b s l l' u) (hw : (k, w) ∈ l') : ∃ v, (k, v) ∈ l ∧ Copied b s u v w := by
  induction h with
  | nil s => cases hw
  | @cons s t u v₀ w₀ l l' k₀ h hl ih =>
    rcases List.mem_cons.1 hw with hw | hw
    · cases hw
      exact ⟨v₀, List.mem_cons_self, h.later hl.kept⟩
    · obtain ⟨v, hv, hc⟩ := ih hw
      exact ⟨v, List.mem_cons_of_mem _ hv, hc.earlier h.kept⟩

/-- The copies of two children have no container in common: what the later one is made of was not
there when the earlier one was made. -/
theorem disjoint (h : Copies b s l l' u) {k₁ k₂ : Step} {w₁ w₂ : Value} (h₁ : (k₁, w₁) ∈ l')
    (h₂ : (k₂, w₂) ∈ l') (hk : k₁ ≠ k₂) {p q : List Step} (hc : c.IsContainer)
    (hp : u.valueAt? w₁ p = some c) : u.valueAt? w₂ q ≠ some c := by
  intro hq
  induction h with
  | nil s => cases h₁
  | @cons s t u v w l l' k h hl ih =>
    have apart {j : Step} {y : Value} (hy : (j, y) ∈ l') {p q : List Step}
        (hp : u.valueAt? w p = some c) (hq : u.valueAt? y q = some c) : False := by
      obtain ⟨x, -, hxy⟩ := hl.of_mem hy
      rw [hl.kept.valueAt? h.within] at hp
      exact hxy.fresh q c hc hq (h.within p c hp)
    rcases List.mem_cons.1 h₁ with e₁ | m₁ <;> rcases List.mem_cons.1 h₂ with e₂ | m₂
    · cases e₁
      cases e₂
      exact hk rfl
    · cases e₁
      exact apart m₂ hp hq
    · cases e₂
      exact apart m₁ hq hp
    · exact ih m₁ m₂ hp hq

/-! A new container `w` that holds the copies of the children of `v` -/

section
variable (h : Copies b s l l' u) (hl' : ∀ k x, t.child? w k = some x ↔ (k, x) ∈ l')
  (hut : u.Extends t)
include h hl' hut

/-- What stands at a position of the new container is the container itself or is in the copy of a
child. -/
theorem position_cases {p : List Step} (hp : t.valueAt? w p = some c) :
    (p = [] ∧ c = w) ∨ ∃ k q x y, p = k :: q ∧ (k, y) ∈ l' ∧ Copied b s u x y ∧
      u.valueAt? y q = some c := by
  cases p with
  | nil => exact .inl ⟨rfl, (Option.some.inj hp).symm⟩
  | cons k q =>
    obtain ⟨y, hy, hq⟩ := valueAt?_cons_eq_some.1 hp
    obtain ⟨x, -, hc⟩ := h.of_mem ((hl' k y).1 hy)
    rw [hut.valueAt? hc.within] at hq
    exact .inr ⟨k, q, x, y, rfl, (hl' k y).1 hy, hc, hq⟩

theorem looks (hl : ∀ k x, b.child? v k = some x ↔ (k, x) ∈ l) (hshape : t.shape w = b.shape v) :
    t.read w = b.read v := by
  funext p
  cases p with
  | nil => exact congrArg some hshape
  | cons k q =>
    rw [read, read, valueAt?_cons, valueAt?_cons]
    cases hy : t.child? w k with
    | some y =>
      obtain ⟨x, hx, hc⟩ := h.of_mem ((hl' k y).1 hy)
      rw [(hl k x).2 hx]
      exact congrFun (hc.later hut).looks q
    | none =>
      cases hx : b.child? v k with
      | none => rfl
      | some x =>
        -- the copy has a child for every step of the original
        have hk : k ∈ l'.map Prod.fst := by
          rw [h.steps_eq]
          exact List.mem_map_of_mem ((hl k x).1 hx)
        obtain ⟨⟨_, y⟩, hm, rfl⟩ := List.mem_map.1 hk
        rw [(hl' _ y).2 hm] at hy
        cases hy

/-- The new container is a copy. -/
theorem copied (hl : ∀ k x, b.child? v k = some x ↔ (k, x) ∈ l) (hnew : ¬ u.Has w) (hw : t.Has w)
    (hshape : t.shape w = b.shape v) : Copied b s t v w where
  kept := h.kept.trans hut
  within p c hp := by
    obtain ⟨-, rfl⟩ | ⟨k, q, x, y, -, -, hc, hq⟩ := h.position_cases hl' hut hp
    · exact hw
    · exact hut.grows.has (hc.within q c hq)
  looks := h.looks hl' hut hl hshape
  fresh p c hc hp := by
    obtain ⟨-, rfl⟩ | ⟨k, q, x, y, -, -, hcopy, hq⟩ := h.position_cases hl' hut hp
    · exact fun hs => hnew (h.kept.grows.has hs)
    · exact hcopy.fresh q c hc hq
  once p p' c hc hp hp' := by
    obtain ⟨rfl, hcw⟩ | ⟨k, q, x, y, rfl, hy, hcopy, hq⟩ := h.position_cases hl' hut hp
    · obtain ⟨rfl, -⟩ | ⟨k', q', x', y', -, -, hcopy', hq'⟩ := h.position_cases hl' hut hp'
      · rfl
      · exact absurd (hcw ▸ hcopy'.within q' c hq') hnew
    · obtain ⟨-, hcw⟩ | ⟨k', q', x', y', rfl, hy', -, hq'⟩ := h.position_cases hl' hut hp'
      · exact absurd (hcw ▸ hcopy.within q c hq) hnew
      · by_cases hk : k = k'
        · subst hk
          obtain rfl : y = y' := Option.some.inj (((hl' k y).2 hy).symm.trans ((hl' k y').2 hy'))
          rw [hcopy.once q q' c hc hq hq']
        · exact absurd hq' (h.disjoint hy hy' hk hc hq)

end

end Copies

/-! ## Making copies -/

/-- From every later store the computation comes to a copy of the value. -/
def MakesCopy (b : Store) (v : Value) (m : StateT Store Option Value) : Prop :=
  ∀ s, b.Extends s → ∃ w t, m s = some (w, t) ∧ Copied b s t v w

theorem bind_of_eq_some {α β : Type} {m : StateT Store Option α} {f : α → StateT Store Option β}
    {a : α} (h : m s = some (a, t)) : (m >>= f) s = f a t := by
  show (m s).bind _ = _
  rw [h]
  rfl

/-- The values of a list as the items from a position on. -/
def itemsFrom (n : Nat) (l : List Value) : List (Step × Value) :=
  (l.zipIdx n).map fun (x, i) => (.item i, x)

def entries (l : List (String × Value)) : List (Step × Value) :=
  l.map fun (key, x) => (.entry key, x)

section
variable {f : Value → StateT Store Option Value}

theorem mapM_items {l : List Value} (hf : ∀ x ∈ l, b.MakesCopy x (f x)) (n : Nat)
    (hs : b.Extends s) :
    ∃ ws u, l.mapM f s = some (ws, u) ∧ Copies b s (itemsFrom n l) (itemsFrom n ws) u := by
  induction l generalizing n s with
  | nil => exact ⟨[], s, rfl, .nil s⟩
  | cons x l ih =>
    obtain ⟨hx, hl⟩ := List.forall_mem_cons.1 hf
    obtain ⟨w, t, hw, hc⟩ := hx s hs
    obtain ⟨ws, u, hws, hcs⟩ := ih hl (n + 1) (hs.trans hc.kept)
    refine ⟨w :: ws, u, ?_, .cons (.item n) hc hcs⟩
    rw [List.mapM_cons, bind_of_eq_some hw, bind_of_eq_some hws]
    rfl

theorem mapM_entries {l : List (String × Value)} (hf : ∀ e ∈ l, b.MakesCopy e.2 (f e.2))
    (hs : b.Extends s) :
    ∃ l' u, (l.mapM fun ((key, x) : String × Value) => do return (key, ← f x)) s = some (l', u) ∧
      Copies b s (entries l) (entries l') u := by
  induction l generalizing s with
  | nil => exact ⟨[], s, rfl, .nil s⟩
  | cons e l ih =>
    obtain ⟨key, x⟩ := e
    obtain ⟨hx, hl⟩ := List.forall_mem_cons.1 hf
    obtain ⟨w, t, hw, hc⟩ := hx s hs
    obtain ⟨ws, u, hws, hcs⟩ := ih hl (hs.trans hc.kept)
    have hpair : (do return (key, ← f x) : StateT Store Option (String × Value)) s =
        some ((key, w), t) := bind_of_eq_some hw
    refine ⟨(key, w) :: ws, u, ?_, .cons (.entry key) hc hcs⟩
    rw [List.mapM_cons, bind_of_eq_some hpair, bind_of_eq_some hws]
    rfl

end

theorem mem_itemsFrom {l : List Value} :
    (k, x) ∈ itemsFrom 0 l ↔ ∃ n, k = .item n ∧ l[n]? = some x := by
  simp only [itemsFrom, List.mem_map, Prod.mk.injEq, Prod.exists, List.mk_mem_zipIdx_iff_getElem?]
  constructor
  · rintro ⟨y, n, hn, rfl, rfl⟩
    exact ⟨n, rfl, hn⟩
  · rintro ⟨n, rfl, hn⟩
    exact ⟨x, n, hn, rfl, rfl⟩

theorem mem_entries {l : List (String × Value)} :
    (k, x) ∈ entries l ↔ ∃ key, k = .entry key ∧ (key, x) ∈ l := by
  simp only [entries, List.mem_map, Prod.mk.injEq, Prod.exists]
  constructor
  · rintro ⟨key, y, hm, rfl, rfl⟩
    exact ⟨key, rfl, hm⟩
  · rintro ⟨key, rfl, hm⟩
    exact ⟨key, x, hm, rfl, rfl⟩

theorem map_fst_entries (l : List (String × Value)) :
    (entries l).map Prod.fst = (l.map Prod.fst).map .entry := by
  simp [entries]

theorem child?_array {a : Nat} :
    s.child? (.array a) k = some x ↔ (k, x) ∈ itemsFrom 0 (s.array a).toList := by
  rw [mem_itemsFrom]
  cases k with
  | item n => simp [child?]
  | entry key => simp [child?]

theorem child?_dictionary {a : Nat} :
    s.child? (.dictionary a) k = some x ↔ (k, x) ∈ entries (s.dictionary a).toList := by
  rw [mem_entries]
  cases k with
  | item n => simp [child?]
  | entry key => simp [child?]

section
variable {l : List (String × Value)} {d : Entries}

/-- A dictionary that is made out of entries with the keys of another one has the same keys. -/
theorem keys_ofList (h : l.map Prod.fst = d.keys) : (Std.TreeMap.ofList l).keys = d.keys := by
  let keysOnly (e : Entries) := e.map fun _ _ => ()
  have hkeys : (keysOnly (.ofList l)).Equiv (keysOnly d) := by
    refine .of_forall_mem_unit_iff fun key => ?_
    rw [Std.TreeMap.mem_map, Std.TreeMap.mem_map, Std.TreeMap.mem_ofList, h, List.contains_iff_mem,
      Std.TreeMap.mem_keys]
  have := hkeys.keys_eq
  rwa [Std.TreeMap.keys_map, Std.TreeMap.keys_map] at this

/-- What stands in such a dictionary are the entries it was made out of. -/
theorem getElem?_ofList (h : l.map Prod.fst = d.keys) {key : String} :
    (Std.TreeMap.ofList l)[key]? = some x ↔ (key, x) ∈ l := by
  have apart : l.Pairwise fun e f => ¬ compare e.1 f.1 = .eq := by
    have hd : (l.map Prod.fst).Pairwise fun i j => ¬ compare i j = .eq :=
      h ▸ Std.TreeMap.distinct_keys
    exact List.pairwise_map.1 hd
  constructor
  · intro hx
    have hm : key ∈ Std.TreeMap.ofList l := Std.TreeMap.mem_iff_isSome_getElem?.2 (by simp [hx])
    rw [Std.TreeMap.mem_ofList, List.contains_iff_mem] at hm
    obtain ⟨⟨_, y⟩, hy, rfl⟩ := List.mem_map.1 hm
    rw [Std.TreeMap.getElem?_ofList_of_mem Std.ReflCmp.compare_self apart hy] at hx
    exact Option.some.inj hx ▸ hy
  · exact Std.TreeMap.getElem?_ofList_of_mem Std.ReflCmp.compare_self apart

end

section
variable {f : Value → StateT Store Option Value} {a : Nat}

theorem makesCopy_array (ha : b.Has (.array a))
    (hf : ∀ k x, b.child? (.array a) k = some x → b.MakesCopy x (f x)) :
    b.MakesCopy (.array a) (do
      let items ← ((← get).array a).toList.mapM f
      modifyGet (·.newArray items.toArray)) := by
  intro s hs
  have hitems : ∀ x ∈ (b.array a).toList, b.MakesCopy x (f x) := by
    intro x hx
    obtain ⟨n, hn⟩ := List.getElem?_of_mem hx
    exact hf (.item n) x (child?_array.2 (mem_itemsFrom.2 ⟨n, rfl, hn⟩))
  obtain ⟨ws, u, hws, hcs⟩ := mapM_items hitems 0 hs
  rw [← hs.array ha] at hws
  let t := (u.newArray ws.toArray).2
  have hnew : t.array u.arrays.size = ws.toArray := by simp [t, newArray, Store.array]
  refine ⟨.array u.arrays.size, t, (bind_of_eq_some rfl).trans (bind_of_eq_some hws), ?_⟩
  refine hcs.copied (fun k x => ?_) (.newArray u _) (fun k x => child?_array)
    (Nat.lt_irrefl _) ?_ ?_
  · rw [child?_array, hnew]
  · show u.arrays.size < (u.arrays.push ws.toArray).size
    simp
  · have hlength := congrArg List.length hcs.steps_eq
    simp only [itemsFrom, List.length_map, List.length_zipIdx] at hlength
    rw [shape, shape, hnew, List.size_toArray, hlength, Array.length_toList]

theorem makesCopy_dictionary (ha : b.Has (.dictionary a))
    (hf : ∀ k x, b.child? (.dictionary a) k = some x → b.MakesCopy x (f x)) :
    b.MakesCopy (.dictionary a) (do
      let entries ← ((← get).dictionary a).toList.mapM fun (key, v) => do
        return (key, ← f v)
      modifyGet (·.newDictionary (.ofList entries))) := by
  intro s hs
  have hentries : ∀ e ∈ (b.dictionary a).toList, b.MakesCopy e.2 (f e.2) := by
    intro e he
    exact hf (.entry e.1) e.2 (child?_dictionary.2 (mem_entries.2 ⟨e.1, rfl, he⟩))
  obtain ⟨l, u, hl, hcs⟩ := mapM_entries hentries hs
  rw [← hs.dictionary ha] at hl
  let t := (u.newDictionary (.ofList l)).2
  have hnew : t.dictionary u.dictionaries.size = .ofList l := by
    simp [t, newDictionary, Store.dictionary]
  have hkeys : l.map Prod.fst = (b.dictionary a).keys := by
    have hsteps := hcs.steps_eq
    rw [map_fst_entries, map_fst_entries, Std.TreeMap.map_fst_toList_eq_keys] at hsteps
    exact List.map_injective_iff.2 (fun _ _ => Step.entry.inj) hsteps
  refine ⟨.dictionary u.dictionaries.size, t, (bind_of_eq_some rfl).trans (bind_of_eq_some hl), ?_⟩
  refine hcs.copied (fun k x => ?_) (.newDictionary u _) (fun k x => child?_dictionary)
    (Nat.lt_irrefl _) ?_ ?_
  · rw [mem_entries]
    cases k with
    | item n => simp [child?]
    | entry key => simp [child?, hnew, getElem?_ofList hkeys]
  · show u.dictionaries.size < (u.dictionaries.push _).size
    simp
  · rw [shape, shape, hnew, keys_ofList hkeys]

end

/-- A limit that is not smaller than the number of containers is enough for a value without a cycle.
The containers around the value make up for what the limit is smaller by. -/
theorem makesCopy_copyWithin {depth : Nat} {around : List Value} (hs : b.Within v)
    (hv : b.Acyclic v) (ha : b.Around v around) (hd : b.size ≤ depth + around.length) :
    b.MakesCopy v (copyWithin depth v) := by
  induction depth generalizing v around with
  | zero =>
    have hc : ¬ v.IsContainer := by
      intro hc
      have := ha.length_lt hv (mem_containers hc hs.has)
      omega
    intro s _
    refine ⟨v, s, ?_, .self hc b s⟩
    cases v with
    | array a | dictionary a => exact absurd trivial hc
    | _ => rfl
  | succ depth ih =>
    have child (hc : v.IsContainer) (k : Step) (x : Value) (hx : b.child? v k = some x) :
        b.MakesCopy x (copyWithin depth x) := by
      refine ih (hs.child hx) (hv.child hx) (ha.child hv (mem_containers hc hs.has) hx) ?_
      rw [List.length_cons]
      omega
    cases v with
    | array a => exact makesCopy_array hs.has (child trivial)
    | dictionary a => exact makesCopy_dictionary hs.has (child trivial)
    | _ => exact fun s _ => ⟨_, s, rfl, .self id b s⟩

end Store

open Store
open Relation (ReflTransGen)

/-- A value without a cycle, in a store in which no reference leads nowhere, is copied. The
containers that there are stay what they are. At every position the copy looks as the value does,
but all its containers are new, and none of them stands at two positions. After any writes of
whatever values to containers that there were before, the copy still looks as the value did then.
After any writes of values that are no containers to containers that are in the copy, or were in it
when it was made, all that there was before still looks as it did. In both cases new containers may
be made in between. -/
theorem copy_is_separate {s : Store} (hs : s.Holds s.Has) {v : Value} (hv : s.Has v)
    (hc : s.Acyclic v) :
    ∃ w t, s.copy? v = some (w, t) ∧ s.Extends t ∧ t.read w = s.read v ∧
      (∀ p c, c.IsContainer → t.valueAt? w p = some c → ¬ s.Has c) ∧
      (∀ p q c, c.IsContainer → t.valueAt? w p = some c → t.valueAt? w q = some c → p = q) ∧
      (∀ u, ReflTransGen (Change (fun _ c => s.Has c) fun _ => True) t u →
        u.read w = s.read v) ∧
      ∀ u, ReflTransGen (Change
          (fun r c => ∃ p, t.valueAt? w p = some c ∨ r.valueAt? w p = some c)
          fun x => ¬ x.IsContainer) t u →
        ∀ x, s.Has x → u.read x = s.read x := by
  obtain ⟨w, t, hcopy, h⟩ :=
    makesCopy_copyWithin (hs.within hv) hc (.nil s v) (Nat.le_refl s.size) s (.refl s)
  refine ⟨w, t, hcopy, h.kept, h.looks, h.fresh, h.once, fun u hu => ?_, fun u hu x hx => ?_⟩
  · rw [← h.looks]
    exact read_of_untouched hu h.within fun p c hp hc _ _ => h.fresh p c hc hp
  · have hw := hs.within hx
    rw [← h.kept.read hw]
    refine read_of_untouched hu (h.kept.within hw) fun p c hp hc r hr ht => ?_
    rw [h.kept.valueAt? hw] at hp
    -- what is in the copy by now was in it from the start
    obtain ⟨q, hq | hq⟩ := ht
    · exact h.fresh q c hc hq (hw p c hp)
    · exact h.fresh q c hc (valueAt?_of_changes hr (fun _ => id) h.within hc hq) (hw p c hp)

/-- An array that holds another one twice is copied to one that holds two new ones. Neither a write
to the other array changes the copy, nor a write to one of the new ones the original. -/
theorem copy_is_separate_shared :
    let s : Store := ⟨#[#[.text "a"], #[.array 0, .array 0]], #[]⟩
    let t : Store := ⟨s.arrays ++ #[#[.text "a"], #[.text "a"], #[.array 2, .array 3]], #[]⟩
    let v : Value := .array 1
    let w : Value := .array 4
    s.Holds s.Has ∧ s.Has v ∧ s.Acyclic v ∧ s.copy? v = some (w, t) ∧ t.read w = s.read v ∧
      (∃ u, t.setItem (.array 0) (.number 0) w = .ok u ∧ u.read w = s.read v) ∧
      ∃ u, t.setItem (.array 3) (.number 0) .null = .ok u ∧ u.read v = s.read v := by
  intro s t v w
  have child : ∀ c k x, s.child? c k = some x →
      (c = .array 0 ∧ x = .text "a") ∨ c = .array 1 ∧ x = .array 0 := by
    intro c k x h
    match c, k, h with
    | .array 0, .item 0, h => exact .inl ⟨rfl, (Option.some.inj h).symm⟩
    | .array 1, .item 0, h => exact .inr ⟨rfl, (Option.some.inj h).symm⟩
    | .array 1, .item 1, h => exact .inr ⟨rfl, (Option.some.inj h).symm⟩
  have hs : s.Holds s.Has := by
    refine holds_iff_child?.2 fun c k x h => ?_
    obtain ⟨-, rfl⟩ | ⟨-, rfl⟩ := child c k x h
    · trivial
    · exact Nat.zero_lt_succ 1
  have hc : s.Acyclic v := by
    refine acyclic_of_rank (fun c => match c with | .array a => a + 1 | _ => 0) ?_ v
    intro c k x h
    obtain ⟨rfl, rfl⟩ | ⟨rfl, rfl⟩ := child c k x h
    · exact Nat.zero_lt_succ 0
    · exact Nat.lt_succ_self 1
  have hv : s.Has v := Nat.lt_succ_self 1
  have hcopied : s.copy? v = some (w, t) := rfl
  obtain ⟨w', t', hcopy, -, hlooks, -, -, hold, hnew⟩ := copy_is_separate hs hv hc
  cases hcopied.symm.trans hcopy
  have hzero : Double.HasWholePart 0 (0 : Nat) := Double.truncate?_eq_some_iff.1 (by decide +kernel)
  have room (a : Nat) : t.HasRoom (.array a) (.number 0) := .position hzero (Nat.zero_le _)
  have hzeroth : t.Has (.array 0) := Nat.zero_lt_succ 4
  have hthird : t.Has (.array 3) := show 3 < 5 by decide
  obtain ⟨slot, hslot⟩ := slot_eq_ok_iff.2 (room 0)
  obtain ⟨slot', hslot'⟩ := slot_eq_ok_iff.2 (room 3)
  refine ⟨hs, hv, hc, hcopied, hlooks, ⟨_, setItem_of_slot hslot, hold _ (.single ?_)⟩,
    _, setItem_of_slot hslot', hnew _ (.single ?_) v hv⟩
  · exact .write hzeroth (Nat.zero_lt_succ 1 : s.Has (.array 0)) trivial (setItem_of_slot hslot)
  · exact .write hthird ⟨[.item 1], .inl rfl⟩ id (setItem_of_slot hslot')

end Scriptlet
