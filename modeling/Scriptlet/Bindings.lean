/-! # Bindings

Names with what they are bound to, in the order in which the names were first bound. A name that is
bound again keeps its place.
-/

namespace Scriptlet

/-- Names and their values, oldest name first. -/
abbrev Bindings (α : Type) := List (String × α)

namespace Bindings

variable {α : Type}

def get? (name : String) : Bindings α → Option α
  | [] => none
  | (n, a) :: rest => if n = name then some a else get? name rest

/-- Binds a name, at its place if it has one, else at the end. -/
def set (name : String) (a : α) : Bindings α → Bindings α
  | [] => [(name, a)]
  | (n, b) :: rest => if n = name then (n, a) :: rest else (n, b) :: set name a rest

/-- The names in the order of their first binding. -/
def names (bs : Bindings α) : List String := bs.map (·.1)

def binds (name : String) (bs : Bindings α) : Bool := (bs.get? name).isSome

@[simp] theorem get?_set_self (name : String) (a : α) (bs : Bindings α) :
    (bs.set name a).get? name = some a := by
  induction bs with
  | nil => simp [set, get?]
  | cons b bs ih =>
    obtain ⟨n, b⟩ := b
    by_cases h : n = name <;> simp [set, get?, h, ih]

theorem get?_set_of_ne {name other : String} (h : other ≠ name) (a : α) (bs : Bindings α) :
    (bs.set name a).get? other = bs.get? other := by
  induction bs with
  | nil => simp [set, get?, Ne.symm h]
  | cons b bs ih =>
    obtain ⟨n, b⟩ := b
    by_cases hn : n = name
    · subst hn
      simp [set, get?, Ne.symm h]
    · by_cases ho : n = other <;> simp [set, get?, hn, ho, ih, h]

theorem binds_eq_true_iff {name : String} {bs : Bindings α} :
    bs.binds name = true ↔ name ∈ bs.names := by
  induction bs with
  | nil => simp [binds, get?, names]
  | cons b bs ih =>
    obtain ⟨n, b⟩ := b
    by_cases h : n = name
    · simp [binds, get?, names, h]
    · simpa [binds, get?, names, h, Ne.symm h] using ih

theorem names_set (name : String) (a : α) (bs : Bindings α) :
    (bs.set name a).names = if bs.binds name then bs.names else bs.names ++ [name] := by
  induction bs with
  | nil => rfl
  | cons b bs ih =>
    obtain ⟨n, b⟩ := b
    by_cases h : n = name
    · simp [set, names, binds, get?, h]
    · have : (set name a bs).map (·.1) = if (get? name bs).isSome then bs.map (·.1)
          else bs.map (·.1) ++ [name] := ih
      simp only [set, names, binds, get?, h, if_false, List.map_cons, this]
      split <;> rfl

end Bindings

end Scriptlet
