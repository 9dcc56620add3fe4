/-! # Sets of characters as ranges

A property of characters is written as the ascending list of the ranges of code points that have
it. `contains_iff` says that the search, which stops early, finds exactly the members.
-/

namespace Scriptlet.Text

/-- Ranges of code points, both ends included. -/
abbrev Ranges := List (Nat × Nat)

namespace Ranges

/-- Whether a code point lies in one of the ranges; the search ends at the first range that does
not end before it. -/
def contains : Ranges → Nat → Bool
  | [], _ => false
  | (lo, hi) :: rest, n => if n ≤ hi then lo ≤ n else contains rest n

/-- Every range starts above `below` and ends before the next one starts. -/
def Ascending (below : Nat) : Ranges → Prop
  | [] => True
  | (lo, hi) :: rest => below ≤ lo ∧ lo ≤ hi ∧ Ascending (hi + 1) rest

theorem Ascending.le_of_mem {rs : Ranges} {below : Nat} (h : Ascending below rs) {r : Nat × Nat}
    (hr : r ∈ rs) : below ≤ r.1 := by
  induction rs generalizing below with
  | nil => simp at hr
  | cons s rest ih =>
    obtain ⟨h1, h2, h3⟩ := h
    rcases List.mem_cons.1 hr with rfl | hr
    · exact h1
    · have := ih h3 hr
      omega

/-- In ascending ranges the early end of the search loses no member. -/
theorem contains_iff {rs : Ranges} {below : Nat} (h : Ascending below rs) (n : Nat) :
    rs.contains n = true ↔ ∃ r ∈ rs, r.1 ≤ n ∧ n ≤ r.2 := by
  induction rs generalizing below with
  | nil => simp [contains]
  | cons s rest ih =>
    obtain ⟨lo, hi⟩ := s
    obtain ⟨-, -, h3⟩ := h
    rw [contains]
    split
    · rename_i hn
      simp only [decide_eq_true_eq, List.mem_cons]
      constructor
      · exact fun hlo => ⟨_, .inl rfl, hlo, hn⟩
      · rintro ⟨r, rfl | hr, h1, h2⟩
        · exact h1
        · have := h3.le_of_mem hr
          omega
    · rename_i hn
      rw [ih h3]
      constructor
      · rintro ⟨r, hr, h⟩
        exact ⟨r, .tail _ hr, h⟩
      · rintro ⟨r, hr, h1, h2⟩
        rcases List.mem_cons.1 hr with rfl | hr
        · exact absurd h2 hn
        · exact ⟨r, hr, h1, h2⟩

end Ranges

end Scriptlet.Text
