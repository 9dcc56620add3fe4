import Mathlib.Data.Nat.Dist
import Mathlib.Order.Monotone.Basic
import Scriptlet.Double.Decimal

/-!
# Correct rounding

`IsNearest num den k`: among the codes of the finite doubles and of infinity, which stands for the
power of two behind the largest one, `k` is the code nearest to `num / den` units, and the even one
if two are equally near. Exactly one code is (`isNearest_iff`): the one that `nearestCode` computes.
A decimal of any size is read as the nearest double too, since the bounds beyond which no power of
ten is formed leave only infinity or zero (`Decimal.isNearest_code`).
-/

namespace Scriptlet.Double

/-! ## The values of codes -/

/-- A code is made up of the power of its spacing and of a mantissa, which is one bit longer for the
last code of a spacing: that one is the first code of the next spacing. -/
theorem units_add {s m : Nat} (h : s = 0 ∨ 2 ^ 52 ≤ m) (hm : m ≤ 2 ^ 53) :
    units (s * 2 ^ 52 + m) = m * 2 ^ s := by
  rcases Nat.lt_or_eq_of_le hm with hlt | rfl
  · have hs : scale (s * 2 ^ 52 + m) = s := by
      simp only [scale, Nat.pow_eq]
      omega
    simp only [units, hs, Nat.pow_eq, Nat.add_sub_cancel_left]
  · have hs : scale (s * 2 ^ 52 + 2 ^ 53) = s + 1 := by
      simp only [scale, Nat.pow_eq]
      omega
    have hr : s * 2 ^ 52 + 2 ^ 53 - (s + 1) * 2 ^ 52 = 2 ^ 52 := by omega
    simp only [units, hs, Nat.pow_eq, hr, Nat.pow_succ 2 s]
    omega

theorem exists_add (k : Nat) :
    ∃ s m, (s = 0 ∨ 2 ^ 52 ≤ m) ∧ m < 2 ^ 53 ∧ k = s * 2 ^ 52 + m :=
  ⟨k / 2 ^ 52 - 1, k - (k / 2 ^ 52 - 1) * 2 ^ 52, by omega, by omega, by omega⟩

theorem units_zero : units 0 = 0 := by
  rw [units, Nat.zero_sub, Nat.zero_mul]

theorem units_one : units 1 = 1 := units_add (s := 0) (m := 1) (.inl rfl) (by decide)

theorem units_strictMono : StrictMono units := by
  refine strictMono_nat_of_lt_succ fun k => ?_
  obtain ⟨s, m, h, hm, rfl⟩ := exists_add k
  rw [units_add h hm.le, Nat.add_assoc, units_add (by omega) (by omega)]
  exact Nat.mul_lt_mul_of_pos_right (Nat.lt_succ_self m) (Nat.two_pow_pos s)

/-! ## The nearest code -/

/-- The code is that of the double nearest to a quotient of units. -/
structure IsNearest (num den k : Nat) : Prop where
  le_infinityCode : k ≤ infinityCode
  dist_le : ∀ j ≤ infinityCode, Nat.dist num (units k * den) ≤ Nat.dist num (units j * den)
  even : ∀ j ≤ infinityCode, j ≠ k →
    Nat.dist num (units k * den) = Nat.dist num (units j * den) → k % 2 = 0

section
variable {num den k : Nat}

theorem units_mul_lt (hd : 0 < den) {i j : Nat} (h : i < j) : units i * den < units j * den :=
  Nat.mul_lt_mul_of_pos_right (units_strictMono h) hd

/-- Only the neighbours of a code have to be compared with it: the quotient is nearest to what lies
between the two midpoints. -/
theorem IsNearest.of_midpoints (hd : 0 < den) (hk : k ≤ infinityCode)
    (lower : ∀ i, k = i + 1 → units i * den + units k * den < 2 * num ∨
      units i * den + units k * den = 2 * num ∧ k % 2 = 0)
    (upper : k < infinityCode → 2 * num < units k * den + units (k + 1) * den ∨
      2 * num = units k * den + units (k + 1) * den ∧ k % 2 = 0) :
    IsNearest num den k := by
  have near : ∀ j ≤ infinityCode, j ≠ k →
      Nat.dist num (units k * den) < Nat.dist num (units j * den) ∨
      Nat.dist num (units k * den) = Nat.dist num (units j * den) ∧ k % 2 = 0 := by
    intro j hj hne
    rcases Nat.lt_or_gt_of_ne hne with hlt | hgt
    · obtain ⟨i, rfl⟩ : ∃ i, k = i + 1 := ⟨k - 1, by omega⟩
      have hi : units j * den ≤ units i * den :=
        Nat.mul_le_mul_right den (units_strictMono.monotone (Nat.le_of_lt_succ hlt))
      have hlt := units_mul_lt hd hlt
      have hl := lower i rfl
      simp only [Nat.dist]
      omega
    · have hi : units (k + 1) * den ≤ units j * den :=
        Nat.mul_le_mul_right den (units_strictMono.monotone hgt)
      have hlt := units_mul_lt hd hgt
      have hu := upper (by omega)
      simp only [Nat.dist]
      omega
  refine ⟨hk, fun j hj => ?_, fun j hj hne he => ?_⟩
  · rcases eq_or_ne j k with rfl | hne
    · exact Nat.le_refl _
    · rcases near j hj hne with h | h
      · exact h.le
      · exact h.1.le
  · rcases near j hj hne with h | h
    · exact absurd he h.ne
    · exact h.2

/-- Of two codes the quotient would be the midpoint, both would be even, and the odd code between
them nearer. -/
theorem IsNearest.unique (hd : 0 < den) {k' : Nat} (h : IsNearest num den k)
    (h' : IsNearest num den k') : k = k' := by
  by_contra hne
  wlog hlt : k < k' generalizing k k'
  · exact this h' h (Ne.symm hne) (by omega)
  have he := Nat.le_antisymm (h.dist_le _ h'.le_infinityCode) (h'.dist_le _ h.le_infinityCode)
  have hk := h.even _ h'.le_infinityCode (Ne.symm hne) he
  have hk' := h'.even _ h.le_infinityCode hne he.symm
  have hj := h.dist_le (k + 1) (Nat.le_trans hlt h'.le_infinityCode)
  have h1 := units_mul_lt hd (Nat.lt_succ_self k)
  have h2 := units_mul_lt hd (show k + 1 < k' by omega)
  simp only [Nat.dist, Nat.succ_eq_add_one] at *
  omega

/-- A double is nearest to its own value. -/
theorem IsNearest.of_eq (hd : 0 < den) (hk : k ≤ infinityCode) (h : num = units k * den) :
    IsNearest num den k := by
  subst h
  refine .of_midpoints hd hk (fun i hi => .inl ?_) fun _ => .inl ?_
  · have := units_mul_lt hd (show i < k by omega)
    omega
  · have := units_mul_lt hd (Nat.lt_succ_self k)
    simp only [Nat.succ_eq_add_one] at this
    omega

/-- What is at least infinity is nearest to it. -/
theorem IsNearest.infinityCode_of_le (hd : 0 < den) (h : units infinityCode * den ≤ num) :
    IsNearest num den infinityCode := by
  refine .of_midpoints hd (Nat.le_refl _) (fun i hi => .inl ?_) fun h => absurd h (Nat.lt_irrefl _)
  have := units_mul_lt hd (show i < infinityCode by omega)
  omega

/-- Only the value of the quotient matters. -/
theorem IsNearest.of_mul_eq {num' den' : Nat} (h : IsNearest num den k) (hd : 0 < den)
    (hd' : 0 < den') (he : num * den' = num' * den) : IsNearest num' den' k := by
  have dist_mul (j : Nat) :
      Nat.dist num (units j * den) * den' = Nat.dist num' (units j * den') * den := by
    rw [← Nat.dist_mul_right, ← Nat.dist_mul_right, he, Nat.mul_assoc, Nat.mul_assoc,
      Nat.mul_comm den]
  refine ⟨h.le_infinityCode, fun j hj => ?_, fun j hj hne hdist => h.even j hj hne ?_⟩
  · refine Nat.le_of_mul_le_mul_right ?_ hd
    rw [← dist_mul, ← dist_mul]
    exact Nat.mul_le_mul_right den' (h.dist_le j hj)
  · refine Nat.eq_of_mul_eq_mul_right hd' ?_
    rw [dist_mul, dist_mul, hdist]

end

/-! ## Rounding a quotient -/

/-- A quotient is rounded to a whole number between whose midpoints it lies. -/
theorem roundDiv_spec (num : Nat) {den : Nat} (hd : 0 < den) :
    (2 * (roundDiv num den * den) < 2 * num + den ∨
      2 * (roundDiv num den * den) = 2 * num + den ∧ roundDiv num den % 2 = 0) ∧
    (2 * num < 2 * (roundDiv num den * den) + den ∨
      2 * num = 2 * (roundDiv num den * den) + den ∧ roundDiv num den % 2 = 0) := by
  have hq := Nat.div_add_mod' num den
  have hr := Nat.mod_lt num hd
  unfold roundDiv
  dsimp only
  split
  · omega
  · rw [Nat.add_one_mul (num / den)]
    omega

theorem le_roundDiv {num den n : Nat} (hd : 0 < den) (h : n * den ≤ num) :
    n ≤ roundDiv num den := by
  have hq := (Nat.le_div_iff_mul_le hd).2 h
  unfold roundDiv
  dsimp only
  split <;> omega

theorem roundDiv_le {num den n : Nat} (hd : 0 < den) (h : num < n * den) :
    roundDiv num den ≤ n := by
  have hq := (Nat.div_lt_iff_lt_mul hd).2 h
  unfold roundDiv
  dsimp only
  split <;> omega

/-- At the spacing that `nearestCode` takes, the quotient has fifty-three bits, or fewer if no
spacing is smaller. -/
theorem mantissa_bounds (num : Nat) {den s : Nat} (hd : 0 < den)
    (hs : s = (num / den).log2 - 52) :
    (s = 0 ∨ 2 ^ 52 * (den * 2 ^ s) ≤ num) ∧ num < 2 ^ 53 * (den * 2 ^ s) := by
  constructor
  · rcases Nat.eq_zero_or_pos s with h | h
    · exact .inl h
    · have hq : num / den ≠ 0 := by
        intro hq
        rw [hq, Nat.log2_zero] at hs
        omega
      have hlog : (num / den).log2 = 52 + s := by omega
      have hle := Nat.log2_self_le hq
      rw [hlog, Nat.le_div_iff_mul_le hd, Nat.pow_add] at hle
      refine .inr (Nat.le_trans (Nat.le_of_eq ?_) hle)
      rw [Nat.mul_assoc, Nat.mul_comm den]
  · have hlt : num / den < 2 ^ (53 + s) :=
      Nat.lt_of_lt_of_le Nat.lt_log2_self (Nat.pow_le_pow_right (by decide) (by omega))
    rw [Nat.div_lt_iff_lt_mul hd, Nat.pow_add] at hlt
    rwa [Nat.mul_comm den, ← Nat.mul_assoc]

section
variable {num den s r : Nat} (hd : 0 < den) (hs : s = (num / den).log2 - 52)
  (hr : r = roundDiv num (den * 2 ^ s))
include hd hs hr

theorem mantissa_round : (s = 0 ∨ 2 ^ 52 ≤ r) ∧ r ≤ 2 ^ 53 := by
  have hD : 0 < den * 2 ^ s := Nat.mul_pos hd (Nat.two_pow_pos s)
  obtain ⟨hlow, hup⟩ := mantissa_bounds num hd hs
  subst hr
  exact ⟨hlow.imp_right (le_roundDiv hD), roundDiv_le hD hup⟩

theorem units_round : units (s * 2 ^ 52 + r) * den = r * (den * 2 ^ s) := by
  obtain ⟨hlow, hup⟩ := mantissa_round hd hs hr
  rw [units_add hlow hup, Nat.mul_assoc, Nat.mul_comm (2 ^ s)]

/-- The quotient is not below the midpoint with the code before. Where the spacing of that code is
half of the own one, the quotient is at least the own value, as no smaller one is taken there. -/
theorem lower_midpoint {i : Nat} (hi : s * 2 ^ 52 + r = i + 1) :
    units i * den + units (s * 2 ^ 52 + r) * den < 2 * num ∨
      units i * den + units (s * 2 ^ 52 + r) * den = 2 * num ∧ (s * 2 ^ 52 + r) % 2 = 0 := by
  have hD : 0 < den * 2 ^ s := Nat.mul_pos hd (Nat.two_pow_pos s)
  obtain ⟨hlow, hup⟩ := mantissa_round hd hs hr
  have hk := units_round hd hs hr
  by_cases hfirst : s ≠ 0 ∧ r = 2 ^ 52
  · obtain ⟨hne, rfl⟩ := hfirst
    have hlt := units_mul_lt hd (show i < s * 2 ^ 52 + 2 ^ 52 by omega)
    have hle := (mantissa_bounds num hd hs).1.resolve_left hne
    omega
  · obtain ⟨r', rfl⟩ : ∃ r', r = r' + 1 := ⟨r - 1, by omega⟩
    obtain rfl : i = s * 2 ^ 52 + r' := by omega
    have hk' : units (s * 2 ^ 52 + r') * den = r' * (den * 2 ^ s) := by
      rw [units_add (by omega) (by omega), Nat.mul_assoc, Nat.mul_comm (2 ^ s)]
    have hspec := (roundDiv_spec num hD).1
    rw [← hr, Nat.add_one_mul r'] at hspec
    rw [hk, hk', Nat.add_one_mul r']
    omega

/-- The quotient is not above the midpoint with the code behind. -/
theorem upper_midpoint :
    2 * num < units (s * 2 ^ 52 + r) * den + units (s * 2 ^ 52 + r + 1) * den ∨
      2 * num = units (s * 2 ^ 52 + r) * den + units (s * 2 ^ 52 + r + 1) * den ∧
        (s * 2 ^ 52 + r) % 2 = 0 := by
  have hD : 0 < den * 2 ^ s := Nat.mul_pos hd (Nat.two_pow_pos s)
  obtain ⟨hlow, hup⟩ := mantissa_round hd hs hr
  have hk := units_round hd hs hr
  rcases Nat.lt_or_eq_of_le hup with hlt | rfl
  · have hk' : units (s * 2 ^ 52 + r + 1) * den = (r + 1) * (den * 2 ^ s) := by
      rw [Nat.add_assoc, units_add (by omega) hlt, Nat.mul_assoc, Nat.mul_comm (2 ^ s)]
    have hspec := (roundDiv_spec num hD).2
    rw [← hr] at hspec
    rw [hk, hk', Nat.add_one_mul r]
    omega
  · have hlt := units_mul_lt hd (Nat.lt_succ_self (s * 2 ^ 52 + 2 ^ 53))
    have hnum := (mantissa_bounds num hd hs).2
    rw [Nat.succ_eq_add_one] at hlt
    omega

end

/-- The computed code is the nearest one. Past infinity, the quotient is at least the code before
its own, and so at least infinity. -/
theorem isNearest_nearestCode (num : Nat) {den : Nat} (hd : 0 < den) :
    IsNearest num den (nearestCode num den) := by
  obtain ⟨s, hs⟩ : ∃ s, s = (num / den).log2 - 52 := ⟨_, rfl⟩
  obtain ⟨r, hr⟩ : ∃ r, r = roundDiv num (den * 2 ^ s) := ⟨_, rfl⟩
  have hc : nearestCode num den = min (s * 2 ^ 52 + r) infinityCode := by
    simp only [nearestCode, Nat.pow_eq, ← hs, ← hr]
  rw [hc]
  rcases Nat.lt_or_ge infinityCode (s * 2 ^ 52 + r) with hlt | hle
  · rw [Nat.min_eq_right hlt.le]
    obtain ⟨i, hi⟩ : ∃ i, s * 2 ^ 52 + r = i + 1 := ⟨s * 2 ^ 52 + r - 1, by omega⟩
    have hmid := lower_midpoint hd hs hr hi
    have hstep := units_mul_lt hd (show i < s * 2 ^ 52 + r by omega)
    have hinf : units infinityCode * den ≤ units i * den :=
      Nat.mul_le_mul_right den (units_strictMono.monotone (by omega))
    exact .infinityCode_of_le hd (by omega)
  · rw [Nat.min_eq_left hle]
    exact .of_midpoints hd hle (fun i => lower_midpoint hd hs hr) fun _ => upper_midpoint hd hs hr

/-- The nearest code is the computed one. -/
theorem isNearest_iff {num den k : Nat} (hd : 0 < den) :
    IsNearest num den k ↔ k = nearestCode num den :=
  ⟨fun h => h.unique hd (isNearest_nearestCode num hd), fun h => h ▸ isNearest_nearestCode num hd⟩

/-! ## Decimals -/

/-- The exponent is given by an equation, as no power of this size is to be computed. -/
theorem exists_one_eq : ∃ n, n = 1074 ∧ one = 2 ^ n :=
  ⟨1074, rfl, by decide +kernel⟩

theorem one_pos : 0 < one := by
  obtain ⟨n, -, hone⟩ := exists_one_eq
  rw [hone]
  exact Nat.two_pow_pos n

theorem exists_units_infinityCode_eq : ∃ n, n = 2098 ∧ units infinityCode = 2 ^ n := by
  obtain ⟨s, hs⟩ : ∃ s, s = 2046 := ⟨_, rfl⟩
  have h : infinityCode = s * 2 ^ 52 + 2 ^ 52 := by
    rw [hs]
    decide
  refine ⟨52 + s, by omega, ?_⟩
  rw [h, units_add (.inr (Nat.le_refl _)) (by decide), Nat.pow_add]

/-- A power of ten has more than three bits for each digit. -/
theorem two_pow_le_ten_pow {a n : Nat} (h : a ≤ 3 * n) : 2 ^ a ≤ 10 ^ n :=
  calc 2 ^ a ≤ 2 ^ (3 * n) := Nat.pow_le_pow_right (by decide) h
    _ = 8 ^ n := Nat.pow_mul 2 3 n
    _ ≤ 10 ^ n := Nat.pow_le_pow_left (by decide) n

/-- The code is that of the double nearest to a decimal. -/
def Decimal.IsNearest (d : Decimal) (k : Nat) : Prop :=
  Double.IsNearest (d.digits * 10 ^ d.exponent.toNat * one) (10 ^ (-d.exponent).toNat) k

theorem ten_pow_pos (n : Nat) : 0 < 10 ^ n := Nat.pow_pos (by decide)

/-- Even one step is as large as infinity. -/
theorem Decimal.isNearest_infinityCode {d : Decimal} (hd : d.digits ≠ 0) (he : 400 < d.exponent) :
    d.IsNearest infinityCode := by
  obtain ⟨n, hn, hone⟩ := exists_one_eq
  obtain ⟨m, hm, hinf⟩ := exists_units_infinityCode_eq
  refine .infinityCode_of_le (ten_pow_pos _) ?_
  rw [show (-d.exponent).toNat = 0 by omega, Nat.pow_zero, Nat.mul_one, hinf]
  calc 2 ^ m = 2 ^ (m - n) * one := by rw [hone, ← Nat.pow_add, Nat.sub_add_cancel (by omega)]
    _ ≤ 10 ^ d.exponent.toNat * one := Nat.mul_le_mul_right one (two_pow_le_ten_pow (by omega))
    _ ≤ d.digits * 10 ^ d.exponent.toNat * one :=
      Nat.mul_le_mul_right one (Nat.le_mul_of_pos_left _ (Nat.pos_of_ne_zero hd))

/-- All the steps together are less than half a unit. -/
theorem Decimal.isNearest_zero {d : Decimal} (he : d.exponent < -(400 + d.digits.log2)) :
    d.IsNearest 0 := by
  obtain ⟨n, hn, hone⟩ := exists_one_eq
  have hlog : d.digits < 2 ^ (d.digits.log2 + 1) := Nat.lt_log2_self
  refine .of_midpoints (ten_pow_pos _) (Nat.zero_le _) nofun fun _ => .inl ?_
  rw [show d.exponent.toNat = 0 by omega, Nat.pow_zero, Nat.mul_one, units_zero, units_one,
    Nat.zero_mul, Nat.zero_add, Nat.one_mul]
  calc 2 * (d.digits * one) < 2 * (2 ^ (d.digits.log2 + 1) * one) :=
        Nat.mul_lt_mul_of_pos_left (Nat.mul_lt_mul_of_pos_right hlog one_pos) (by decide)
    _ = 2 ^ (1 + (d.digits.log2 + 1 + n)) := by
        rw [hone, Nat.pow_add 2 1, Nat.pow_add 2 _ n, Nat.pow_one]
    _ ≤ 10 ^ (-d.exponent).toNat := two_pow_le_ten_pow (by omega)

/-- A decimal is read as the double nearest to it. -/
theorem Decimal.isNearest_code (d : Decimal) : d.IsNearest d.code := by
  unfold Decimal.code
  split
  · rename_i h
    refine .of_eq (ten_pow_pos _) (Nat.zero_le _) ?_
    rw [h, units_zero, Nat.zero_mul, Nat.zero_mul, Nat.zero_mul]
  split
  · exact isNearest_infinityCode ‹_› ‹_›
  split
  · exact isNearest_zero ‹_›
  split
  · rw [IsNearest, show (-d.exponent).toNat = 0 by omega]
    exact isNearest_nearestCode _ (by decide)
  · rw [IsNearest, show d.exponent.toNat = 0 by omega, Nat.pow_zero, Nat.mul_one]
    exact isNearest_nearestCode _ (ten_pow_pos _)

theorem Decimal.isNearest_iff_of_mul_eq {d d' : Decimal} {k : Nat}
    (h : d.digits * 10 ^ d.exponent.toNat * 10 ^ (-d'.exponent).toNat =
      d'.digits * 10 ^ d'.exponent.toNat * 10 ^ (-d.exponent).toNat) :
    d.IsNearest k ↔ d'.IsNearest k := by
  have he : d.digits * 10 ^ d.exponent.toNat * one * 10 ^ (-d'.exponent).toNat =
      d'.digits * 10 ^ d'.exponent.toNat * one * 10 ^ (-d.exponent).toNat := by
    rw [Nat.mul_right_comm, h, Nat.mul_right_comm]
  exact ⟨fun hn => hn.of_mul_eq (ten_pow_pos _) (ten_pow_pos _) he,
    fun hn => hn.of_mul_eq (ten_pow_pos _) (ten_pow_pos _) he.symm⟩

/-- Zeros behind the digits are a power of ten. -/
theorem Decimal.isNearest_shift (n z : Nat) (e : Int) {k : Nat} :
    IsNearest ⟨n * 10 ^ z, e⟩ k ↔ IsNearest ⟨n, e + z⟩ k := by
  refine isNearest_iff_of_mul_eq ?_
  have hp : z + e.toNat + (-(e + z)).toNat = (e + z).toNat + (-e).toNat := by omega
  dsimp only
  rw [Nat.mul_assoc, Nat.mul_assoc, Nat.mul_assoc, ← Nat.pow_add, ← Nat.pow_add, ← Nat.pow_add,
    ← hp, Nat.add_assoc]

end Scriptlet.Double
