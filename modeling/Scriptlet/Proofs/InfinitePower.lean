import Scriptlet.Operation
import Scriptlet.Proofs.Bits
import Scriptlet.Proofs.Rounding

/-!
# Signs of infinite powers

A power of two finite numbers is infinite if it is too large, or if the base is a zero and the
exponent is below zero. Its sign should be the one that every power has, that of the base if the
exponent is odd; and a zero to a number below zero should be the infinity that one divided by the
opposite power is (`SignedPower`). Both fail for one kind of power only, a negative zero to a
negative odd number (`LosesSign`): there the power is infinity, and the quotient is negative
infinity (`signedPower_iff`). The rule behind it is `eq_signed_or_of_isInfinite`: an infinite power
has its sign unless the base is a zero.
-/

namespace Scriptlet.Double

/-! ## Odd exponents -/

/-- An odd number of ones, of either sign. -/
def IsOdd (x : Float) : Prop := isFinite x = true ∧ ∃ n, units (code x) = (2 * n + 1) * one

theorem isOdd_iff {x : Float} : isOdd x = true ↔ IsOdd x := by
  simp only [isOdd, isWhole, IsOdd, Bool.and_eq_true, decide_eq_true_eq, and_assoc]
  refine and_congr_right fun _ => ⟨fun ⟨hwhole, hodd⟩ => ?_, fun ⟨n, hn⟩ => ?_⟩
  · have hone := Nat.div_mul_cancel (Nat.dvd_of_mod_eq_zero hwhole)
    obtain ⟨n, hn⟩ : ∃ n, units (code x) / one = 2 * n + 1 := ⟨units (code x) / one / 2, by omega⟩
    exact ⟨n, by rw [← hn, hone]⟩
  · rw [hn, Nat.mul_mod_left, Nat.mul_div_cancel _ one_pos]
    exact ⟨rfl, by omega⟩

/-- Whether a number is odd does not depend on its sign. -/
theorem isOdd_neg {x : Float} (hx : isFinite x = true) : isOdd (-x) = isOdd x := by
  have hc : code x < infinityCode := of_decide_eq_true hx
  have hn : code (-x) = code x := by rw [neg_eq hc.le, code_ofCode _ hc.le]
  simp only [isOdd, isWhole, isFinite, hn]

/-! ## Infinities -/

theorem neg_infinity_eq : -infinity = ofCode true infinityCode := by decide

theorem isInfinite_infinity : isInfinite infinity = true := by decide

theorem isFinite_ofCode (negative : Bool) {k : Nat} (h : k < infinityCode) :
    isFinite (ofCode negative k) = true := by
  rw [isFinite, code_ofCode negative h.le]
  exact decide_eq_true h

theorem not_isInfinite {x : Float} (h : isFinite x = true) : ¬ isInfinite x = true := by
  simp only [isFinite, isInfinite, decide_eq_true_eq] at h ⊢
  omega

theorem ofCode_infinityCode_eq_iff {negative : Bool} :
    ofCode negative infinityCode = -infinity ↔ negative = true := by
  cases negative <;> decide

/-- One divided by a zero is the infinity of its sign. -/
theorem one_div_zero (negative : Bool) : 1 / ofCode negative 0 = ofCode negative infinityCode := by
  cases negative <;> decide

/-! ## Powers of finite numbers -/

section
variable {a b : Float}

theorem isFinite_of_finitePower {p : Float} (h : finitePower a b = .ok p) : isFinite p = true := by
  unfold finitePower at h
  dsimp only at h
  split at h
  · split at h
    · cases h
      decide
    split at h
    · cases h
    · cases h
      exact isFinite_ofCode _ (by decide)
  split at h
  · cases h
  split at h
  · rename_i hp
    cases h
    exact isFinite_ofCode _ (of_decide_eq_true hp)
  · cases h

theorem finitePower_of_zero (h0 : code a = 0) : finitePower a b =
    if code b = 0 then .ok 1
    else if isNegative b then .error .undefined
    else .ok (ofCode (isNegative a && isOdd b) 0) :=
  if_pos h0

variable (ha : isFinite a = true) (hb : isFinite b = true)

include hb in
theorem lt_zero_of_undefined (h0 : code a = 0) (h : finitePower a b = .error .undefined) :
    b < 0 := by
  rw [finitePower_of_zero h0] at h
  split at h
  · cases h
  split at h
  · exact (lt_zero_iff hb).2 ⟨‹_›, ‹_›⟩
  · cases h

include ha hb

theorem power_of_ok {p : Float} (h : finitePower a b = .ok p) : power a b = p := by
  simp only [power, ha, hb, h, Bool.and_self, if_true]

theorem power_of_tooLarge (h : finitePower a b = .error .tooLarge) :
    power a b = ofCode (isNegative a && isOdd b) infinityCode := by
  simp only [power, ha, hb, h, Bool.and_self, if_true]
  cases isNegative a && isOdd b
  · rfl
  · exact neg_infinity_eq

theorem power_of_undefined (h : finitePower a b = .error .undefined) :
    power a b = if code a = 0 then infinity else notANumber := by
  simp only [power, ha, hb, h, Bool.and_self, if_true]

/-- A power of a zero to a number below zero is infinite and has no sign. -/
theorem power_eq_infinity (h0 : code a = 0) (hneg : b < 0) : power a b = infinity := by
  obtain ⟨hsign, hne⟩ := (lt_zero_iff hb).1 hneg
  have hpow : finitePower a b = .error .undefined := by
    rw [finitePower_of_zero h0, if_neg hne, if_pos hsign]
  rw [power_of_undefined ha hb hpow, if_pos h0]

/-- The opposite power is a zero, and has the sign. -/
theorem power_neg_eq_zero (h0 : code a = 0) (hneg : b < 0) :
    power a (-b) = ofCode (isNegative a && isOdd b) 0 := by
  obtain ⟨hsign, hne⟩ := (lt_zero_iff hb).1 hneg
  have hc : code b < infinityCode := of_decide_eq_true hb
  have hbneg := neg_eq hc.le
  rw [hsign] at hbneg
  have hfin : isFinite (-b) = true := by rw [hbneg]; exact isFinite_ofCode _ hc
  have hcode : code (-b) ≠ 0 := by rw [hbneg, code_ofCode _ hc.le]; exact hne
  have hpos : isNegative (-b) = false := by rw [hbneg, isNegative_ofCode _ hc.le]; rfl
  rw [← isOdd_neg hb]
  refine power_of_ok ha hfin ?_
  rw [finitePower_of_zero h0, if_neg hcode, hpos]
  rfl

/-- An infinite power has its sign, or is one of a zero to a number below zero. -/
theorem eq_signed_or_of_isInfinite (h : isInfinite (power a b) = true) :
    power a b = ofCode (isNegative a && isOdd b) infinityCode ∨ code a = 0 ∧ b < 0 := by
  cases hp : finitePower a b with
  | ok p =>
    rw [power_of_ok ha hb hp] at h
    exact absurd h (not_isInfinite (isFinite_of_finitePower hp))
  | error e =>
    cases e with
    | tooLarge => exact .inl (power_of_tooLarge ha hb hp)
    | undefined =>
      by_cases h0 : code a = 0
      · exact .inr ⟨h0, lt_zero_of_undefined hb h0 hp⟩
      · rw [power_of_undefined ha hb hp, if_neg h0] at h
        exact absurd h (by decide)

end

/-! ## The law and its exception -/

/-- The sign that a power of finite numbers should have if it is infinite. -/
structure SignedPower (a b : Float) : Prop where
  /-- It is the sign of the base if the exponent is odd. -/
  eq_neg_infinity_iff : isInfinite (Arithmetic.power.compute a b) = true →
    (Arithmetic.power.compute a b = -infinity ↔ isNegative a = true ∧ IsOdd b)
  /-- A zero to a number below zero is the infinity that one divided by the opposite power is. -/
  eq_one_div : a = 0 ∨ a = -0 → b < 0 →
    isInfinite (Arithmetic.power.compute a b) = true ∧
      Arithmetic.power.compute a b =
        Arithmetic.divide.compute 1 (Arithmetic.power.compute a (-b))

/-- A negative zero to a negative odd number. -/
def LosesSign (a b : Float) : Prop := a = -0 ∧ b < 0 ∧ IsOdd b

section
variable {a b : Float}

/-- If the base is a zero, an odd exponent and a sign of the base are what the law fails for. -/
theorem losesSign_iff (h0 : code a = 0) (hneg : b < 0) :
    LosesSign a b ↔ (isNegative a && isOdd b) = true := by
  rw [Bool.and_eq_true, isOdd_iff]
  constructor
  · rintro ⟨rfl, -, hodd⟩
    exact ⟨by decide, hodd⟩
  · rintro ⟨hsign, hodd⟩
    refine ⟨?_, hneg, hodd⟩
    rw [neg_zero_eq, ← ofCode_code a, h0, hsign]

variable (ha : isFinite a = true) (hb : isFinite b = true)
include ha hb

/-- All other infinite powers have their sign. -/
theorem power_eq_of_not_losesSign (h : ¬ LosesSign a b) (hinf : isInfinite (power a b) = true) :
    power a b = ofCode (isNegative a && isOdd b) infinityCode := by
  rcases eq_signed_or_of_isInfinite ha hb hinf with he | ⟨h0, hneg⟩
  · exact he
  · rw [losesSign_iff h0 hneg, Bool.not_eq_true] at h
    rw [power_eq_infinity ha hb h0 hneg, h]
    rfl

theorem signedPower_of_not_losesSign (h : ¬ LosesSign a b) : SignedPower a b where
  eq_neg_infinity_iff hinf := by
    simp only [Arithmetic.compute] at hinf ⊢
    rw [power_eq_of_not_losesSign ha hb h hinf, ofCode_infinityCode_eq_iff, Bool.and_eq_true,
      isOdd_iff]
  eq_one_div hzero hneg := by
    have h0 := eq_zero_or_iff.1 hzero
    rw [losesSign_iff h0 hneg, Bool.not_eq_true] at h
    simp only [Arithmetic.compute]
    rw [power_eq_infinity ha hb h0 hneg, power_neg_eq_zero ha hb h0 hneg, h, one_div_zero]
    exact ⟨isInfinite_infinity, rfl⟩

/-- A negative zero to a negative odd number has no sign, while the quotient by the opposite power
has one. -/
theorem power_of_losesSign (h : LosesSign a b) :
    Arithmetic.power.compute a b = infinity ∧
      Arithmetic.divide.compute 1 (Arithmetic.power.compute a (-b)) = -infinity := by
  have h0 := eq_zero_or_iff.1 (.inr h.1)
  simp only [Arithmetic.compute]
  rw [power_neg_eq_zero ha hb h0 h.2.1, (losesSign_iff h0 h.2.1).1 h, one_div_zero]
  exact ⟨power_eq_infinity ha hb h0 h.2.1, neg_infinity_eq.symm⟩

/-- An infinite power of finite numbers has the sign it should have, unless it is one of a negative
zero to a negative odd number: then it is infinity, and should be negative infinity. -/
theorem signedPower_iff : (SignedPower a b ↔ ¬ LosesSign a b) ∧
    (LosesSign a b →
      Arithmetic.power.compute a b = infinity ∧
        Arithmetic.divide.compute 1 (Arithmetic.power.compute a (-b)) = -infinity) := by
  refine ⟨⟨fun hs hl => ?_, signedPower_of_not_losesSign ha hb⟩, power_of_losesSign ha hb⟩
  obtain ⟨hpow, hdiv⟩ := power_of_losesSign ha hb hl
  have he := (hs.eq_one_div (.inr hl.1) hl.2.1).2
  rw [hpow, hdiv] at he
  exact absurd he (by decide)

end

/-- A negative zero to the power minus two is infinity, and so is the quotient of one by its
square. -/
theorem signedPower_neg_zero :
    isFinite (-0) = true ∧ isFinite (-2) = true ∧ SignedPower (-0) (-2) :=
  ⟨by decide, by decide, (signedPower_iff (by decide) (by decide)).1.2 fun h =>
    absurd (isOdd_iff.2 h.2.2) (by decide +kernel)⟩

/-- A negative zero to the power minus one is infinity, and the quotient of one by a negative zero
is negative infinity. -/
theorem not_signedPower_neg_zero :
    isFinite (-0) = true ∧ isFinite (-1) = true ∧ ¬ SignedPower (-0) (-1) := by
  refine ⟨by decide, by decide, fun h => ?_⟩
  have hpow : Arithmetic.power.compute (-0) (-1) = infinity := by decide +kernel
  have hsign := (h.eq_neg_infinity_iff (by rw [hpow]; decide)).2
    ⟨by decide, isOdd_iff.1 (by decide +kernel)⟩
  rw [hpow] at hsign
  exact absurd hsign (by decide)

end Scriptlet.Double
