import Mathlib
import Scriptlet.Double.Basic

/-!
# Doubles and their codes

A double is its sign and its code (`ofCode_code`), and every code up to that of infinity is the code
of a double of either sign (`code_ofCode`, `isNegative_ofCode`). Both come from one fact about
words: a word that is no NaN but the chosen one is packed into what it was unpacked from
(`pack_unpack_of_valid`). Negation keeps the code and changes the sign (`neg_eq`). A finite double
is a zero if its code is, and else below zero if its sign is set (`lt_zero_iff`).
-/

namespace Scriptlet.Double

open Float.Model (Format)
open Float.Model.UnpackedFloat

/-! ## Words -/

theorem toNat_unpackMantissa (b : BitVec Format.binary64.numBits) :
    (unpackMantissa b).toNat = b.toNat % 2 ^ 52 := by
  rw [unpackMantissa, BitVec.toNat_cast, BitVec.extractLsb_toNat]
  rfl

theorem toNat_unpackExponent (b : BitVec Format.binary64.numBits) :
    (unpackExponent b).toNat = b.toNat / 2 ^ 52 % 2 ^ 11 := by
  rw [unpackExponent, BitVec.toNat_cast, BitVec.extractLsb_toNat, Nat.shiftRight_eq_div_pow]
  rfl

/-- A word whose code is at most that of infinity is no NaN. -/
theorem valid_of_le {b : UInt64} (h : b.toNat % Nat.pow 2 63 ≤ infinityCode) :
    Format.binary64.Valid b.toBitVec := by
  refine ⟨fun he hm => absurd (BitVec.eq_of_toNat_eq ?_) hm⟩
  have he := congrArg BitVec.toNat he
  rw [toNat_unpackExponent] at he
  rw [toNat_unpackMantissa]
  have hb : b.toBitVec.toNat = b.toNat := rfl
  have h1 : (-1#(Format.binary64.exponentBits)).toNat = 2047 := rfl
  have h0 : (0#(Format.binary64.mantissaBitsWithoutImplicit)).toNat = 0 := rfl
  simp only [hb, h1, h0, infinityCode, Nat.pow_eq] at he h ⊢
  omega

/-! ## Doubles -/

theorem toBits_ofBits {b : UInt64} (h : b.toNat % Nat.pow 2 63 ≤ infinityCode) :
    (Float.ofBits b).toBits = b :=
  congrArg UInt64.ofBitVec (pack_unpack_of_valid (valid_of_le h))

/-- The sign bit does not touch the code. -/
theorem signed_mod (negative : Bool) {k : Nat} (hk : k < Nat.pow 2 63) :
    (if negative then k + Nat.pow 2 63 else k) % Nat.pow 2 63 = k := by
  cases negative
  · exact Nat.mod_eq_of_lt hk
  · exact (Nat.add_mod_right _ _).trans (Nat.mod_eq_of_lt hk)

theorem toNat_ofCode (negative : Bool) {k : Nat} (h : k ≤ infinityCode) :
    (ofCode negative k).toBits.toNat = if negative then k + Nat.pow 2 63 else k := by
  have hk : k < Nat.pow 2 63 := Nat.lt_of_le_of_lt h (by decide)
  have hn : (UInt64.ofNat (if negative then k + Nat.pow 2 63 else k)).toNat =
      if negative then k + Nat.pow 2 63 else k := by
    rw [UInt64.toNat_ofNat']
    simp only [Nat.pow_eq] at hk ⊢
    split <;> omega
  rw [ofCode, toBits_ofBits (by rw [hn, signed_mod negative hk]; exact h), hn]

theorem code_ofCode (negative : Bool) {k : Nat} (h : k ≤ infinityCode) :
    code (ofCode negative k) = k := by
  rw [code, toNat_ofCode negative h]
  exact signed_mod negative (Nat.lt_of_le_of_lt h (by decide))

theorem isNegative_ofCode (negative : Bool) {k : Nat} (h : k ≤ infinityCode) :
    isNegative (ofCode negative k) = negative := by
  have hk : k < Nat.pow 2 63 := Nat.lt_of_le_of_lt h (by decide)
  rw [isNegative, toNat_ofCode negative h]
  cases negative
  · simpa using hk
  · simp

/-- A double is its sign and its code. -/
theorem ofCode_code (x : Float) : ofCode (isNegative x) (code x) = x := by
  have hx : x.toBits.toNat < 2 ^ 64 := x.toBits.toNat_lt
  have hb : UInt64.ofNat (if isNegative x then code x + Nat.pow 2 63 else code x) = x.toBits := by
    refine UInt64.toNat_inj.1 ?_
    simp only [isNegative, code, Nat.pow_eq, decide_eq_true_eq] at hx ⊢
    rw [UInt64.toNat_ofNat']
    split <;> omega
  rw [ofCode, hb, Float.ofBits_toBits]

/-! ## Negation -/

theorem toNat_packComponents (s : Sign) (e : BitVec Format.binary64.exponentBits)
    (m : BitVec Format.binary64.mantissaBitsWithoutImplicit) :
    (packComponents .binary64 s e m).toNat =
      s.toBitVec.toNat * 2 ^ 63 + (e.toNat * 2 ^ 52 + m.toNat) := by
  have he : 2 ^ Format.binary64.exponentBits = 2 ^ 11 := rfl
  have hm : 2 ^ Format.binary64.mantissaBitsWithoutImplicit = 2 ^ 52 := rfl
  rw [packComponents, BitVec.toNat_append, BitVec.toNat_append,
    ← Nat.shiftLeft_add_eq_or_of_lt m.isLt, ← Nat.shiftLeft_add_eq_or_of_lt e.isLt,
    Nat.shiftLeft_eq, Nat.shiftLeft_eq, he, hm]
  omega

/-- Negation of a number changes its sign and nothing else. -/
theorem exists_pack_neg (u : Float.Model.UnpackedFloat) (h : u ≠ .notANumber) :
    ∃ s e m, pack .binary64 u = packComponents .binary64 s e m ∧
      pack .binary64 u.neg = packComponents .binary64 (-s) e m := by
  cases u with
  | notANumber => exact absurd rfl h
  | infinity s => exact ⟨s, _, _, rfl, rfl⟩
  | zero s => exact ⟨s, _, _, rfl, rfl⟩
  | finite s m e hm =>
    unfold pack neg
    dsimp only
    split
    · exact ⟨s, _, _, rfl, rfl⟩
    split
    · exact ⟨s, _, _, rfl, rfl⟩
    · exact ⟨s, _, _, rfl, rfl⟩

/-- A double that is no NaN has the components of its word, and its negation has them with the
other sign. -/
theorem exists_components {x : Float} (h : code x ≤ infinityCode) :
    ∃ s e m, x.toBits.toBitVec = packComponents .binary64 s e m ∧
      (-x).toBits.toBitVec = packComponents .binary64 (-s) e m := by
  have hx : pack .binary64 (unpack .binary64 x.toBits.toBitVec) = x.toBits.toBitVec :=
    pack_unpack_of_valid (valid_of_le h)
  obtain ⟨s, e, m, hp, hn⟩ := exists_pack_neg (unpack .binary64 x.toBits.toBitVec) fun hu => by
    rw [hu] at hx
    have hc : code x = infinityCode + 2 ^ 51 := by
      rw [code, ← UInt64.toNat_toBitVec, ← hx]
      decide
    omega
  exact ⟨s, e, m, hx.symm.trans hp, hn⟩

theorem neg_eq {x : Float} (h : code x ≤ infinityCode) : -x = ofCode (!isNegative x) (code x) := by
  obtain ⟨s, e, m, hx, hn⟩ := exists_components h
  have hx := congrArg BitVec.toNat hx
  have hn := congrArg BitVec.toNat hn
  rw [toNat_packComponents, UInt64.toNat_toBitVec] at hx hn
  have he : e.toNat < 2 ^ 11 := e.isLt
  have hm : m.toNat < 2 ^ 52 := m.isLt
  have hs : s.toBitVec.toNat ≤ 1 ∧ (-s).toBitVec.toNat = 1 - s.toBitVec.toNat := by
    cases s <;> decide
  have hcode : code (-x) = code x := by
    simp only [code, hx, hn, Nat.pow_eq]
    omega
  have hsign : isNegative (-x) = !isNegative x := by
    rw [isNegative, isNegative, hx, hn, ← decide_not, decide_eq_decide, Nat.pow_eq]
    omega
  rw [← ofCode_code (-x), hcode, hsign]

/-! ## Zeros and numbers below zero -/

theorem zero_eq : (0 : Float) = ofCode false 0 := by decide

theorem neg_zero_eq : (-0 : Float) = ofCode true 0 := by decide

/-- The zeros are the doubles of code zero. -/
theorem eq_zero_or_iff {x : Float} : x = 0 ∨ x = -0 ↔ code x = 0 := by
  constructor
  · rintro (rfl | rfl) <;> decide
  · intro h
    rw [neg_zero_eq, zero_eq, ← ofCode_code x, h]
    cases isNegative x
    · exact .inl rfl
    · exact .inr rfl

theorem toNat_unpackSign (b : BitVec Format.binary64.numBits) :
    (unpackSign b).toNat = b.toNat / 2 ^ 63 % 2 := by
  rw [unpackSign, BitVec.toNat_cast, BitVec.extractLsb_toNat, Nat.shiftRight_eq_div_pow]
  rfl

theorem ofBitVec_unpackSign (b : BitVec Format.binary64.numBits) :
    Sign.ofBitVec (unpackSign b) = if 2 ^ 63 ≤ b.toNat then .negative else .positive := by
  have hb : b.toNat < 2 ^ 64 := b.isLt
  have hs := toNat_unpackSign b
  split
  · have h : unpackSign b = 1#1 := BitVec.eq_of_toNat_eq (by rw [hs, BitVec.toNat_ofNat]; omega)
    rw [h]
    rfl
  · have h : unpackSign b = 0#1 := BitVec.eq_of_toNat_eq (by rw [hs, BitVec.toNat_ofNat]; omega)
    rw [h]
    rfl

/-- A word whose code is below that of infinity is unpacked to a zero if the code is zero, and else
to a number that is none. -/
theorem unpack_of_lt {b : BitVec Format.binary64.numBits}
    (hb : b.toNat % 2 ^ 63 < 2047 * 2 ^ 52) :
    b.toNat % 2 ^ 63 = 0 ∧ unpack .binary64 b = .zero (.ofBitVec (unpackSign b)) ∨
      b.toNat % 2 ^ 63 ≠ 0 ∧
        ∃ m e hm, unpack .binary64 b = .finite (.ofBitVec (unpackSign b)) m e hm := by
  have he := toNat_unpackExponent b
  have hm := toNat_unpackMantissa b
  have h1 : (-1#(Format.binary64.exponentBits)).toNat = 2047 := rfl
  have h0 : (0#(Format.binary64.exponentBits)).toNat = 0 := rfl
  have h0' : (0#(Format.binary64.mantissaBitsWithoutImplicit)).toNat = 0 := rfl
  unfold unpack
  dsimp only
  rw [if_neg (by rw [← BitVec.toNat_inj, he, h1]; omega)]
  split
  · rename_i hexp
    rw [← BitVec.toNat_inj, he, h0] at hexp
    split
    · rename_i hman
      rw [← BitVec.toNat_inj, hm, h0'] at hman
      exact .inl ⟨by omega, rfl⟩
    · rename_i hman
      rw [← BitVec.toNat_inj, hm, h0'] at hman
      exact .inr ⟨by omega, _, _, by rw [hm]; omega, rfl⟩
  · rename_i hexp
    rw [← BitVec.toNat_inj, he, h0] at hexp
    have hpos : 0 < (1#1 ++ unpackMantissa b).toNat := by
      rw [BitVec.toNat_append]
      exact Nat.lt_of_lt_of_le (Nat.two_pow_pos 52) Nat.left_le_or
    exact .inr ⟨by omega, _, _, hpos, rfl⟩

theorem lt_zero_iff_compare {x : Float} :
    x < 0 ↔ x.toModel.unpack.compare (.zero .positive) = some .lt := by
  have h : (0 : Float).toModel.unpack = .zero .positive := rfl
  rw [← h]
  change decide ((x.toModel.unpack.compare _ == some .lt) = true) = true ↔ _
  rw [decide_eq_true_iff, beq_iff_eq]

theorem lt_zero_iff {x : Float} (hx : isFinite x = true) :
    x < 0 ↔ isNegative x = true ∧ code x ≠ 0 := by
  have hb : x.toModel.toBits.toBitVec.toNat % 2 ^ 63 < 2047 * 2 ^ 52 := of_decide_eq_true hx
  have hn : isNegative x = decide (2 ^ 63 ≤ x.toModel.toBits.toBitVec.toNat) := rfl
  have hc : code x = x.toModel.toBits.toBitVec.toNat % 2 ^ 63 := rfl
  rw [lt_zero_iff_compare, Float.Model.unpack, hn, hc, decide_eq_true_iff]
  rcases unpack_of_lt hb with ⟨h0, hu⟩ | ⟨h0, m, e, hm, hu⟩
  · rw [hu]
    exact ⟨nofun, fun h => absurd h0 h.2⟩
  · rw [hu, ofBitVec_unpackSign]
    split
    · exact ⟨fun _ => ⟨‹_›, h0⟩, fun _ => rfl⟩
    · exact ⟨nofun, fun h => absurd h.1 ‹_›⟩

end Scriptlet.Double
