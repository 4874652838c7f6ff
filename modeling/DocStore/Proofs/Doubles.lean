import Mathlib.Tactic.Ring
import DocStore.Double

/-!
# Integers as doubles

Which doubles compare as equal, and what the nearest double of an integer is: below `2 ^ 53` the
integer itself (`scaled_ofInt`), from there on nothing smaller than that (`ofInt_large`). So a double
that compares as equal to an integer and is not too large stands for that very integer
(`wholeBelow?_of_compare`).
-/

namespace DocStore.Double

-- ---------------------------------------------------------------------------
-- Sign and magnitude
-- ---------------------------------------------------------------------------

theorem signBit_eq : signBit = 2 ^ 63 := rfl

theorem hiddenBit_eq : hiddenBit = 2 ^ 52 := rfl

theorem infinityBits_eq : infinityBits = 2047 * 2 ^ 52 := rfl

theorem ext_fields {x y : Double} (hsign : x.isNegative = y.isNegative)
    (hmagnitude : x.magnitude = y.magnitude) : x = y := by
  obtain ⟨bits⟩ := x
  obtain ⟨bits'⟩ := y
  congr 1
  apply UInt64.toNat_inj.mp
  have hbits := bits.toNat_lt
  have hbits' := bits'.toNat_lt
  have hsign : signBit ≤ bits.toNat ↔ signBit ≤ bits'.toNat := decide_eq_decide.mp hsign
  simp only [signBit_eq] at hsign
  simp only [magnitude, signBit_eq] at hmagnitude
  omega

section OfMagnitude

variable {negative : Bool} {m : Nat} (h : m < signBit)
include h

theorem toNat_ofMagnitude :
    (ofMagnitude negative m).bits.toNat = if negative then signBit + m else m := by
  have hsign := signBit_eq
  unfold ofMagnitude
  split <;> rw [UInt64.toNat_ofNat_of_lt' (by rw [UInt64.size]; omega)]

theorem isNegative_ofMagnitude : (ofMagnitude negative m).isNegative = negative := by
  rw [isNegative, toNat_ofMagnitude h]
  cases negative with
  | false => simpa using h
  | true => simp

theorem magnitude_ofMagnitude : (ofMagnitude negative m).magnitude = m := by
  rw [magnitude, toNat_ofMagnitude h]
  cases negative with
  | false => exact Nat.mod_eq_of_lt h
  | true => simpa using Nat.mod_eq_of_lt h

end OfMagnitude

-- ---------------------------------------------------------------------------
-- Comparison
-- ---------------------------------------------------------------------------

theorem eq_of_totalPlace {x y : Double} (h : x.totalPlace = y.totalPlace) : x = y := by
  unfold totalPlace at h
  apply ext_fields <;> cases hx : x.isNegative <;> cases hy : y.isNegative <;>
    simp only [hx, hy, if_true, if_false, Bool.false_eq_true] at h ⊢ <;> omega

theorem eq_of_place {x y : Double} (h : x.place = y.place) :
    x = y ∨ x.magnitude = 0 ∧ y.magnitude = 0 := by
  unfold place at h
  by_cases hsign : x.isNegative = y.isNegative
  · refine .inl (ext_fields hsign ?_)
    rw [hsign] at h
    split at h <;> omega
  · refine .inr ?_
    cases hx : x.isNegative <;> cases hy : y.isNegative <;>
      simp only [hx, hy, if_true, if_false, Bool.false_eq_true, not_true] at h hsign <;> omega

/-- Doubles that compare as equal are the same, but for the sign of zero. -/
theorem eq_of_compare {x y : Double} (h : x.compare y = .eq) :
    x = y ∨ x.magnitude = 0 ∧ y.magnitude = 0 := by
  unfold compare at h
  split at h
  · exact .inl (eq_of_totalPlace (Std.compare_eq_iff_eq.mp h))
  · exact eq_of_place (Std.compare_eq_iff_eq.mp h)

-- ---------------------------------------------------------------------------
-- Size
-- ---------------------------------------------------------------------------

theorem pow_eq_unit {power : Nat} (h : power = 1074) : 2 ^ power = unit := by
  rw [← Nat.one_shiftLeft, h, unit]

theorem natAbs_scaled (x : Double) : x.scaled.natAbs = x.decompose.1 * 2 ^ x.decompose.2 := by
  simp only [scaled, Nat.shiftLeft_eq]
  split
  · rw [Int.natAbs_neg, Int.natAbs_natCast]
  · rw [Int.natAbs_natCast]

theorem decompose_of_normal {x : Double} (h : hiddenBit ≤ x.magnitude) :
    x.decompose = (hiddenBit + x.magnitude % hiddenBit, x.magnitude / hiddenBit - 1) := by
  have hexponent : x.magnitude / hiddenBit ≠ 0 :=
    (Nat.div_pos h (by decide)).ne'
  simp only [decompose, hexponent, if_false]

theorem scaled_of_zero {x : Double} (h : x.magnitude = 0) : x.scaled = 0 := by
  simp [scaled, decompose, h]

theorem natAbs_scaled_of_large {x : Double} (h : 1076 * hiddenBit ≤ x.magnitude) :
    2 ^ 53 * unit ≤ x.scaled.natAbs := by
  have hpositive : 0 < hiddenBit := by decide
  have hexponent : 1076 ≤ x.magnitude / hiddenBit := (Nat.le_div_iff_mul_le hpositive).mpr h
  have hnormal : hiddenBit ≤ x.magnitude := Nat.le_trans (Nat.le_mul_of_pos_left _ (by decide)) h
  obtain ⟨power, k, hpower, hk⟩ : ∃ power k, power = 1074 ∧
      x.magnitude / hiddenBit - 1 = power + (k + 1) :=
    ⟨1074, x.magnitude / hiddenBit - 1076, rfl, by omega⟩
  rw [natAbs_scaled, decompose_of_normal hnormal, hk, Nat.pow_add, pow_eq_unit hpower]
  have hdouble : ∀ u : Nat, 2 ^ 53 * u = hiddenBit * (u * 2) := fun u => by
    rw [hiddenBit_eq]
    omega
  calc 2 ^ 53 * unit = hiddenBit * (unit * 2) := hdouble unit
    _ ≤ (hiddenBit + x.magnitude % hiddenBit) * (unit * 2 ^ (k + 1)) := by
      refine Nat.mul_le_mul (Nat.le_add_right _ _) (Nat.mul_le_mul_left _ ?_)
      exact Nat.le_self_pow (Nat.succ_ne_zero k) 2

-- ---------------------------------------------------------------------------
-- Integers
-- ---------------------------------------------------------------------------

theorem roundQuotient_one (n : Nat) : roundQuotient n 1 = n := by
  simp [roundQuotient, Nat.mod_one]

theorem binaryExponent_one {n : Nat} (h : n ≠ 0) : binaryExponent n 1 = n.log2 := by
  have hlow : ¬ n < 1 <<< n.log2 := by
    rw [Nat.one_shiftLeft]
    exact Nat.not_lt.mpr (Nat.log2_self_le h)
  have hone : Nat.log2 1 = 0 := by decide
  simp [binaryExponent, hone, hlow]

/-- The significand of a whole number, rounded from `2 ^ 53` on. -/
def wholeSignificand (n : Nat) : Nat :=
  if 52 ≤ n.log2 then roundQuotient n (1 <<< (n.log2 - 52)) else n <<< (52 - n.log2)

theorem ofRatio_one {negative : Bool} {n : Nat} (h : n ≠ 0) :
    ofRatio negative n 1 =
      ofMagnitude negative
        (min ((n.log2 + 1022) * hiddenBit + wholeSignificand n) infinityBits) := by
  have hmax : max (n.log2 : Int) (-1022) = n.log2 := max_eq_left (by omega)
  have hexponent : ((n.log2 : Int) + 1022).toNat = n.log2 + 1022 := by omega
  unfold ofRatio wholeSignificand
  simp only [if_neg h, binaryExponent_one h, hmax, hexponent]
  by_cases hlog : 52 ≤ n.log2
  · have hulp : (0 : Int) ≤ n.log2 - 52 := by omega
    have hnat : ((n.log2 : Int) - 52).toNat = n.log2 - 52 := by omega
    simp only [hulp, hlog, if_true, hnat]
  · have hulp : ¬ (0 : Int) ≤ n.log2 - 52 := by omega
    have hnat : (-((n.log2 : Int) - 52)).toNat = 52 - n.log2 := by omega
    simp only [hulp, hlog, if_false, hnat, roundQuotient_one]

theorem wholeSignificand_small {n : Nat} (hsmall : n < 2 ^ 53) :
    wholeSignificand n = n * 2 ^ (52 - n.log2) := by
  unfold wholeSignificand
  split
  · rename_i hlog
    have hzero : n.log2 - 52 = 0 := by
      by_cases hn : n = 0
      · subst hn
        rfl
      · have := (Nat.log2_lt hn).mpr hsmall
        omega
    have hzero' : 52 - n.log2 = 0 := by omega
    rw [hzero, hzero', Nat.shiftLeft_zero, roundQuotient_one, Nat.pow_zero, Nat.mul_one]
  · rw [Nat.shiftLeft_eq]

theorem le_wholeSignificand {n : Nat} (h : n ≠ 0) (hlog : 52 ≤ n.log2) :
    hiddenBit ≤ wholeSignificand n := by
  have hlow : hiddenBit ≤ n / 2 ^ (n.log2 - 52) := by
    rw [Nat.le_div_iff_mul_le (Nat.two_pow_pos _), hiddenBit_eq, ← Nat.pow_add,
      Nat.add_sub_cancel' hlog]
    exact Nat.log2_self_le h
  refine Nat.le_trans hlow ?_
  simp only [wholeSignificand, hlog, if_true, Nat.one_shiftLeft, roundQuotient]
  split
  · exact Nat.le_refl _
  · split
    · exact Nat.le_succ _
    · exact Nat.le_add_right _ _

theorem natAbs_scaled_small {negative : Bool} {n : Nat} (h : n ≠ 0) (hsmall : n < 2 ^ 53) :
    (ofRatio negative n 1).isNegative = negative ∧
      (ofRatio negative n 1).scaled.natAbs = n * unit ∧ (ofRatio negative n 1).isFinite = true := by
  have hlog : n.log2 ≤ 52 := by
    have := (Nat.log2_lt h).mpr hsmall
    omega
  -- Moved up, the leading bit is the hidden one.
  have hlow : hiddenBit ≤ n * 2 ^ (52 - n.log2) := by
    calc hiddenBit = 2 ^ n.log2 * 2 ^ (52 - n.log2) := by
          rw [← Nat.pow_add, Nat.add_sub_cancel' hlog, hiddenBit_eq]
      _ ≤ n * 2 ^ (52 - n.log2) := Nat.mul_le_mul_right _ (Nat.log2_self_le h)
  have hhigh : n * 2 ^ (52 - n.log2) < 2 * hiddenBit := by
    calc n * 2 ^ (52 - n.log2) < 2 ^ (n.log2 + 1) * 2 ^ (52 - n.log2) :=
          Nat.mul_lt_mul_of_pos_right Nat.lt_log2_self (Nat.two_pow_pos _)
      _ = 2 * hiddenBit := by
          rw [← Nat.pow_add, hiddenBit_eq, ← Nat.pow_succ']
          congr 1
          omega
  obtain ⟨fraction, hfraction⟩ := Nat.exists_eq_add_of_le hlow
  have hlt : fraction < hiddenBit := by omega
  obtain ⟨m, hm⟩ : ∃ m, m = (n.log2 + 1023) * hiddenBit + fraction := ⟨_, rfl⟩
  have hbits : (n.log2 + 1022) * hiddenBit + n * 2 ^ (52 - n.log2) = m := by
    rw [hfraction, hm]
    ring
  have hfinite : m < infinityBits := by
    rw [hiddenBit_eq] at hm hlt
    rw [infinityBits_eq]
    omega
  have hsign : m < signBit := Nat.lt_trans hfinite (by decide)
  have hratio : ofRatio negative n 1 = ofMagnitude negative m := by
    rw [ofRatio_one h, wholeSignificand_small hsmall, hbits, Nat.min_eq_left hfinite.le]
  have hmagnitude : (ofRatio negative n 1).magnitude = m := by
    rw [hratio, magnitude_ofMagnitude hsign]
  have hexponent : m / hiddenBit = n.log2 + 1023 := by
    rw [hm, Nat.mul_comm, Nat.mul_add_div (by decide), Nat.div_eq_of_lt hlt, Nat.add_zero]
  have hrest : m % hiddenBit = fraction := by
    rw [hm, Nat.mul_comm, Nat.mul_add_mod, Nat.mod_eq_of_lt hlt]
  have hnormal : hiddenBit ≤ m := by
    rw [hm, Nat.add_mul]
    exact Nat.le_trans (Nat.le_mul_of_pos_left _ (by decide)) (Nat.le_trans (Nat.le_add_left _ _)
      (Nat.le_add_right _ _))
  refine ⟨by rw [hratio, isNegative_ofMagnitude hsign], ?_, ?_⟩
  · have hpower : n.log2 + 1023 - 1 = n.log2 + 1022 := by omega
    have htotal : 52 - n.log2 + (n.log2 + 1022) = 1074 := by omega
    have hunit : 2 ^ (52 - n.log2) * 2 ^ (n.log2 + 1022) = unit := by
      rw [← Nat.pow_add, pow_eq_unit htotal]
    rw [natAbs_scaled, decompose_of_normal (hmagnitude ▸ hnormal), hmagnitude, hexponent, hrest,
      ← hfraction, hpower, Nat.mul_assoc, hunit]
  · rw [isFinite, hmagnitude]
    exact decide_eq_true hfinite

/-- From `2 ^ 53` on the nearest double may be another number, but never a smaller one than that. -/
theorem ofRatio_large {negative : Bool} {n : Nat} (hlarge : 2 ^ 53 ≤ n) :
    2 ^ 53 * unit ≤ (ofRatio negative n 1).scaled.natAbs := by
  have h : n ≠ 0 := by omega
  have hlog : 53 ≤ n.log2 := (Nat.le_log2 h).mpr hlarge
  have hsignificand := le_wholeSignificand h (by omega)
  let m := min ((n.log2 + 1022) * hiddenBit + wholeSignificand n) infinityBits
  have hm : m < signBit := Nat.lt_of_le_of_lt (Nat.min_le_right _ _) (by decide)
  refine natAbs_scaled_of_large ?_
  rw [ofRatio_one h, magnitude_ofMagnitude hm]
  refine Nat.le_min.mpr ⟨?_, by decide⟩
  rw [hiddenBit_eq] at hsignificand ⊢
  omega

theorem scaled_ofInt {n : Int} (h : n.natAbs < 2 ^ 53) :
    (ofInt n).scaled = n * unit ∧ (ofInt n).isFinite = true := by
  by_cases hn : n = 0
  · subst hn
    exact ⟨(Int.zero_mul _).symm, by decide⟩
  · obtain ⟨hsign, hscaled, hfinite⟩ : (ofInt n).isNegative = decide (n < 0) ∧
        (ofInt n).scaled.natAbs = n.natAbs * unit ∧ (ofInt n).isFinite = true :=
      natAbs_scaled_small (Int.natAbs_ne_zero.mpr hn) h
    refine ⟨?_, hfinite⟩
    have hsize : (ofInt n).decompose.1 * 2 ^ (ofInt n).decompose.2 = n.natAbs * unit := by
      rw [← natAbs_scaled, hscaled]
    simp only [scaled, Nat.shiftLeft_eq, hsize, hsign, decide_eq_true_eq, Nat.cast_mul]
    split
    · rename_i hneg
      rw [Int.ofNat_natAbs_of_nonpos hneg.le, Int.neg_mul, Int.neg_neg]
    · rename_i hneg
      rw [Int.natAbs_of_nonneg (Int.not_lt.mp hneg)]

theorem wholeBelow?_of_large {x : Double} {bound : Nat} (h : bound * unit ≤ x.scaled.natAbs) :
    x.wholeBelow? bound = none := by
  simp [wholeBelow?, Nat.not_lt.mpr h]

theorem ofInt_large {n : Int} (h : 2 ^ 53 ≤ n.natAbs) :
    2 ^ 53 * unit ≤ (ofInt n).scaled.natAbs :=
  ofRatio_large h

theorem unit_pos : 0 < unit := by
  obtain ⟨power, hpower⟩ : ∃ power, power = 1074 := ⟨_, rfl⟩
  rw [← pow_eq_unit hpower]
  exact Nat.two_pow_pos power

theorem eq_zero_of_ofInt {n : Int} (h : (ofInt n).magnitude = 0) : n = 0 := by
  have hscaled : (ofInt n).scaled = 0 := scaled_of_zero h
  by_cases hn : n.natAbs < 2 ^ 53
  · rw [(scaled_ofInt hn).1] at hscaled
    have hunit : (unit : Int) ≠ 0 := Int.natCast_ne_zero.mpr unit_pos.ne'
    exact (Int.mul_eq_zero.mp hscaled).resolve_right hunit
  · have hlarge := ofInt_large (Nat.not_lt.mp hn)
    rw [hscaled, Int.natAbs_zero] at hlarge
    exact absurd (Nat.mul_pos (Nat.two_pow_pos 53) unit_pos) (Nat.not_lt.mpr hlarge)

theorem ofInt_not_negative_zero {n : Int} :
    ¬ ((ofInt n).isNegative = true ∧ (ofInt n).magnitude = 0) := by
  rintro ⟨hnegative, hmagnitude⟩
  rw [eq_zero_of_ofInt hmagnitude] at hnegative
  exact absurd hnegative (by decide)

/-- All that equals an integer is its nearest double, but for the negative zero. -/
theorem eq_ofInt_of_compare {n : Int} {x : Double} (h : x.compare (ofInt n) = .eq)
    (hzero : ¬ (x.isNegative = true ∧ x.magnitude = 0)) : x = ofInt n := by
  refine (eq_of_compare h).elim id fun ⟨hx, hn⟩ => ?_
  have hpositive : x.isNegative = false :=
    Bool.eq_false_iff.mpr fun hnegative => hzero ⟨hnegative, hx⟩
  rw [eq_zero_of_ofInt hn]
  exact ext_fields (hpositive.trans (by decide)) (hx.trans (by decide))

theorem wholeBelow?_of_compare {n : Int} {x : Double} {bound : Nat} (hbound : bound ≤ 2 ^ 53)
    (h : (ofInt n).compare x = .eq) (hsmall : x.scaled.natAbs < bound * unit) :
    x.wholeBelow? bound = some n := by
  have hunit : (unit : Int) ≠ 0 := Int.natCast_ne_zero.mpr unit_pos.ne'
  obtain ⟨hscaled, hfinite⟩ : x.scaled = n * unit ∧ x.isFinite = true := by
    rcases eq_of_compare h with rfl | ⟨hn, hx⟩
    · refine scaled_ofInt (Nat.lt_of_not_le fun hlarge => ?_)
      have hle : 2 ^ 53 * unit ≤ (ofInt n).scaled.natAbs := ofInt_large hlarge
      have hlt : (ofInt n).scaled.natAbs < 2 ^ 53 * unit :=
        Nat.lt_of_lt_of_le hsmall (Nat.mul_le_mul_right unit hbound)
      exact Nat.lt_irrefl _ (Nat.lt_of_le_of_lt hle hlt)
    · rw [eq_zero_of_ofInt hn, scaled_of_zero hx, isFinite, hx]
      exact ⟨(Int.zero_mul _).symm, by decide⟩
  rw [wholeBelow?, hfinite, hscaled, Int.mul_emod_left, Int.mul_ediv_cancel _ hunit]
  rw [hscaled] at hsmall
  simp [hsmall]

end DocStore.Double
