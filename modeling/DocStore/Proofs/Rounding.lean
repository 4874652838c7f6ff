import DocStore.Proofs.Doubles

/-!
# Rounding keeps the order

The doubles stand on one line, which NaNs extend at both ends (`Double.compare_eq_rank`). Turning
integers into doubles may make neighbours equal, but it never swaps two of them (`rank_ofInt_le`).
-/

namespace DocStore.Double

-- ---------------------------------------------------------------------------
-- The line of doubles
-- ---------------------------------------------------------------------------

/-- Where a double stands among all of them: negative NaNs first, positive ones last. -/
def rank (x : Double) : Int := if x.isNaN then x.totalPlace else x.place

variable {x y : Double}

theorem place_bounds (h : x.isNaN = false) :
    -(infinityBits : Int) ≤ x.place ∧ x.place ≤ infinityBits := by
  have hmagnitude : x.magnitude ≤ infinityBits := by simpa [isNaN] using h
  unfold place
  split <;> omega

theorem totalPlace_of_nan (h : x.isNaN = true) :
    x.totalPlace < -(infinityBits : Int) - 1 ∨ (infinityBits : Int) < x.totalPlace := by
  have hmagnitude : infinityBits < x.magnitude := by simpa [isNaN] using h
  unfold totalPlace
  split <;> omega

theorem totalPlace_cases (x : Double) : x.totalPlace = x.place ∨ x.totalPlace = x.place - 1 := by
  unfold totalPlace place
  split <;> simp

/-- Both ways of comparing doubles come to comparing where they stand. -/
theorem compare_eq_rank (x y : Double) : x.compare y = Ord.compare x.rank y.rank := by
  unfold compare rank
  cases hx : x.isNaN <;> cases hy : y.isNaN
  · rfl
  · have hplace := place_bounds hx
    have hfar := totalPlace_of_nan hy
    have hnear := totalPlace_cases x
    simp only [Bool.or_true, if_true, Bool.false_eq_true, if_false, Int.compare_eq_ite_lt]
    grind
  · have hplace := place_bounds hy
    have hfar := totalPlace_of_nan hx
    have hnear := totalPlace_cases y
    simp only [Bool.or_false, if_true, Bool.false_eq_true, if_false, Int.compare_eq_ite_lt]
    grind
  · rfl

-- ---------------------------------------------------------------------------
-- Significands
-- ---------------------------------------------------------------------------

theorem roundQuotient_mono {m n : Nat} (den : Nat) (h : m ≤ n) :
    roundQuotient m den ≤ roundQuotient n den := by
  have hquotient : m / den ≤ n / den := Nat.div_le_div_right h
  have hm := Nat.div_add_mod m den
  have hn := Nat.div_add_mod n den
  unfold roundQuotient
  by_cases heq : m / den = n / den
  · -- In the same interval the greater rest is rounded up with the smaller one.
    rw [heq] at hm ⊢
    have hrest : m % den ≤ n % den := by omega
    grind
  · have hlt : m / den + 1 ≤ n / den := by omega
    grind

theorem roundQuotient_le (num den : Nat) : roundQuotient num den ≤ num / den + 1 := by
  unfold roundQuotient
  grind

variable {m n : Nat}

theorem wholeSignificand_mono (hlog : m.log2 = n.log2) (h : m ≤ n) :
    wholeSignificand m ≤ wholeSignificand n := by
  unfold wholeSignificand
  rw [hlog]
  split
  · exact roundQuotient_mono _ h
  · rw [Nat.shiftLeft_eq, Nat.shiftLeft_eq]
    exact Nat.mul_le_mul_right _ h

/-- Rounding may carry a significand up to the next power of two, but not beyond it. -/
theorem wholeSignificand_bounds (h : n ≠ 0) :
    hiddenBit ≤ wholeSignificand n ∧ wholeSignificand n ≤ 2 * hiddenBit := by
  by_cases hlog : 52 ≤ n.log2
  · refine ⟨le_wholeSignificand h hlog, ?_⟩
    have hquotient : n / 2 ^ (n.log2 - 52) < 2 * hiddenBit := by
      rw [Nat.div_lt_iff_lt_mul (Nat.two_pow_pos _), hiddenBit_eq, ← Nat.pow_succ', ← Nat.pow_add]
      have hpower : 52 + 1 + (n.log2 - 52) = n.log2 + 1 := by omega
      rw [hpower]
      exact Nat.lt_log2_self
    have hround := roundQuotient_le n (2 ^ (n.log2 - 52))
    simp only [wholeSignificand, hlog, if_true, Nat.one_shiftLeft]
    omega
  · have hpower : n.log2 + (52 - n.log2) = 52 := by omega
    have hlow : 2 ^ n.log2 * 2 ^ (52 - n.log2) = hiddenBit := by
      rw [← Nat.pow_add, hpower, hiddenBit_eq]
    simp only [wholeSignificand, hlog, if_false, Nat.shiftLeft_eq]
    refine ⟨?_, ?_⟩
    · rw [← hlow]
      exact Nat.mul_le_mul_right _ (Nat.log2_self_le h)
    · rw [← hlow, ← Nat.mul_assoc, ← Nat.pow_succ']
      exact Nat.mul_le_mul_right _ (Nat.le_of_lt Nat.lt_log2_self)

-- ---------------------------------------------------------------------------
-- Whole numbers
-- ---------------------------------------------------------------------------

def wholeMagnitude (n : Nat) : Nat :=
  if n = 0 then 0 else min ((n.log2 + 1022) * hiddenBit + wholeSignificand n) infinityBits

theorem wholeMagnitude_lt (n : Nat) : wholeMagnitude n < signBit := by
  unfold wholeMagnitude
  split
  · decide
  · exact Nat.lt_of_le_of_lt (Nat.min_le_right _ _) (by decide)

theorem ofRatio_whole (negative : Bool) (n : Nat) :
    ofRatio negative n 1 = ofMagnitude negative (wholeMagnitude n) := by
  unfold wholeMagnitude
  split
  · rename_i hn
    subst hn
    rfl
  · exact ofRatio_one ‹_›

theorem wholeMagnitude_mono (h : m ≤ n) : wholeMagnitude m ≤ wholeMagnitude n := by
  by_cases hm : m = 0
  · simp [wholeMagnitude, hm]
  have hn : n ≠ 0 := by omega
  simp only [wholeMagnitude, hm, hn, if_false]
  refine min_le_min ?_ (Nat.le_refl infinityBits)
  have hlog : m.log2 ≤ n.log2 := (Nat.le_log2 hn).mpr (Nat.le_trans (Nat.log2_self_le hm) h)
  rcases Nat.lt_or_eq_of_le hlog with hlt | heq
  · -- A carry reaches the next power of two, where the greater number has got to already.
    calc (m.log2 + 1022) * hiddenBit + wholeSignificand m
        ≤ (m.log2 + 1022) * hiddenBit + 2 * hiddenBit :=
          Nat.add_le_add_left (wholeSignificand_bounds hm).2 _
      _ = (m.log2 + 1 + 1022) * hiddenBit + hiddenBit := by ring
      _ ≤ (n.log2 + 1022) * hiddenBit + wholeSignificand n :=
          Nat.add_le_add (Nat.mul_le_mul_right _ (by omega)) (wholeSignificand_bounds hn).1
  · rw [heq]
    exact Nat.add_le_add_left (wholeSignificand_mono heq h) _

theorem rank_ofInt (k : Int) :
    (ofInt k).rank = if k < 0 then -(wholeMagnitude k.natAbs : Int) else wholeMagnitude k.natAbs := by
  have hsign := wholeMagnitude_lt k.natAbs
  have hmagnitude : (ofInt k).magnitude = wholeMagnitude k.natAbs := by
    rw [ofInt, ofRatio_whole, magnitude_ofMagnitude hsign]
  have hnegative : (ofInt k).isNegative = decide (k < 0) := by
    rw [ofInt, ofRatio_whole, isNegative_ofMagnitude hsign]
  have hnan : (ofInt k).isNaN = false := by
    have hfinite : wholeMagnitude k.natAbs ≤ infinityBits := by
      unfold wholeMagnitude
      split
      · exact Nat.zero_le _
      · exact Nat.min_le_right _ _
    simpa [isNaN, hmagnitude] using hfinite
  simp [rank, hnan, place, hmagnitude, hnegative]

/-- Turning integers into doubles keeps their order, although it may make them equal. -/
theorem rank_ofInt_le {k l : Int} (h : k ≤ l) : (ofInt k).rank ≤ (ofInt l).rank := by
  rw [rank_ofInt, rank_ofInt]
  split <;> split
  · exact Int.neg_le_neg (Int.ofNat_le.mpr (wholeMagnitude_mono (by omega)))
  · omega
  · omega
  · exact Int.ofNat_le.mpr (wholeMagnitude_mono (by omega))

end DocStore.Double
