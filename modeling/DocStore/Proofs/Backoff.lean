import Mathlib.Algebra.Group.Nat.Defs
import Mathlib.Order.MinMax
import DocStore.Options

/-!
# The pause before a retry

The least pause should be the base delay doubled once per attempt, up to the maximum. The factor on
the base delay is a 32-bit number, though, and is held at the greatest one from attempt 32 on: a
maximum that is not reached by then is never reached, and the pause falls short of the formula.
-/

namespace DocStore

namespace RetryPolicy

variable (p : RetryPolicy)

/-- The formula of the least pause: the base delay doubled per attempt, up to the maximum. -/
def backoff (attempt : Nat) : Nat := min (p.baseDelay * 2 ^ attempt) p.maxDelay

def heldDelay : Nat := p.baseDelay * (UInt32.size - 1)

theorem two_pow_le {attempt : Nat} (hearly : attempt < 32) : 2 ^ attempt ≤ UInt32.size - 1 :=
  (Nat.pow_le_pow_right (by decide) (Nat.le_of_lt_succ hearly)).trans
    (by decide : 2 ^ 31 ≤ UInt32.size - 1)

theorem lt_two_pow {attempt : Nat} (hlate : 32 ≤ attempt) : UInt32.size - 1 < 2 ^ attempt :=
  (by decide : UInt32.size - 1 < 2 ^ 32).trans_le (Nat.pow_le_pow_right (by decide) hlate)

theorem factor_eq (attempt : Nat) : factor attempt = min (2 ^ attempt) (UInt32.size - 1) := by
  unfold factor
  split
  case isTrue hearly => rw [Nat.one_shiftLeft, Nat.min_eq_left (two_pow_le hearly)]
  case isFalse hlate => rw [Nat.min_eq_right (lt_two_pow (Nat.le_of_not_lt hlate)).le]

theorem backoff_mono : Monotone p.backoff := by
  intro m n le
  have hdoubled : p.baseDelay * 2 ^ m ≤ p.baseDelay * 2 ^ n :=
    Nat.mul_le_mul_left _ (Nat.pow_le_pow_right (by decide) le)
  exact min_le_min_right _ hdoubled

/-- The longest time span cuts nothing off: the maximum, a time span itself, does so before. -/
theorem leastDelay_eq (hspan : p.maxDelay ≤ longest) (attempt : Nat) :
    p.leastDelay attempt = min (p.backoff attempt) p.heldDelay := by
  have hproduct : p.baseDelay * factor attempt = min (p.baseDelay * 2 ^ attempt) p.heldDelay := by
    rw [factor_eq, heldDelay, Nat.mul_min_mul_left]
  unfold leastDelay backoff
  omega

theorem delay_bounds (attempt chance : Nat) :
    p.leastDelay attempt ≤ p.delay attempt chance ∧
      p.delay attempt chance ≤ p.leastDelay attempt + p.leastDelay attempt / 2 := by
  have hpicked : chance % (p.spread attempt + 1) ≤ p.spread attempt :=
    Nat.le_of_lt_succ (Nat.mod_lt _ (Nat.succ_pos _))
  have hhalf : p.spread attempt ≤ p.leastDelay attempt / 1000 / 2 := Nat.min_le_left _ _
  unfold delay
  omega

/-- Nothing is missing before attempt 32, nor ever if the greatest factor reaches the maximum. -/
theorem backoff_le_heldDelay {attempt : Nat}
    (henough : attempt < 32 ∨ p.baseDelay = 0 ∨ p.maxDelay ≤ p.heldDelay) :
    p.backoff attempt ≤ p.heldDelay := by
  rcases henough with hearly | hbase | hreached
  · have hproduct : p.baseDelay * 2 ^ attempt ≤ p.heldDelay :=
      Nat.mul_le_mul_left _ (two_pow_le hearly)
    exact (Nat.min_le_left _ _).trans hproduct
  · simp [backoff, hbase]
  · exact (Nat.min_le_right _ _).trans hreached

theorem heldDelay_lt_backoff {attempt : Nat} (hlate : 32 ≤ attempt) (hbase : p.baseDelay ≠ 0)
    (hshort : p.heldDelay < p.maxDelay) : p.heldDelay < p.backoff attempt := by
  have hproduct : p.heldDelay < p.baseDelay * 2 ^ attempt :=
    Nat.mul_lt_mul_of_pos_left (lt_two_pow hlate) (Nat.pos_of_ne_zero hbase)
  exact Nat.lt_min.mpr ⟨hproduct, hshort⟩

/-- The pause lies between the formula and half as much again, unless the greatest factor is held
and not enough for the maximum: then it lies between the delay that this factor gives and half as
much again, and starts below the formula. The lower bound never falls nor passes the maximum. -/
theorem delay_backs_off (hspan : p.maxDelay ≤ longest) :
    (∀ attempt, attempt < 32 ∨ p.baseDelay = 0 ∨ p.maxDelay ≤ p.heldDelay → ∀ chance,
      p.backoff attempt ≤ p.delay attempt chance ∧
        p.delay attempt chance ≤ p.backoff attempt + p.backoff attempt / 2) ∧
    (∀ attempt, 32 ≤ attempt → p.baseDelay ≠ 0 → p.heldDelay < p.maxDelay →
      p.heldDelay < p.backoff attempt ∧ p.delay attempt 0 = p.heldDelay ∧
        ∀ chance, p.heldDelay ≤ p.delay attempt chance ∧
          p.delay attempt chance ≤ p.heldDelay + p.heldDelay / 2) ∧
    (Monotone p.backoff ∧ ∀ attempt, p.backoff attempt ≤ p.maxDelay) ∧
    Monotone p.leastDelay ∧ ∀ attempt, p.leastDelay attempt ≤ p.maxDelay := by
  refine ⟨?formula, ?held, ⟨p.backoff_mono, fun _ => Nat.min_le_right _ _⟩, ?rising,
    fun _ => Nat.min_le_right _ _⟩
  case formula =>
    intro attempt henough chance
    have hleast : p.leastDelay attempt = p.backoff attempt := by
      rw [p.leastDelay_eq hspan, Nat.min_eq_left (p.backoff_le_heldDelay henough)]
    exact hleast ▸ p.delay_bounds attempt chance
  case held =>
    intro attempt hlate hbase hshort
    have hbelow := p.heldDelay_lt_backoff hlate hbase hshort
    have hleast : p.leastDelay attempt = p.heldDelay := by
      rw [p.leastDelay_eq hspan, Nat.min_eq_right hbelow.le]
    refine ⟨hbelow, ?_, fun chance => hleast ▸ p.delay_bounds attempt chance⟩
    simp [delay, hleast]
  case rising =>
    intro m n le
    rw [p.leastDelay_eq hspan, p.leastDelay_eq hspan]
    exact min_le_min_right _ (p.backoff_mono le)

def slowStart : RetryPolicy := { default with baseDelay := 1, maxDelay := 10000000000 }

theorem delay_backs_off_slowly :
    slowStart.maxDelay ≤ longest ∧
      (slowStart.backoff 31 ≤ slowStart.delay 31 0 ∧
        slowStart.delay 31 0 ≤ slowStart.backoff 31 + slowStart.backoff 31 / 2) ∧
      slowStart.delay 40 0 = slowStart.heldDelay := by
  have hspan : slowStart.maxDelay ≤ longest := by decide
  obtain ⟨formula, held, -⟩ := slowStart.delay_backs_off hspan
  exact ⟨hspan, formula 31 (.inl (by decide)) 0, (held 40 (by decide) (by decide) (by decide)).2.1⟩

/-- At attempt 40 the formula asks for ten seconds, and no chance makes the pause longer than
six and a half. -/
theorem delay_falls_short :
    slowStart.baseDelay ≤ longest ∧
      slowStart.backoff 40 + slowStart.backoff 40 / 2 ≤ longest ∧
      slowStart.backoff 40 = 10000000000 ∧
      ∀ chance, slowStart.delay 40 chance < slowStart.backoff 40 := by
  refine ⟨by decide, by decide, by decide, fun chance => ?_⟩
  have hleast : slowStart.leastDelay 40 = 4294967295 := by decide
  have formula : slowStart.backoff 40 = 10000000000 := by decide
  have habove := (slowStart.delay_bounds 40 chance).2
  omega

end RetryPolicy

end DocStore
