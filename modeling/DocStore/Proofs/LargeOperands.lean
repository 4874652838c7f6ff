import DocStore.Proofs.Exact
import DocStore.Proofs.Rounding

/-!
# Operands beyond the stored integers

A number without sign that is too great for a stored integer becomes the nearest double, and a
stored integer does so too when the two are compared. Rounding keeps the order, so no stored integer
comes out above such an operand. It does not keep it strictly, though: the greatest 512 stored
integers round up to `2 ^ 63`, and the least 1025 numbers beyond them round down to it.
-/

namespace DocStore

namespace Double

/-- An integer and a number beyond the stored ones that round to one double, `2 ^ 63`. -/
def Meet (k : Int) (n : Nat) : Prop := 2 ^ 63 - 512 ≤ k ∧ n ≤ 2 ^ 63 + 1024

instance (k : Int) (n : Nat) : Decidable (Meet k n) := by unfold Meet; infer_instance

/-- Where rounding to `2 ^ 63` begins and where it ends. -/
theorem rank_around :
    (ofInt (2 ^ 63 - 513)).rank < (ofInt (2 ^ 63)).rank ∧
      (ofInt (2 ^ 63 - 512)).rank = (ofInt (2 ^ 63)).rank ∧
      (ofInt (2 ^ 63 + 1024)).rank = (ofInt (2 ^ 63)).rank ∧
      (ofInt (2 ^ 63)).rank < (ofInt (2 ^ 63 + 1025)).rank := by
  decide +kernel

variable {k : Int} {n : Nat} (hstored : k < 2 ^ 63) (hbeyond : 2 ^ 63 ≤ n)

include hstored hbeyond

theorem rank_of_meet (hmeet : Meet k n) : (ofInt k).rank = (ofInt n).rank := by
  obtain ⟨-, hstart, hstop, -⟩ := rank_around
  have le : (ofInt k).rank ≤ (ofInt n).rank := rank_ofInt_le (by omega)
  have habove : (ofInt (2 ^ 63 - 512)).rank ≤ (ofInt k).rank := rank_ofInt_le hmeet.1
  have hbelow : (ofInt n).rank ≤ (ofInt (2 ^ 63 + 1024)).rank :=
    rank_ofInt_le (Int.ofNat_le.mpr hmeet.2)
  omega

theorem rank_lt_of_not_meet (hapart : ¬ Meet k n) : (ofInt k).rank < (ofInt n).rank := by
  obtain ⟨hbefore, -, -, hafter⟩ := rank_around
  have hk : (ofInt k).rank ≤ (ofInt (2 ^ 63)).rank := rank_ofInt_le (by omega)
  have hn : (ofInt (2 ^ 63)).rank ≤ (ofInt n).rank := rank_ofInt_le (by omega)
  rcases not_and_or.mp hapart with hlow | hhigh
  · have hbelow : (ofInt k).rank ≤ (ofInt (2 ^ 63 - 513)).rank := rank_ofInt_le (by omega)
    omega
  · have habove : (ofInt (2 ^ 63 + 1025)).rank ≤ (ofInt n).rank := rank_ofInt_le (by omega)
    omega

theorem compare_beyond : (ofInt k).compare (ofInt n) = if Meet k n then .eq else .lt := by
  rw [compare_eq_rank]
  split
  case isTrue hmeet =>
    rw [rank_of_meet hstored hbeyond hmeet]
    exact Std.ReflCmp.compare_self
  case isFalse hapart => exact compare_lt_iff_lt.mpr (rank_lt_of_not_meet hstored hbeyond hapart)

end Double

namespace Value

variable {value : Value} {k : Int} (hinteger : value.asInt? = some k)

include hinteger

theorem lt_of_asInt? : k < 2 ^ 63 := by
  cases value <;> simp only [asInt?, reduceCtorEq, Option.some.injEq] at hinteger
  case int32 n => exact hinteger ▸ Int.lt_trans n.toInt_lt (by decide)
  case int64 n => exact hinteger ▸ n.toInt_lt

theorem compare_double (x : Double) :
    value.compare (.double x) = some ((Double.ofInt k).compare x) := by
  cases value <;> simp only [asInt?, reduceCtorEq, Option.some.injEq] at hinteger <;>
    subst hinteger <;> simp [compare, compareNumbers, asInt?, asDouble?]

end Value

theorem Operand.ofNat_beyond {n : Nat} (hbeyond : 2 ^ 63 ≤ n) :
    Operand.ofNat n = .value (.double (.ofInt n)) := by
  have large : ¬ n < 0x8000000000000000 := by omega
  simp [Operand.ofNat, large]

namespace Condition

/-- The comparisons with an operand answer like those with a value placed by `order`. -/
structure Places {m : Type → Type} [Monad m] (holds : Condition → m Bool) (x : Operand)
    (order : Ordering) : Prop where
  lt : holds (.lt x) = pure (order == .lt)
  le : holds (.le x) = pure (order != .gt)
  eq : holds (.eq x) = pure (order == .eq)
  ge : holds (.ge x) = pure (order != .lt)
  gt : holds (.gt x) = pure (order == .gt)

variable {schema : Schema} {resolve : Operand → Except Failure Value} {field : String}
  {value other : Value} {x : Operand} {order : Ordering}

theorem places_of_compare (hresolved : resolve x = .ok other)
    (hcompared : value.compare other = some order) :
    Places (Condition.holds schema resolve field value) x order := by
  have hplaced (f : Ordering → Bool) :
      (do pure (f (← ordered field value (← resolve x)))) = (pure (f order) : Except Failure Bool) := by
    simp only [ordered, hresolved, bind, Except.bind, hcompared]
  have hsame : (do pure (value.same (← resolve x))) =
      (pure (order == .eq) : Except Failure Bool) := by
    simp only [Value.same, hresolved, bind, Except.bind, hcompared]
  exact ⟨hplaced (· == .lt), hplaced (· != .gt), hsame, hplaced (· != .lt), hplaced (· == .gt)⟩

theorem Places.clause {scene : Scene} {row : Row}
    (hfound : Evaluation.resolveField scene schema row field = .ok value)
    (h : Places (Condition.holds schema (Evaluation.resolve scene schema row) field value) x order) :
    Places (fun c => Evaluation.clausesHold scene schema row [⟨field, .condition c⟩]) x order := by
  have hanswer {c : Condition} {holds : Bool}
      (h : c.holds schema (Evaluation.resolve scene schema row) field value = pure holds) :
      Evaluation.clausesHold scene schema row [⟨field, .condition c⟩] = pure holds := by
    funext trail
    simp only [Evaluation.clausesHold_cons_run, hfound, Evaluation.criterionHolds, Exec.ofExcept, h]
    cases holds <;> rfl
  exact ⟨hanswer h.lt, hanswer h.le, hanswer h.eq, hanswer h.ge, hanswer h.gt⟩

end Condition

namespace Evaluation

/-- An operand beyond the stored integers lies above every integer in a field or key, except that
one that rounds to the same double is equal to it. -/
theorem integers_below (scene : Scene) (schema : Schema) (row : Row) (field : String)
    {value : Value} {k : Int} {n : Nat} (hfound : resolveField scene schema row field = .ok value)
    (hinteger : value.asInt? = some k) (hbeyond : 2 ^ 63 ≤ n) :
    (∃ other, Operand.ofNat n = .value other ∧
      value.compare other = some (if Double.Meet k n then .eq else .lt)) ∧
    Condition.Places (fun c => clausesHold scene schema row [⟨field, .condition c⟩])
      (Operand.ofNat n) (if Double.Meet k n then .eq else .lt) ∧
    Condition.Places (Condition.holds schema Operand.resolveAlone field value)
      (Operand.ofNat n) (if Double.Meet k n then .eq else .lt) := by
  have hcompared : value.compare (.double (.ofInt n)) =
      some (if Double.Meet k n then .eq else .lt) := by
    rw [Value.compare_double hinteger, Double.compare_beyond (Value.lt_of_asInt? hinteger) hbeyond]
  rw [Operand.ofNat_beyond hbeyond]
  refine ⟨⟨_, rfl, hcompared⟩, ?record, Condition.places_of_compare rfl hcompared⟩
  case record => exact (Condition.places_of_compare rfl hcompared).clause hfound

def tally (number : Int64) (field : String) (value : Value) : Row :=
  ⟨(OrderedKey.encode (.int64 number)).toOption.getD [], ⟨[(field, value)]⟩⟩

def emptyScene : Scene := ⟨∅, .bson, 1⟩

def tallySchema : Schema := ⟨"tally", none, [], []⟩

theorem integers_below_key :
    resolveField emptyScene tallySchema (tally 5 "n" .null) keyName = .ok (.int64 5) ∧
      (Value.int64 5).asInt? = some 5 ∧ 2 ^ 63 ≤ 18446744073709551615 ∧
      clausesHold emptyScene tallySchema (tally 5 "n" .null)
        [⟨keyName, .condition (.lt (.ofNat 18446744073709551615))⟩] = pure true := by
  have hfound : resolveField emptyScene tallySchema (tally 5 "n" .null) keyName = .ok (.int64 5) :=
    rfl
  exact ⟨hfound, rfl, by decide, (integers_below emptyScene tallySchema (tally 5 "n" .null) keyName
    hfound rfl (by decide : 2 ^ 63 ≤ 18446744073709551615)).2.1.lt⟩

/-- The greatest stored integer is equal to the next number, not below it. -/
theorem greatest_not_below :
    let row := tally 1 "n" (.int64 Int64.maxValue)
    resolveField emptyScene tallySchema row "n" = .ok (.int64 Int64.maxValue) ∧
      Int64.maxValue.toInt < (2 ^ 63 : Nat) ∧
      Operand.ofNat (2 ^ 63) = .value (.double (.ofInt (2 ^ 63))) ∧
      (Value.int64 Int64.maxValue).compare (.double (.ofInt (2 ^ 63))) = some .eq ∧
      clausesHold emptyScene tallySchema row [⟨"n", .condition (.lt (.ofNat (2 ^ 63)))⟩] =
        pure false ∧
      clausesHold emptyScene tallySchema row [⟨"n", .condition (.eq (.ofNat (2 ^ 63)))⟩] =
        pure true := by
  have hfound : resolveField emptyScene tallySchema (tally 1 "n" (.int64 Int64.maxValue)) "n" =
    .ok (.int64 Int64.maxValue) := rfl
  have hcompared : (Value.int64 Int64.maxValue).compare (.double (.ofInt (2 ^ 63))) = some .eq := by
    decide +kernel
  have hliteral := Operand.ofNat_beyond (Nat.le_refl (2 ^ 63))
  have hplaced := (Condition.places_of_compare (x := .value (.double (.ofInt (2 ^ 63)))) rfl
    hcompared).clause hfound
  exact ⟨hfound, by decide, hliteral, hcompared, hliteral ▸ hplaced.lt, hliteral ▸ hplaced.eq⟩

end Evaluation

end DocStore
