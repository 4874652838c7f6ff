import DocStore.Codec.OrderedKey
import DocStore.Proofs.ByteOrder
import DocStore.Value.Order

/-!
# Sorted keys

Ordered keys compare like the values they encode: integers of either width as numbers, doubles in
the total order of their bits, texts by code point, dates by time, and byte strings byte by byte
(`Codec.bson_keys_sorted`). Integers, dates and doubles share one form: their key counts from the
least place upwards.
-/

namespace DocStore

-- ---------------------------------------------------------------------------
-- Doubles
-- ---------------------------------------------------------------------------

namespace Double

variable {x y : Double}

/-- The total order of IEEE 754 on bit patterns. Negative ones come first, and there the greater
magnitude is the smaller one. -/
def totalCompare (x y : Double) : Ordering :=
  match x.isNegative, y.isNegative with
  | true, true => Ord.compare y.magnitude x.magnitude
  | true, false => .lt
  | false, true => .gt
  | false, false => Ord.compare x.magnitude y.magnitude

theorem totalCompare_eq (x y : Double) : x.totalCompare y = Ord.compare x.totalPlace y.totalPlace := by
  unfold totalCompare totalPlace
  rw [Int.compare_eq_ite_lt]
  cases x.isNegative <;> cases y.isNegative <;>
    simp only [Nat.compare_eq_ite_lt, if_true, if_false, Bool.false_eq_true] <;> grind

theorem totalPlace_lt_of_place (h : x.place < y.place) : x.totalPlace < y.totalPlace := by
  unfold place at h
  unfold totalPlace
  cases hx : x.isNegative <;> cases hy : y.isNegative <;>
    simp only [hx, hy, if_true, if_false, Bool.false_eq_true] at h ⊢ <;> omega

theorem totalCompare_of_compare (h : x.compare y = .lt) : x.totalCompare y = .lt := by
  rw [totalCompare_eq]
  unfold compare at h
  split at h
  · exact h
  · exact Int.compare_eq_lt.mpr (totalPlace_lt_of_place (Int.compare_eq_lt.mp h))

end Double

-- ---------------------------------------------------------------------------
-- Payloads
-- ---------------------------------------------------------------------------

namespace OrderedKey

def InRange (place : Int) : Prop := Int64.minValue.toInt ≤ place ∧ place ≤ Int64.maxValue.toInt

theorem compare_counted {k l : Int} (hk : InRange k) (hl : InRange l) :
    Ord.compare (Bytes.be 8 (k - Int64.minValue.toInt).toNat)
      (Bytes.be 8 (l - Int64.minValue.toInt).toNat) = Ord.compare k l := by
  have hmin : Int64.minValue.toInt = -9223372036854775808 := rfl
  have hmax : Int64.maxValue.toInt = 9223372036854775807 := rfl
  have hspan : Bytes.span 8 = 18446744073709551616 := rfl
  obtain ⟨hk, hk'⟩ := hk
  obtain ⟨hl, hl'⟩ := hl
  rw [Bytes.compare_be (by omega) (by omega), Nat.compare_eq_ite_lt, Int.compare_eq_ite_lt]
  generalize Int64.minValue.toInt = least at *
  have hlt : (k - least).toNat < (l - least).toNat ↔ k < l := by omega
  have hgt : (l - least).toNat < (k - least).toNat ↔ l < k := by omega
  simp only [hlt, hgt]

theorem compare_integerBytes (m n : Int64) :
    Ord.compare (integerBytes m) (integerBytes n) = Ord.compare m.toInt n.toInt :=
  compare_counted ⟨m.minValue_le_toInt, m.toInt_le⟩ ⟨n.minValue_le_toInt, n.toInt_le⟩

theorem inRange_totalPlace (x : Double) : InRange x.totalPlace := by
  have hmin : Int64.minValue.toInt = -9223372036854775808 := rfl
  have hmax : Int64.maxValue.toInt = 9223372036854775807 := rfl
  have hmagnitude : x.magnitude < 9223372036854775808 := Nat.mod_lt _ (by decide)
  unfold InRange Double.totalPlace
  split <;> omega

/-- A double is written as the integer that is its place. -/
theorem doubleBytes_eq (x : Double) :
    doubleBytes x = Bytes.be 8 (x.totalPlace - Int64.minValue.toInt).toNat := by
  have hbits := x.bits.toNat_lt
  have hmin : Int64.minValue.toInt = -9223372036854775808 := rfl
  have hsize : UInt64.size = 18446744073709551616 := rfl
  have hsign : Double.signBit = 9223372036854775808 := rfl
  refine congrArg (Bytes.be 8) ?_
  simp only [Double.totalPlace, Double.magnitude, Double.isNegative, decide_eq_true_eq, hmin, hsize,
    hsign]
  split <;> omega

theorem compare_doubleBytes (x y : Double) :
    Ord.compare (doubleBytes x) (doubleBytes y) = x.totalCompare y := by
  rw [doubleBytes_eq, doubleBytes_eq, compare_counted (inRange_totalPlace x) (inRange_totalPlace y),
    Double.totalCompare_eq]

end OrderedKey

-- ---------------------------------------------------------------------------
-- Values
-- ---------------------------------------------------------------------------

/-- Values of one kind and how they stand to each other in its order. Integers of both widths are of
one kind, binary data of different subtypes is not. -/
inductive Value.Ranked : Value → Value → Ordering → Prop
  | integers {v w : Value} {m n : Int} (hv : v.asInt? = some m) (hw : w.asInt? = some n) :
    Ranked v w (Ord.compare m n)
  | doubles (x y : Double) : Ranked (.double x) (.double y) (x.totalCompare y)
  | strings (s t : String) :
    Ranked (.string s) (.string t) (Ord.compare (Text.codePoints s) (Text.codePoints t))
  | dates (a b : Int64) : Ranked (.date a) (.date b) (Ord.compare a.toInt b.toInt)
  | booleans (a b : Bool) : Ranked (.boolean a) (.boolean b) (Ord.compare a.toNat b.toNat)
  | objectIds (a b : ObjectId) : Ranked (.objectId a) (.objectId b) (Ord.compare a.bytes b.bytes)
  | binaries (subtype : UInt8) (a b : Bytes) :
    Ranked (.binary subtype a) (.binary subtype b) (Ord.compare a b)

namespace OrderedKey

variable {v w : Value} {order : Ordering}

theorem encode_integer {n : Int} (h : v.asInt? = some n) :
    ∃ m : Int64, m.toInt = n ∧ encode v = .ok (integerTag :: integerBytes m) := by
  cases v with
  | int32 m => exact ⟨m.toInt64, m.toInt_toInt64.trans (Option.some.inj h), rfl⟩
  | int64 m => exact ⟨m, Option.some.inj h, rfl⟩
  | _ => cases h

/-- Keys are of one tag and differ in what follows it, which compares as the values do. -/
theorem encode_ranked (h : v.Ranked w order) :
    ∃ a b, encode v = .ok a ∧ encode w = .ok b ∧ Ord.compare a b = order := by
  cases h with
  | integers hv hw =>
    obtain ⟨m, rfl, hm⟩ := encode_integer hv
    obtain ⟨n, rfl, hn⟩ := encode_integer hw
    exact ⟨_, _, hm, hn, by rw [Bytes.compare_cons_self, compare_integerBytes]⟩
  | doubles x y => exact ⟨_, _, rfl, rfl, by rw [Bytes.compare_cons_self, compare_doubleBytes]⟩
  | strings s t => exact ⟨_, _, rfl, rfl, by rw [Bytes.compare_cons_self, Bytes.compare_ofString]⟩
  | dates a b => exact ⟨_, _, rfl, rfl, by rw [Bytes.compare_cons_self, compare_integerBytes]⟩
  | booleans a b => exact ⟨_, _, rfl, rfl, by cases a <;> cases b <;> rfl⟩
  | objectIds a b => exact ⟨_, _, rfl, rfl, Bytes.compare_cons_self _ _ _⟩
  | binaries subtype a b =>
    exact ⟨_, _, rfl, rfl, by rw [Bytes.compare_cons_self, Bytes.compare_cons_self]⟩

end OrderedKey

namespace Value

variable {v w : Value} {order : Ordering}

theorem compare_integers {m n : Int} (hv : v.asInt? = some m) (hw : w.asInt? = some n) :
    v.compare w = some (Ord.compare m n) := by
  cases v <;> simp only [asInt?, reduceCtorEq, Option.some.injEq] at hv <;>
    cases w <;> simp only [asInt?, reduceCtorEq, Option.some.injEq] at hw <;>
    subst hv hw <;> rfl

theorem Ranked.lt_of_compare (h : v.Ranked w order) (hlt : v.compare w = some .lt) : order = .lt := by
  cases h with
  | integers hv hw => exact Option.some.inj ((compare_integers hv hw).symm.trans hlt)
  | doubles x y =>
    have hcompare : x.compare y = .lt := Option.some.inj hlt
    exact Double.totalCompare_of_compare hcompare
  | strings s t =>
    have hcompare : Ord.compare s t = .lt := Option.some.inj hlt
    exact Text.lt_iff_codePoints.mp (compareOfLessAndEq_eq_lt.mp hcompare)
  | booleans a b => cases a <;> cases b <;> first | rfl | cases hlt
  | dates | objectIds | binaries => exact Option.some.inj hlt

end Value

namespace Codec

/-- The keys of values of one kind are ordered as the values are, and so strictly wherever a query
takes the first for smaller. -/
theorem bson_keys_sorted {v w : Value} {order : Ordering} (h : v.Ranked w order) :
    ∃ a b, bson.encodeKey v = .ok a ∧ bson.encodeKey w = .ok b ∧
      (a < b ↔ order = .lt) ∧ (a = b ↔ order = .eq) ∧ (b < a ↔ order = .gt) ∧
      (v.compare w = some .lt → a < b) := by
  obtain ⟨a, b, hv, hw, hcompare⟩ := OrderedKey.encode_ranked h
  have hlt : a < b ↔ order = .lt := by rw [← Bytes.compare_eq_lt, hcompare]
  have heq : a = b ↔ order = .eq := by rw [← Std.compare_eq_iff_eq, hcompare]
  have hgt : b < a ↔ order = .gt := by rw [← Bytes.compare_eq_gt, hcompare]
  exact ⟨a, b, hv, hw, hlt, heq, hgt, fun h' => hlt.mpr (h.lt_of_compare h')⟩

/-- The zeros, integers of two widths, and texts that UTF-16 would swap. -/
theorem bson_keys_sorted_edges :
    let minusZero : Value := .double ⟨0x8000000000000000⟩
    let tilde : Value := .string "～"
    let face : Value := .string "😀"
    (∃ a b, bson.encodeKey minusZero = .ok a ∧ bson.encodeKey (.double .zero) = .ok b ∧ a < b) ∧
    (∃ a b, bson.encodeKey (.int32 7) = .ok a ∧ bson.encodeKey (.int64 7) = .ok b ∧ a = b) ∧
    (∃ a b, bson.encodeKey tilde = .ok a ∧ bson.encodeKey face = .ok b ∧ a < b) := by
  intro minusZero tilde face
  obtain ⟨a, b, ha, hb, hzeros, -⟩ := bson_keys_sorted (.doubles ⟨0x8000000000000000⟩ .zero)
  have hwidths : Value.Ranked (.int32 7) (.int64 7) (Ord.compare (7 : Int) 7) := .integers rfl rfl
  obtain ⟨c, d, hc, hd, -, hsame, -⟩ := bson_keys_sorted hwidths
  obtain ⟨e, f, he, hf, htexts, -⟩ := bson_keys_sorted (.strings "～" "😀")
  exact ⟨⟨a, b, ha, hb, hzeros.mpr (by decide)⟩, ⟨c, d, hc, hd, hsame.mpr (by decide)⟩,
    ⟨e, f, he, hf, htexts.mpr (by decide)⟩⟩

end Codec

end DocStore
