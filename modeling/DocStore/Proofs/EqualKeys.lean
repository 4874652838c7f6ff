import DocStore.Proofs.AccessPaths
import DocStore.Proofs.Doubles
import DocStore.Proofs.Passes

/-!
# Equal values and their keys

A query takes more values for the same than a lookup does. `Value.Apart` lists the pairs that make the
difference; for all others a lookup finds every record whose value is the same as the one looked up
(`lookup_complete`). Of those pairs the ones without parts are indeed missed (`lookup_misses`), so the
same query finds less through an index than it finds without one (`lookup_misses_zero`).
-/

namespace DocStore

-- ---------------------------------------------------------------------------
-- Values that are the same
-- ---------------------------------------------------------------------------

namespace Value

/-- Values that queries take for the same although no lookup of the first finds the second: zeros of
opposite signs, an integer under a double that is too large to be looked up as an integer, binary
data of another subtype, and composite values that differ in their parts. -/
def Apart : Value → Value → Prop
  | .int32 _, .double y | .int64 _, .double y => y.isNegative = true ∧ y.magnitude = 0
  | .double x, .double y => x ≠ y ∧ x.magnitude = 0
  | .double x, .int32 _ | .double x, .int64 _ => Index.wholeBound * Double.unit ≤ x.scaled.natAbs
  | .binary subtype _, .binary subtype' _ => subtype ≠ subtype'
  | .array items, .array items' => items ≠ items'
  | .document fields, .document fields' => fields ≠ fields'
  | .scopedCode _ scope, .scopedCode _ scope' => scope ≠ scope'
  | _, _ => False

theorem eq_of_same {value found : Value} (hvalue : value.asDouble? = none)
    (h : found.same value = true) (hapart : ¬ value.Apart found) : found = value := by
  cases value <;> simp only [asDouble?, reduceCtorEq] at hvalue <;> cases found <;>
    simp [same, compare, compareNumbers, asInt?, asDouble?, eqv, Apart] at h hapart ⊢
  case array.array | document.document => exact hapart.symm
  case scopedCode.scopedCode => exact ⟨h.1.1, hapart.symm⟩
  case binary.binary => exact ⟨hapart.symm, h⟩
  case date.date => exact Int64.toInt_inj.mp h
  case timestamp.timestamp => exact ⟨UInt32.toNat_inj.mp h.1, UInt32.toNat_inj.mp h.2⟩
  case objectId.objectId id id' =>
    obtain ⟨bytes, hlength⟩ := id
    cases h
    rfl
  all_goals exact h

theorem variants_of_other {value : Value} (hvalue : value.asDouble? = none) :
    Index.variants value = [value] := by
  cases value <;> first | rfl | cases hvalue

section Numbers

variable {value : Value} {n : Int} {x : Double}

theorem asInt?_of_number (hnumber : value.asDouble? ≠ none) (hvalue : ¬ value.IsDouble) :
    ∃ n : Int64, value.asInt? = some n.toInt ∧
      Index.variants value = [.int64 n, .double (.ofInt n.toInt)] := by
  cases value with
  | int32 m =>
    refine ⟨m.toInt64, ?_, ?_⟩ <;> simp only [asInt?, Index.variants, Int32.toInt_toInt64]
  | int64 m => exact ⟨m, rfl, rfl⟩
  | double x => exact absurd trivial hvalue
  | _ => exact absurd rfl hnumber

theorem number_of_same_double (h : value.same (.double x) = true) : value.asDouble? ≠ none := by
  cases value <;> simp [same, compare, compareNumbers, asInt?, asDouble?, eqv] at h ⊢

theorem same_double_iff {y : Double} :
    (Value.double x).same (.double y) = true ↔ x.compare y = .eq := by
  simp [same, compare, compareNumbers, asInt?, asDouble?]

variable (hvalue : value.asInt? = some n)
include hvalue

theorem double_same_iff : (Value.double x).same value = true ↔ x.compare (.ofInt n) = .eq := by
  cases value <;> simp only [asInt?, reduceCtorEq, Option.some.injEq] at hvalue <;> subst hvalue <;>
    simp [same, compare, compareNumbers, asInt?, asDouble?]

theorem integer_same_iff : value.same (.double x) = true ↔ (Double.ofInt n).compare x = .eq := by
  cases value <;> simp only [asInt?, reduceCtorEq, Option.some.injEq] at hvalue <;> subst hvalue <;>
    simp [same, compare, compareNumbers, asInt?, asDouble?]

theorem apart_double_iff : value.Apart (.double x) ↔ x.isNegative = true ∧ x.magnitude = 0 := by
  cases value <;> simp only [asInt?, reduceCtorEq] at hvalue <;> rfl

theorem double_apart_iff :
    (Value.double x).Apart value ↔ Index.wholeBound * Double.unit ≤ x.scaled.natAbs := by
  cases value <;> simp only [asInt?, reduceCtorEq] at hvalue <;> rfl

end Numbers

/-- Of values that are the same and not apart, the second has the key of a variant of the first. -/
theorem exists_variant_of_same {value found : Value} (h : found.same value = true)
    (hapart : ¬ value.Apart found) :
    ∃ variant ∈ Index.variants value, OrderedKey.encode variant = OrderedKey.encode found := by
  by_cases hother : value.asDouble? = none
  · rw [eq_of_same hother h hapart, variants_of_other hother]
    exact ⟨value, List.mem_singleton_self _, rfl⟩
  by_cases hvalue : value.IsDouble
  · obtain ⟨x, rfl⟩ : ∃ x, value = .double x := by
      cases value <;> first | exact ⟨_, rfl⟩ | cases hvalue
    by_cases hfound : found.IsDouble
    · obtain ⟨y, rfl⟩ : ∃ y, found = .double y := by
        cases found <;> first | exact ⟨_, rfl⟩ | cases hfound
      have heq : y = x := by
        rcases Double.eq_of_compare (same_double_iff.mp h) with heq | ⟨-, hx⟩
        · exact heq
        · by_contra hne
          exact hapart ⟨Ne.symm hne, hx⟩
      refine ⟨.double x, ?_, by rw [heq]⟩
      simp only [Index.variants]
      split <;> exact List.mem_cons_self
    · obtain ⟨n, hn, -⟩ := asInt?_of_number (number_of_same_double h) hfound
      rw [double_apart_iff hn, Nat.not_le] at hapart
      have hwhole : x.wholeBelow? Index.wholeBound = some n.toInt :=
        Double.wholeBelow?_of_compare (by decide) ((integer_same_iff hn).mp h) hapart
      refine ⟨.int64 n, ?_, OrderedKey.encode_of_asInt? hn⟩
      simp [Index.variants, hwhole, Int64.ofInt_toInt]
  · obtain ⟨n, hn, hvariants⟩ := asInt?_of_number hother hvalue
    rw [hvariants]
    by_cases hfound : found.IsDouble
    · obtain ⟨y, rfl⟩ : ∃ y, found = .double y := by
        cases found <;> first | exact ⟨_, rfl⟩ | cases hfound
      rw [apart_double_iff hn] at hapart
      have heq : y = .ofInt n.toInt := Double.eq_ofInt_of_compare ((double_same_iff hn).mp h) hapart
      exact ⟨.double (.ofInt n.toInt), List.mem_cons_of_mem _ List.mem_cons_self, by rw [heq]⟩
    · have hsame := asInt?_of_same hn hfound h
      exact ⟨.int64 n, List.mem_cons_self, OrderedKey.encode_of_asInt? hsame⟩

def IsComposite : Value → Prop
  | .array _ | .document _ | .scopedCode _ _ => True
  | _ => False

theorem encode_double_inj {x y : Double}
    (h : OrderedKey.encode (.double x) = OrderedKey.encode (.double y)) : x = y := by
  simp only [OrderedKey.encode, Except.ok.injEq, List.cons.injEq, true_and] at h
  have hbytes := congrArg OrderedKey.doubleOfBytes h
  rwa [OrderedKey.doubleOfBytes_doubleBytes, OrderedKey.doubleOfBytes_doubleBytes] at hbytes

theorem encode_integer_ne_double (n : Int64) (x : Double) :
    OrderedKey.encode (.int64 n) ≠ OrderedKey.encode (.double x) := by
  simp [OrderedKey.encode, OrderedKey.integerTag, OrderedKey.doubleTag]

/-- Values that are apart are indexed apart, whichever variant of the first is tried. -/
theorem encode_ne_of_apart {value found : Value} (hapart : value.Apart found)
    (hcomposite : ¬ value.IsComposite) :
    ∀ variant ∈ Index.variants value, OrderedKey.encode variant ≠ OrderedKey.encode found := by
  by_cases hother : value.asDouble? = none
  · rw [variants_of_other hother, List.forall_mem_singleton]
    cases value <;> simp only [IsComposite, not_true] at hcomposite <;> cases found <;>
      simp only [Apart] at hapart
    case binary.binary => simp [OrderedKey.encode, hapart]
    all_goals cases hother
  by_cases hvalue : value.IsDouble
  · obtain ⟨x, rfl⟩ : ∃ x, value = .double x := by
      cases value <;> first | exact ⟨_, rfl⟩ | cases hvalue
    by_cases hfound : found.IsDouble
    · obtain ⟨y, rfl⟩ : ∃ y, found = .double y := by
        cases found <;> first | exact ⟨_, rfl⟩ | cases hfound
      have hne : OrderedKey.encode (.double x) ≠ OrderedKey.encode (.double y) :=
        fun heq => hapart.1 (encode_double_inj heq)
      simp only [Index.variants]
      split <;> simp [hne, encode_integer_ne_double]
    · have hlarge : Index.wholeBound * Double.unit ≤ x.scaled.natAbs := by
        cases found <;> first | exact hapart | exact absurd trivial hfound | cases hapart
      simp only [Index.variants, Double.wholeBelow?_of_large hlarge, List.forall_mem_singleton]
      cases found <;> simp only [Apart] at hapart <;>
        simp [OrderedKey.encode, OrderedKey.integerTag, OrderedKey.doubleTag]
      exact absurd trivial hfound
  · obtain ⟨n, hn, hvariants⟩ := asInt?_of_number hother hvalue
    obtain ⟨y, rfl⟩ : ∃ y, found = .double y := by
      cases value <;> simp only [asInt?, reduceCtorEq] at hn <;> cases found <;>
        first | exact ⟨_, rfl⟩ | cases hapart
    rw [apart_double_iff hn] at hapart
    have hne : OrderedKey.encode (.double (.ofInt n.toInt)) ≠ OrderedKey.encode (.double y) :=
      fun heq => Double.ofInt_not_negative_zero (encode_double_inj heq ▸ hapart)
    rw [hvariants]
    simp [hne, encode_integer_ne_double]

end Value

-- ---------------------------------------------------------------------------
-- Lookups
-- ---------------------------------------------------------------------------

namespace Search

variable {scene : Scene} {schema : Schema} {spec : IndexSpec}

theorem encode_variants {value : Value} {key : Bytes} (h : OrderedKey.encode value = .ok key) :
    ∀ variant ∈ Index.variants value, ∃ key, OrderedKey.encode variant = .ok key := by
  by_cases hother : value.asDouble? = none
  · rw [Value.variants_of_other hother]
    exact List.forall_mem_singleton.mpr ⟨key, h⟩
  · by_cases hvalue : value.IsDouble
    · intro variant hvariant
      cases value <;> simp only [Value.IsDouble] at hvalue
      simp only [Index.variants] at hvariant
      split at hvariant
      · simp only [List.mem_cons, List.not_mem_nil, or_false] at hvariant
        rcases hvariant with rfl | rfl <;> exact ⟨_, rfl⟩
      · cases List.mem_singleton.mp hvariant
        exact ⟨_, rfl⟩
    · obtain ⟨n, -, hvariants⟩ := Value.asInt?_of_number hother hvalue
      rw [hvariants]
      simp only [List.forall_mem_cons, List.not_mem_nil, false_imp_iff, implies_true, and_true]
      exact ⟨⟨_, rfl⟩, ⟨_, rfl⟩⟩

theorem lookup_finds (hcodec : scene.codec = .bson) (hmirrored : scene.Mirrored schema)
    (hspec : spec ∈ schema.indexes) {values : List Value}
    (hvalues : ∀ value ∈ values, ∃ key, scene.codec.encodeKey value = .ok key) :
    ∃ keys, LookupFinds scene schema spec values keys ∧
      ∀ row : Row, row.Stored scene schema → (row.key ∈ keys ↔
        ∃ value ∈ values, ∃ variant ∈ Index.variants value,
          OrderedKey.encode variant = OrderedKey.encode (row.doc.lookupOrNull spec.field)) := by
  have hlists := hmirrored.lists spec hspec
  have hencode : scene.codec.encodeKey = OrderedKey.encode := by rw [hcodec]; rfl
  have hencoded : ∀ variant ∈ values.flatMap Index.variants,
      ∃ key, scene.codec.encodeKey variant = .ok key := by
    intro variant hvariant
    obtain ⟨value, hvalue, hmem⟩ := List.mem_flatMap.mp hvariant
    obtain ⟨key, hkey⟩ := hvalues value hvalue
    rw [hencode] at hkey ⊢
    exact encode_variants hkey variant hmem
  obtain ⟨keys, hkeys, hiff⟩ := lookup_listed hmirrored hspec hencoded
  refine ⟨keys, hkeys, fun row hrow => ?_⟩
  simp only [hiff, hlists.mem_keysAt, List.mem_flatMap, hencode]
  constructor
  · rintro ⟨variant, ⟨value, hvalue, hvariant⟩, key, hkey, doc, hrow', hfound⟩
    have hsame : (⟨row.key, doc⟩ : Row) = row := hrow'.unique hrow rfl
    rw [hencode] at hfound
    exact ⟨value, hvalue, variant, hvariant, by rw [hkey, ← hsame, hfound]⟩
  · rintro ⟨value, hvalue, variant, hvariant, heq⟩
    obtain ⟨key, hkey⟩ := hmirrored.valued spec hspec row hrow
    have hvariantKey : OrderedKey.encode variant = .ok key := by rw [heq, ← hkey, hencode]
    exact ⟨variant, ⟨value, hvalue, hvariant⟩, key, hvariantKey, row.doc, hrow, hkey⟩

/-- A lookup finds every record whose value is the same as one looked up and not apart from it. -/
theorem lookup_complete (hcodec : scene.codec = .bson) (hmirrored : scene.Mirrored schema)
    (hspec : spec ∈ schema.indexes) {values : List Value}
    (hvalues : ∀ value ∈ values, ∃ key, scene.codec.encodeKey value = .ok key) :
    ∃ keys, (∀ reads, ∃ last, Index.lookup scene.codec schema spec values scene.view reads =
        (.ok keys, last)) ∧
      ∀ row : Row, row.Stored scene schema →
        (∃ value ∈ values, (row.doc.lookupOrNull spec.field).same value = true ∧
          ¬ value.Apart (row.doc.lookupOrNull spec.field)) → row.key ∈ keys := by
  obtain ⟨keys, ⟨hkeys, -⟩, hiff⟩ := lookup_finds hcodec hmirrored hspec hvalues
  refine ⟨keys, hkeys, ?_⟩
  rintro row hrow ⟨value, hvalue, hsame, hapart⟩
  exact (hiff row hrow).mpr ⟨value, hvalue, Value.exists_variant_of_same hsame hapart⟩

/-- A lookup finds no record whose value is apart from all that are looked up. -/
theorem lookup_misses (hcodec : scene.codec = .bson) (hmirrored : scene.Mirrored schema)
    (hspec : spec ∈ schema.indexes) {values : List Value}
    (hvalues : ∀ value ∈ values, ¬ value.IsComposite ∧ ∃ key, scene.codec.encodeKey value = .ok key)
    {row : Row} (hrow : row.Stored scene schema)
    (hapart : ∀ value ∈ values, value.Apart (row.doc.lookupOrNull spec.field)) :
    ∃ keys, (∀ reads, ∃ last, Index.lookup scene.codec schema spec values scene.view reads =
        (.ok keys, last)) ∧ row.key ∉ keys := by
  obtain ⟨keys, ⟨hkeys, -⟩, hiff⟩ := lookup_finds hcodec hmirrored hspec fun value hvalue =>
    (hvalues value hvalue).2
  refine ⟨keys, hkeys, fun hmem => ?_⟩
  obtain ⟨value, hvalue, variant, hvariant, heq⟩ := (hiff row hrow).mp hmem
  exact Value.encode_ne_of_apart (hapart value hvalue) (hvalues value hvalue).1 variant hvariant heq

-- ---------------------------------------------------------------------------
-- Points
-- ---------------------------------------------------------------------------

def heightIndex : IndexSpec := ⟨"height", "height", false⟩

def pointSchema : Schema := ⟨"point", none, [heightIndex], []⟩

def point (height : Value) : Document := ⟨[("height", height)]⟩

def negativeZero : Double := .ofMagnitude true 0

def pointTurns : List Turn :=
  [.start 1 false, .change 1 (.insert ⟨pointSchema, [], .ok⟩ (.number 1) (point (.double .zero))),
    .change 1 (.insert ⟨pointSchema, [], .ok⟩ (.number 2) (point (.double negativeZero))), .commit 1]

def points : Scene := ⟨(Turn.reached Turn.bookSettings pointTurns).store.current.data, .bson, 2⟩

def pointRow (number : Int64) (height : Value) : Row :=
  ⟨(OrderedKey.encode (.int64 number)).toOption.getD [], point height⟩

def atZero : Query Predicate :=
  Query.and .all "height" (.condition (.eq (.value (.int32 0))))

theorem admissible_pointTurns :
    ∀ id m, .change id m ∈ pointTurns → m.Admissible Turn.bookSettings [pointSchema] := by
  have hfits (n : Nat) (key : PrimaryKey) (hkey : key = .number n) (pk : Bytes)
      (h : Records.encodeKey Turn.bookSettings key = .ok pk) : KeyList.Fits pk := by
    subst hkey
    exact Records.fits_number rfl h
  intro id m hm
  simp only [pointTurns, List.mem_cons, Turn.change.injEq, reduceCtorEq, List.not_mem_nil, false_or,
    or_false] at hm
  rcases hm with ⟨-, rfl⟩ | ⟨-, rfl⟩
  all_goals
    refine ⟨List.mem_singleton_self _, ?_, hfits _⟩
    rintro doc hdoc bytes h
    cases hdoc
    cases h
    rfl

theorem mirrored_points : points.Mirrored pointSchema := by
  have hcatalog : Catalog [pointSchema] := ⟨by decide, by decide, by decide⟩
  have hreadable : Readable points pointSchema := readable_iff.mpr (by decide +kernel)
  have hkept : Interleaving.Kept .bson [pointSchema] (Turn.Spare pointTurns)
      (Turn.reached Turn.bookSettings pointTurns) :=
    Turn.kept_reached hcatalog admissible_pointTurns fun _ _ _ doc _ =>
      Codec.bson_keysStored.listable _ doc
  have hspare : ∀ spec, Turn.Spare pointTurns pointSchema spec := by
    intro spec id m hm
    simp only [pointTurns, List.mem_cons, Turn.change.injEq, reduceCtorEq, List.not_mem_nil,
      false_or, or_false] at hm
    rcases hm with ⟨-, rfl⟩ | ⟨-, rfl⟩ <;> simp [Mutation.Drops]
  have hdata := hkept.data pointSchema (List.mem_singleton_self _)
  refine Scene.mirrored_of_mirrors hcatalog (List.mem_singleton_self _) hreadable
    fun spec hspec => ?_
  simp only [points]
  exact hdata.mirrors hspec (hspare spec)

theorem stored_points :
    (pointRow 1 (.double .zero)).Stored points pointSchema ∧
      (pointRow 2 (.double negativeZero)).Stored points pointSchema := by
  have hupper : points.view.get? (Records.recordKey pointSchema (pointRow 1 .null).key) =
      (Codec.bson.encode (.document (point (.double .zero)).fields)).toOption := by
    decide +kernel
  have hlower : points.view.get? (Records.recordKey pointSchema (pointRow 2 .null).key) =
      (Codec.bson.encode (.document (point (.double negativeZero)).fields)).toOption := by
    decide +kernel
  exact ⟨⟨_, hupper, rfl⟩, ⟨_, hlower, rfl⟩⟩

theorem lookup_complete_points :
    let upper := pointRow 1 (.double .zero)
    points.Mirrored pointSchema ∧ heightIndex ∈ pointSchema.indexes ∧
      (∀ value ∈ [Value.int32 0], ∃ key, points.codec.encodeKey value = .ok key) ∧
      ∃ keys, (∀ reads, ∃ last, Index.lookup points.codec pointSchema heightIndex [.int32 0]
        points.view reads = (.ok keys, last)) ∧ upper.key ∈ keys := by
  have hvalues : ∀ value ∈ [Value.int32 0], ∃ key, points.codec.encodeKey value = .ok key :=
    List.forall_mem_singleton.mpr ⟨_, rfl⟩
  obtain ⟨keys, hkeys, hfound⟩ :=
    lookup_complete rfl mirrored_points (List.mem_singleton_self heightIndex) hvalues
  refine ⟨mirrored_points, List.mem_singleton_self _, hvalues, keys, hkeys, ?_⟩
  refine hfound _ stored_points.1 ⟨.int32 0, List.mem_singleton_self _, by decide +kernel, ?_⟩
  rintro ⟨hnegative, -⟩
  exact absurd hnegative (by decide)

/-- The point at height `-0` is at zero to a query, but not to a lookup, so it is found only without
the index. -/
theorem lookup_misses_zero :
    let upper := pointRow 1 (.double .zero)
    let lower := pointRow 2 (.double negativeZero)
    points.Mirrored pointSchema ∧ lower.Stored points pointSchema ∧
      (lower.doc.lookupOrNull heightIndex.field).same (.int32 0) = true ∧
      (Index.lookup .bson pointSchema heightIndex [.int32 0] points.view []).1.toOption =
        some [upper.key] ∧
      (findRows points pointSchema (atZero.ready points) ⟨[], [], .start⟩).1.toOption.map
        (List.map Row.key) = some [upper.key] ∧
      (findRows points { pointSchema with indexes := [] } (atZero.ready points)
        ⟨[], [], .start⟩).1.toOption.map (List.map Row.key) = some [upper.key, lower.key] := by
  refine ⟨mirrored_points, stored_points.2, ?_, ?_, ?_, ?_⟩ <;> decide +kernel

end Search

end DocStore
