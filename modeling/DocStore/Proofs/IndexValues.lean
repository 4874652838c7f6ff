import DocStore.Codec.OrderedKey
import DocStore.Proofs.Exact
import DocStore.Proofs.KeyCodecs

/-!
# Values in indexes

What an index tells of a value is enough to test literal conditions on it, although it does not tell
the kinds of integers apart (`holds_widened`). And the values that are the same as one that is looked
up share an entry with it or with one of its variants (`encode_of_same`), as long as no double is
involved: a double may equal an integer without being a variant of it.
-/

namespace DocStore

open OrderedKey (widened)

-- ---------------------------------------------------------------------------
-- Integers of both kinds
-- ---------------------------------------------------------------------------

namespace Value

theorem compare_int32 (n : Int32) (x : Value) :
    (int32 n).compare x = (int64 n.toInt64).compare x := by
  cases x <;> simp [compare, compareNumbers, asInt?, asDouble?]

theorem same_int32 (n : Int32) (x : Value) : (int32 n).same x = (int64 n.toInt64).same x := by
  unfold same
  rw [compare_int32]
  cases x <;> simp [compare, compareNumbers, asInt?, asDouble?, eqv]

theorem text_int32 (n : Int32) : (int32 n).text = (int64 n.toInt64).text := by
  simp [text, display]

end Value

-- ---------------------------------------------------------------------------
-- Conditions
-- ---------------------------------------------------------------------------

namespace Condition

variable {schema : Schema} {field : String} {resolve : Operand → Except Failure Value}

theorem anyIn_congr {items items' : List Value} (h : ∀ x, items.any (·.same x) = items'.any (·.same x))
    (xs : List Operand) : anyIn resolve items xs = anyIn resolve items' xs := by
  induction xs with
  | nil => rfl
  | cons x rest ih => simp only [anyIn, h, ih]

theorem allIn_congr {items items' : List Value} (h : ∀ x, items.any (·.same x) = items'.any (·.same x))
    (xs : List Operand) : allIn resolve items xs = allIn resolve items' xs := by
  induction xs with
  | nil => rfl
  | cons x rest ih => simp only [allIn, h, ih]

theorem ordered_int32 {n : Int32} (test : Ordering → Bool) {x : Operand} {holds : Bool}
    (h : (do pure (test (← ordered field (.int32 n) (← resolve x))) : Except Failure Bool) =
      .ok holds) :
    (do pure (test (← ordered field (.int64 n.toInt64) (← resolve x))) : Except Failure Bool) =
      .ok holds := by
  cases hx : resolve x with
  | error e => simp [hx, bind, Except.bind] at h
  | ok y =>
    simp only [hx, bind, Except.bind, ordered, Value.compare_int32] at h ⊢
    cases horder : (Value.int64 n.toInt64).compare y with
    | none => simp [horder] at h
    | some order => simpa only [horder] using h

/-- A condition that answers on an integer answers alike on the wide form of it. Only failures tell
the two apart, by the kind that they name. -/
theorem holds_int32 {n : Int32} {c : Condition} {holds : Bool}
    (h : c.holds schema resolve field (.int32 n) = .ok holds) :
    c.holds schema resolve field (.int64 n.toInt64) = .ok holds := by
  have hsame : ∀ x, [Value.int32 n].any (·.same x) = [Value.int64 n.toInt64].any (·.same x) := by
    intro x
    simp only [List.any_cons, List.any_nil, Value.same_int32]
  cases c with
  | eq x => simpa only [Condition.holds, Value.same_int32] using h
  | ne x => simpa only [Condition.holds, Value.same_int32] using h
  | gt x => exact ordered_int32 (· == .gt) h
  | lt x => exact ordered_int32 (· == .lt) h
  | ge x => exact ordered_int32 (· != .lt) h
  | le x => exact ordered_int32 (· != .gt) h
  | oneOf xs =>
    simp only [Condition.holds] at h ⊢
    rwa [← anyIn_congr hsame]
  | pattern p => simpa only [Condition.holds, Value.text_int32] using h
  | isNull =>
    simp only [Condition.holds, isNullHolds] at h ⊢
    split at h
    · rename_i hnullable
      rwa [if_pos hnullable]
    · cases h
  | startsWith s => simpa only [Condition.holds, Value.text_int32] using h
  | endsWith s => simpa only [Condition.holds, Value.text_int32] using h
  | hasKey name => cases h
  | contains x => simpa only [Condition.holds, elements, hsame] using h
  | containsAny xs =>
    simp only [Condition.holds, elements] at h ⊢
    rwa [← anyIn_congr hsame]
  | containsAll xs =>
    simp only [Condition.holds, elements] at h ⊢
    rwa [← allIn_congr hsame]

theorem holds_widened {value : Value} {c : Condition} {holds : Bool}
    (h : c.holds schema resolve field value = .ok holds) :
    c.holds schema resolve field (widened value) = .ok holds := by
  cases value with
  | int32 n => exact holds_int32 h
  | _ => exact h

section Literals

variable (hresolve : ∀ v, resolve (.value v) = .ok v)
include hresolve

theorem resolveAlone_eq {x : Operand} (h : x.literal?.isSome = true) :
    Operand.resolveAlone x = resolve x := by
  cases x with
  | value v => exact (hresolve v).symm
  | field name => cases h

theorem anyIn_literals (items : List Value) {xs : List Operand}
    (h : xs.all (fun x => x.literal?.isSome) = true) :
    anyIn Operand.resolveAlone items xs = anyIn resolve items xs := by
  induction xs with
  | nil => rfl
  | cons x rest ih =>
    simp only [List.all_cons, Bool.and_eq_true] at h
    simp only [anyIn, resolveAlone_eq hresolve h.1, ih h.2]

theorem allIn_literals (items : List Value) {xs : List Operand}
    (h : xs.all (fun x => x.literal?.isSome) = true) :
    allIn Operand.resolveAlone items xs = allIn resolve items xs := by
  induction xs with
  | nil => rfl
  | cons x rest ih =>
    simp only [List.all_cons, Bool.and_eq_true] at h
    simp only [allIn, resolveAlone_eq hresolve h.1, ih h.2]

theorem holds_literal {c : Condition} (hliteral : c.isLiteral = true) (value : Value) :
    c.holds schema Operand.resolveAlone field value = c.holds schema resolve field value := by
  unfold isLiteral at hliteral
  cases c with
  | eq x | ne x | gt x | lt x | ge x | le x | contains x =>
    simp only [operands, List.all_cons, List.all_nil, Bool.and_true] at hliteral
    simp only [Condition.holds, resolveAlone_eq hresolve hliteral]
  | oneOf xs | containsAny xs =>
    simp only [operands] at hliteral
    simp only [Condition.holds, anyIn_literals hresolve _ hliteral]
  | containsAll xs =>
    simp only [operands] at hliteral
    simp only [Condition.holds, allIn_literals hresolve _ hliteral]
  | pattern p => rfl
  | isNull => rfl
  | startsWith s => rfl
  | endsWith s => rfl
  | hasKey name => rfl

end Literals

end Condition

-- ---------------------------------------------------------------------------
-- Filters
-- ---------------------------------------------------------------------------

theorem Criterion.literal?_eq_some {criterion : Criterion Test} {condition : Condition}
    (h : criterion.literal? = some condition) :
    criterion = .condition condition ∧ condition.isLiteral = true := by
  unfold Criterion.literal? at h
  split at h
  · split at h
    · rename_i hliteral
      cases h
      exact ⟨rfl, hliteral⟩
    · cases h
  · cases h

namespace Evaluation

variable {scene : Scene} {schema : Schema} {row : Row}

theorem resolveField_eq {field : String} (hfield : field ≠ keyName) {value : Value}
    (h : resolveField scene schema row field = .ok value) : row.doc.lookup field = some value := by
  unfold resolveField at h
  rw [if_neg (by simpa using hfield)] at h
  cases hlookup : row.doc.lookup field with
  | none => simp only [hlookup, reduceCtorEq] at h
  | some found =>
    simp only [hlookup, Except.ok.injEq] at h
    rw [h]

/-- A condition that answers in the record answers alike on the value that the index has of it. -/
theorem holds_in_index {c : Clause Test} {condition : Condition} {holds : Bool}
    (hfield : c.field ≠ keyName) (hcriterion : c.criterion = .condition condition)
    (hliteral : condition.isLiteral = true) (h : Answers scene schema row [c] holds) :
    condition.holds schema Operand.resolveAlone c.field (widened (row.doc.lookupOrNull c.field)) =
      .ok holds := by
  obtain ⟨value, hvalue, hanswer⟩ := h.of_singleton
  have hlookup := resolveField_eq hfield hvalue
  have hinside : condition.holds schema (resolve scene schema row) c.field value = .ok holds := by
    have := hanswer ⟨[], [], .start⟩
    rwa [hcriterion] at this
  have hresolve : ∀ v, resolve scene schema row (.value v) = .ok v := fun _ => rfl
  rw [Condition.holds_literal hresolve hliteral,
    Document.lookupOrNull, hlookup, Option.getD_some]
  exact Condition.holds_widened hinside

theorem allHold_answers {field : String} (hfield : field ≠ keyName) {clauses : List (Clause Test)}
    (hdecided : ∀ c ∈ clauses, ∃ holds, Answers scene schema row [c] holds) :
    ∃ passes, allHold schema field (widened (row.doc.lookupOrNull field))
        (((clauses.filter (·.field == field)).map (·.criterion)).filterMap Criterion.literal?) =
          .ok passes ∧
      ((∀ c ∈ clauses, Answers scene schema row [c] true) → passes = true) := by
  induction clauses with
  | nil => exact ⟨true, rfl, fun _ => rfl⟩
  | cons c rest ih =>
    obtain ⟨passes, hpasses, himplies⟩ := ih fun c hc => hdecided c (List.mem_cons_of_mem _ hc)
    have hskipped : (∀ c' ∈ c :: rest, Answers scene schema row [c'] true) → passes = true :=
      fun hall => himplies fun c' hc' => hall c' (List.mem_cons_of_mem _ hc')
    by_cases hc : c.field = field
    · simp only [List.filter_cons, hc, beq_self_eq_true, if_true, List.map_cons]
      cases hliteral : c.criterion.literal? with
      | none =>
        rw [List.filterMap_cons_none hliteral]
        exact ⟨passes, hpasses, hskipped⟩
      | some condition =>
        obtain ⟨hcriterion, hcondition⟩ := Criterion.literal?_eq_some hliteral
        obtain ⟨holds, hanswers⟩ := hdecided c List.mem_cons_self
        have hholds := holds_in_index (hc ▸ hfield) hcriterion hcondition hanswers
        rw [hc] at hholds
        rw [List.filterMap_cons_some hliteral]
        simp only [allHold, hholds, bind, Except.bind]
        cases holds with
        | true => exact ⟨passes, hpasses, hskipped⟩
        | false =>
          refine ⟨false, rfl, fun hall => ?_⟩
          exact hanswers.unique (hall c List.mem_cons_self)
    · simp only [List.filter_cons, beq_iff_eq, hc, if_false]
      exact ⟨passes, hpasses, hskipped⟩

theorem indexFilter_answers {q : Query Test} {field : String} (hfield : field ≠ keyName)
    (hdecided : ∀ c ∈ q.clauses, ∃ holds, Answers scene schema row [c] holds) :
    ∃ passes, indexFilter schema q field (widened (row.doc.lookupOrNull field)) = .ok passes ∧
      (Answers scene schema row q.clauses true → passes = true) := by
  obtain ⟨passes, hpasses, himplies⟩ := allHold_answers hfield hdecided
  obtain ⟨holds, hanswers, hiff⟩ := answers_of_each hdecided
  exact ⟨passes, hpasses, fun htrue => himplies (hiff.mp (hanswers.unique htrue))⟩

end Evaluation

-- ---------------------------------------------------------------------------
-- Lookups
-- ---------------------------------------------------------------------------

/-- Values that a lookup finds all records for, whichever kind of integer they hold. -/
def Value.IsPlain : Value → Prop
  | .null | .boolean _ | .string _ | .date _ | .objectId _ | .int32 _ | .int64 _ => True
  | _ => False

def Value.IsDouble : Value → Prop
  | .double _ => True
  | _ => False

theorem Value.IsPlain.encode_ok {value : Value} (h : value.IsPlain) :
    ∀ variant ∈ Index.variants value, ∃ key, OrderedKey.encode variant = .ok key := by
  intro variant hvariant
  cases value with
  | int32 n | int64 n =>
    simp only [Index.variants, List.mem_cons, List.not_mem_nil, or_false] at hvariant
    rcases hvariant with rfl | rfl <;> exact ⟨_, rfl⟩
  | null | boolean b | string s | date millis | objectId id =>
    cases List.mem_singleton.mp hvariant
    exact ⟨_, rfl⟩
  | _ => cases h

theorem Value.asInt?_of_same {value found : Value} {n : Int} (hvalue : value.asInt? = some n)
    (hfound : ¬ found.IsDouble) (h : found.same value = true) : found.asInt? = some n := by
  cases value <;> simp only [asInt?, reduceCtorEq, Option.some.injEq] at hvalue <;> subst hvalue <;>
    cases found <;> simp_all [same, compare, compareNumbers, asInt?, asDouble?, eqv, IsDouble]

theorem OrderedKey.encode_of_asInt? {value : Value} {n : Int64} (h : value.asInt? = some n.toInt) :
    OrderedKey.encode (.int64 n) = OrderedKey.encode value := by
  cases value with
  | int32 m =>
    have heq : m.toInt = n.toInt := Option.some.inj h
    have hwide : m.toInt64 = n := Int64.toInt_inj.mp (by rw [Int32.toInt_toInt64, heq])
    simp only [OrderedKey.encode, hwide]
  | int64 m =>
    have heq : m.toInt = n.toInt := Option.some.inj h
    rw [Int64.toInt_inj.mp heq]
  | _ => cases h

/-- Of all but doubles, what is the same as a plain value has the key of one of its variants. -/
theorem Value.encode_of_same {value found : Value} (hplain : value.IsPlain)
    (hfound : ¬ found.IsDouble) (h : found.same value = true) :
    ∃ variant ∈ Index.variants value, OrderedKey.encode variant = OrderedKey.encode found := by
  cases value with
  | null =>
    cases found <;> simp [same, compare, compareNumbers, asInt?, asDouble?, eqv] at h
    exact ⟨.null, List.mem_singleton_self _, rfl⟩
  | boolean b =>
    cases found <;> simp [same, compare, compareNumbers, asInt?, asDouble?, eqv] at h
    subst h
    exact ⟨_, List.mem_singleton_self _, rfl⟩
  | string s =>
    cases found <;> simp [same, compare, compareNumbers, asInt?, asDouble?, eqv] at h
    subst h
    exact ⟨_, List.mem_singleton_self _, rfl⟩
  | date millis =>
    cases found <;> simp [same, compare, compareNumbers, asInt?, asDouble?, eqv] at h
    rw [Int64.toInt_inj.mp h]
    exact ⟨_, List.mem_singleton_self _, rfl⟩
  | objectId id =>
    cases found <;> simp [same, compare, compareNumbers, asInt?, asDouble?, eqv] at h
    exact ⟨_, List.mem_singleton_self _, by simp only [OrderedKey.encode, h]⟩
  | int32 n =>
    refine ⟨.int64 n.toInt64, List.mem_cons_self, OrderedKey.encode_of_asInt? ?_⟩
    rw [Int32.toInt_toInt64]
    exact asInt?_of_same rfl hfound h
  | int64 n =>
    exact ⟨.int64 n, List.mem_cons_self, OrderedKey.encode_of_asInt? (asInt?_of_same rfl hfound h)⟩
  | _ => cases hplain

end DocStore
