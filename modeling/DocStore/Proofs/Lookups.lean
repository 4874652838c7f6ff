import DocStore.Proofs.Entries
import DocStore.Proofs.IndexValues
import DocStore.Proofs.Table

/-!
# Lookups

A lookup finds the keys listed under any of the values and their variants (`lookup_run`). The planner
looks up the literals of one equality on the indexed field (`Plan.make_cases`), one of which a record
must be the same as to match (`lookupValues?_same`).
-/

namespace DocStore

-- ---------------------------------------------------------------------------
-- Going through entries
-- ---------------------------------------------------------------------------

namespace Index

variable {codec : Codec} {schema : Schema} {spec : IndexSpec} {view : Data}

theorem mem_sortKeys {keys : List Bytes} {key : Bytes} : key ∈ sortKeys keys ↔ key ∈ keys := by
  have hfold : ∀ (keys : List Bytes) (t : Table Bytes Unit),
      ((keys.foldl (fun t key => t.insert key ()) t).get? key).isSome ↔
        key ∈ keys ∨ (t.get? key).isSome := by
    intro keys
    induction keys with
    | nil => simp
    | cons head rest ih =>
      intro t
      rw [List.foldl_cons, ih, Table.get?_insert, List.mem_cons]
      by_cases hkey : key = head <;> simp [hkey]
  rw [sortKeys, Table.mem_keys_iff, hfold]
  simp

theorem collect_run (hreadable : ∀ value, view.Readable (entryAt schema spec value))
    {values : List Value} (hkeys : ∀ value ∈ values, ∃ key, codec.encodeKey value = .ok key) :
    ∃ found, (∀ reads, ∃ last, collect codec schema spec values view reads = (.ok found, last)) ∧
      ∀ pk, pk ∈ found ↔ ∃ value ∈ values, ∃ key, codec.encodeKey value = .ok key ∧
        pk ∈ view.keysAt (entryAt schema spec key) := by
  induction values with
  | nil => exact ⟨[], fun reads => ⟨reads, rfl⟩, by simp⟩
  | cons value rest ih =>
    obtain ⟨more, hmore, hiff⟩ := ih fun value hvalue => hkeys value (List.mem_cons_of_mem _ hvalue)
    obtain ⟨key, hkey⟩ := hkeys value List.mem_cons_self
    have hentry : entryKey codec schema spec value = .ok (entryAt schema spec key) := by
      simp only [entryKey, hkey]
      rfl
    refine ⟨view.keysAt (entryAt schema spec key) ++ more, fun reads => ?_, fun pk => ?_⟩
    · obtain ⟨last, hlast⟩ := hmore (entryAt schema spec key :: reads)
      refine ⟨last, ?_⟩
      simp only [collect, Reading.run_bind, Reading.ofExcept, hentry, readEntry_run (hreadable key),
        hlast, Reading.run_pure]
    · simp only [List.mem_append, hiff, List.exists_mem_cons_iff, hkey, Except.ok.injEq,
        exists_eq_left']

theorem lookup_run (hreadable : ∀ value, view.Readable (entryAt schema spec value))
    {values : List Value}
    (hkeys : ∀ value ∈ values.flatMap variants, ∃ key, codec.encodeKey value = .ok key) :
    ∃ found, (∀ reads, ∃ last, lookup codec schema spec values view reads = (.ok found, last)) ∧
      ∀ pk, pk ∈ found ↔ ∃ value ∈ values.flatMap variants, ∃ key,
        codec.encodeKey value = .ok key ∧ pk ∈ view.keysAt (entryAt schema spec key) := by
  obtain ⟨found, hfound, hiff⟩ := collect_run hreadable hkeys
  refine ⟨sortKeys found, fun reads => ?_, fun pk => mem_sortKeys.trans (hiff pk)⟩
  obtain ⟨last, hlast⟩ := hfound reads
  refine ⟨last, ?_⟩
  simp only [lookup, Reading.run_bind, hlast, Reading.run_pure]

end Index

-- ---------------------------------------------------------------------------
-- Plans
-- ---------------------------------------------------------------------------

theorem Plan.indexFor_ok {schema : Schema} {q : Query Test}
    (hnames : ∀ name, q.indexName = some name → (schema.findIndex name).isSome) :
    ∃ found, indexFor schema q = .ok found ∧ ∀ spec, found = some spec → spec ∈ schema.indexes := by
  unfold indexFor
  cases hname : q.indexName with
  | some name =>
    obtain ⟨spec, hspec⟩ := Option.isSome_iff_exists.mp (hnames name hname)
    simp only [hspec]
    refine ⟨some spec, rfl, fun other hother => ?_⟩
    cases hother
    exact List.mem_of_find?_eq_some hspec
  | none =>
    cases q.onlyField? with
    | none => exact ⟨none, rfl, nofun⟩
    | some field =>
      refine ⟨_, rfl, fun spec hspec => ?_⟩
      split at hspec
      · cases hspec
      · exact List.mem_of_find?_eq_some hspec

theorem Plan.make_cases {codec : Codec} {schema : Schema} {q : Query Test}
    (hnames : ∀ name, q.indexName = some name → (schema.findIndex name).isSome) :
    ∃ plan, Plan.make codec schema q = .ok plan ∧ (plan = .recordScan ∨ ∃ spec ∈ schema.indexes,
      (∃ values, plan = .lookup spec values ∧ lookupValues? spec q = some values) ∨
        ∃ filtered, plan = .indexScan spec filtered) := by
  obtain ⟨found, hfound, hmem⟩ := indexFor_ok hnames
  simp only [make, hfound, bind, Except.bind]
  cases found with
  | none => exact ⟨.recordScan, rfl, .inl rfl⟩
  | some spec =>
    cases hvalues : lookupValues? spec q with
    | some values =>
      simp only [hvalues]
      exact ⟨_, rfl, .inr ⟨spec, hmem spec rfl, .inl ⟨values, rfl, hvalues⟩⟩⟩
    | none =>
      simp only [hvalues]
      exact ⟨_, rfl, .inr ⟨spec, hmem spec rfl, .inr ⟨_, rfl⟩⟩⟩

/-- A lookup stands for one equality on the indexed field. -/
theorem Plan.clause_of_lookup {q : Query Test} {spec : IndexSpec} {values : List Value}
    (h : lookupValues? spec q = some values) :
    ∃ c ∈ q.clauses, c.field = spec.field ∧ c.criterion.lookupValues? = some values := by
  unfold lookupValues? at h
  split at h
  · rename_i criterion _ hcriteria
    have hmem : criterion ∈ q.criteriaFor spec.field := by
      rw [hcriteria]
      exact List.mem_singleton_self _
    obtain ⟨c, hc, rfl⟩ := List.mem_map.mp hmem
    obtain ⟨hclause, hfield⟩ := List.mem_filter.mp hc
    exact ⟨c, hclause, by simpa using hfield, h⟩
  · cases h

theorem Condition.mem_of_anyIn {resolve : Operand → Except Failure Value}
    (hresolve : ∀ v, resolve (.value v) = .ok v) {value : Value} {xs : List Operand}
    {values : List Value} (h : xs.mapM Operand.literal? = some values)
    (hholds : anyIn resolve [value] xs = .ok true) : ∃ v ∈ values, value.same v = true := by
  induction xs generalizing values with
  | nil => cases hholds
  | cons x rest ih =>
    cases x with
    | field name => cases h
    | value v =>
      simp only [List.mapM_cons, Operand.literal?, Option.bind_eq_bind, Option.bind_some,
        Option.bind_eq_some_iff, Option.pure_def, Option.some.injEq] at h
      obtain ⟨more, hmore, rfl⟩ := h
      simp only [anyIn, hresolve, bind, Except.bind, List.any_cons, List.any_nil, Bool.or_false]
        at hholds
      split at hholds
      · rename_i hsame
        exact ⟨v, List.mem_cons_self, hsame⟩
      · obtain ⟨w, hw, hsame⟩ := ih hmore hholds
        exact ⟨w, List.mem_cons_of_mem _ hw, hsame⟩

theorem Condition.lookupValues?_same {schema : Schema} {field : String}
    {resolve : Operand → Except Failure Value} (hresolve : ∀ v, resolve (.value v) = .ok v)
    {value : Value} {c : Condition} {values : List Value} (h : c.lookupValues? = some values)
    (hholds : c.holds schema resolve field value = .ok true) : ∃ v ∈ values, value.same v = true := by
  cases c with
  | eq x =>
    cases x with
    | field name => cases h
    | value v =>
      cases h
      refine ⟨v, List.mem_singleton_self _, ?_⟩
      simpa [Condition.holds, hresolve, bind, Except.bind, pure, Except.pure] using hholds
  | oneOf xs => exact mem_of_anyIn hresolve h hholds
  | _ => cases h

end DocStore
