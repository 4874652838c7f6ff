import DocStore.Proofs.EqualKeys
import DocStore.Proofs.Paging

/-!
# Unique values

No two records have the same key in the field of a unique index (`Turn.unique_reached`). Keys tell more
values apart than queries do, so this makes a value unique to queries as well unless it is of a kind with
several forms (`Value.Parted`). A number can be stored twice, once as an integer and once as a double,
and then a query for it finds two records (`Turn.unique_admits_double`).
-/

namespace DocStore

-- ---------------------------------------------------------------------------
-- Forms of a value
-- ---------------------------------------------------------------------------

namespace Value

/-- Values with keys of their own although a query may take them for the same: an integer and a double,
two doubles, binary data of two subtypes and composite values that differ in their parts. -/
def Parted : Value → Value → Prop
  | .int32 _, .double _ | .int64 _, .double _ | .double _, .int32 _ | .double _, .int64 _ => True
  | .double x, .double y => x ≠ y
  | .binary subtype _, .binary subtype' _ => subtype ≠ subtype'
  | .array items, .array items' => items ≠ items'
  | .document fields, .document fields' => fields ≠ fields'
  | .scopedCode _ scope, .scopedCode _ scope' => scope ≠ scope'
  | _, _ => False

/-- Values of kinds in which no two values are the same to a query. -/
def Formless : Value → Prop
  | .int32 _ | .int64 _ | .double _ | .binary _ _ | .array _ | .document _ | .scopedCode _ _ => False
  | _ => True

theorem Apart.parted {value found : Value} (h : value.Apart found) : value.Parted found := by
  cases value <;> cases found <;> simp only [Apart, Parted] at h ⊢ <;> first | exact h | exact h.1

theorem Formless.eq_of_same {value found : Value} (hvalue : value.Formless)
    (h : found.same value = true) : found = value := by
  refine Value.eq_of_same ?_ h fun hapart => ?_
  · cases value <;> first | rfl | exact hvalue.elim
  · cases value <;> first | exact hvalue.elim | (cases found <;> cases hapart)

/-- Values that are the same and not parted have the same key. -/
theorem encode_eq_of_same {value found : Value} (h : found.same value = true)
    (hparted : ¬ value.Parted found) : OrderedKey.encode value = OrderedKey.encode found := by
  by_cases hother : value.asDouble? = none
  · rw [Value.eq_of_same hother h fun hapart => hparted hapart.parted]
  by_cases hvalue : value.IsDouble
  · obtain ⟨x, rfl⟩ : ∃ x, value = .double x := by
      cases value <;> first | exact ⟨_, rfl⟩ | cases hvalue
    have hnumber : found.asDouble? ≠ none := number_of_same_double h
    cases found with
    | int32 | int64 => exact absurd trivial hparted
    | double y => rw [not_not.mp hparted]
    | _ => exact absurd rfl hnumber
  · obtain ⟨n, hn, -⟩ := asInt?_of_number hother hvalue
    have hfound : ¬ found.IsDouble := by
      intro hdouble
      cases found <;> try cases hdouble
      cases value <;> first | exact hparted trivial | cases hn
    rw [← OrderedKey.encode_of_asInt? hn, OrderedKey.encode_of_asInt? (asInt?_of_same hn hfound h)]

end Value

-- ---------------------------------------------------------------------------
-- Keys in unique indexes
-- ---------------------------------------------------------------------------

variable {scene : Scene} {schema : Schema} {spec : IndexSpec} {kept : IndexSpec → Prop}

section Unique

variable (h : scene.view.Consistent scene.codec schema kept) (hspec : spec ∈ schema.indexes)
  (hkept : kept spec)
include h hspec hkept

theorem Data.Consistent.listed {row : Row} (hrow : row.Stored scene schema) :
    ∃ value, scene.codec.encodeKey (row.doc.lookupOrNull spec.field) = .ok value ∧
      row.key ∈ scene.view.keysAt (Index.entryAt schema spec value) := by
  obtain ⟨bytes, hget, hdecode⟩ := hrow
  obtain ⟨stored, hstored, halike⟩ := h.readAs hget hdecode
  obtain ⟨value, hvalue⟩ := h.keyed hstored spec hspec
  exact ⟨value, (halike spec hspec).trans hvalue,
    h.complete spec hspec hkept row.key value ⟨stored, hstored, hvalue⟩⟩

theorem Data.Consistent.eq_of_key (hunique : spec.unique = true) {row row' : Row}
    (hrow : row.Stored scene schema) (hrow' : row'.Stored scene schema)
    (hkey : scene.codec.encodeKey (row.doc.lookupOrNull spec.field) =
      scene.codec.encodeKey (row'.doc.lookupOrNull spec.field)) : row = row' := by
  obtain ⟨value, hvalue, hlisted⟩ := h.listed hspec hkept hrow
  obtain ⟨value', hvalue', hlisted'⟩ := h.listed hspec hkept hrow'
  cases (hvalue.symm.trans hkey).trans hvalue'
  have hone := h.tidy.length_le_one hspec hunique value
  obtain ⟨key, hkeys⟩ : ∃ key, scene.view.keysAt (Index.entryAt schema spec value) = [key] :=
    List.length_eq_one_iff.mp (Nat.le_antisymm hone (List.length_pos_of_mem hlisted))
  rw [hkeys, List.mem_singleton] at hlisted hlisted'
  exact hrow.unique hrow' (hlisted.trans hlisted'.symm)

end Unique

-- ---------------------------------------------------------------------------
-- Queries for one value
-- ---------------------------------------------------------------------------

def Query.equals (field : String) (value : Value) : Query Predicate :=
  Query.and .all field (.condition (.eq (.value value)))

theorem Query.clauses_of_equals {field : String} {value : Value} {b : Query Predicate}
    (hb : b ∈ (Query.equals field value).branches) :
    b.clauses = [⟨field, .condition (.eq (.value value))⟩] := by
  have hors : (Query.equals field value).ors = [] := by
    simp only [equals, and, fail]
    repeat' split
    all_goals rfl
  rw [branches_eq, hors] at hb
  cases List.mem_singleton.mp hb
  simp only [equals, and, fail]
  repeat' split
  all_goals rfl

/-- What passes a query for a value has a value in the field that is the same. -/
theorem Row.PassedBy.same {row : Row} {field : String} {value : Value} (hfield : field ≠ keyName)
    (h : row.PassedBy scene schema ((Query.equals field value).ready scene).branches) :
    (row.doc.lookupOrNull field).same value = true := by
  obtain ⟨_, hmapped, trail, hpassed⟩ := h
  rw [Query.ready_eq_map, Query.branches_map] at hmapped
  obtain ⟨b, hb, rfl⟩ := List.mem_map.mp hmapped
  rw [Query.clauses_map, Query.clauses_of_equals hb, List.map_singleton,
    Evaluation.clausesHold_cons_run] at hpassed
  cases hresolve : Evaluation.resolveField scene schema row field with
  | error e => simp only [Clause.map, hresolve, reduceCtorEq] at hpassed
  | ok found =>
    have hfound : row.doc.lookupOrNull field = found := by
      rw [Document.lookupOrNull, Evaluation.resolveField_eq hfield hresolve, Option.getD_some]
    simp only [Clause.map, Criterion.map, hresolve, Evaluation.criterionHolds, Condition.holds,
      Evaluation.resolve, Exec.ofExcept, bind, Except.bind, pure, Except.pure] at hpassed
    rw [hfound]
    cases hsame : found.same value with
    | true => rfl
    | false =>
      rw [hsame] at hpassed
      cases hpassed

-- ---------------------------------------------------------------------------
-- Unique indexes
-- ---------------------------------------------------------------------------

theorem Records.length_find_le_one {settings : Settings} {session : Session} {entity : Entity}
    {value : Value} {docs : List Document} (hfield : spec.field ≠ keyName) (hvalue : value.Formless)
    (hone : ∀ row row' : Row, row.Stored (Records.scene settings session) entity.schema →
      row'.Stored (Records.scene settings session) entity.schema →
        row.doc.lookupOrNull spec.field = row'.doc.lookupOrNull spec.field → row = row')
    (h : (find settings entity (Query.equals spec.field value) session).1 = .ok docs) :
    docs.length ≤ 1 := by
  obtain ⟨schema, rows, hschema, hrows, hdocs⟩ := find_eq_ok_iff.mp h
  obtain ⟨-, rfl⟩ := Entity.validSchema_ok hschema
  have hlength : docs.length = (rows.map Row.key).length := by
    simpa using (congrArg List.length hdocs).symm
  have hfound := Search.findRows_found (Query.ready_steady _ _) _ hrows
  have hsame : ∀ row ∈ rows, row.doc.lookupOrNull spec.field = value := fun row hrow =>
    hvalue.eq_of_same ((hfound.passed row hrow).same hfield)
  rw [hlength]
  cases rows with
  | nil => exact Nat.zero_le 1
  | cons first rest =>
    have hkeys : ∀ key ∈ (first :: rest).map Row.key, key = first.key := by
      intro key hkey
      obtain ⟨row, hrow, rfl⟩ := List.mem_map.mp hkey
      have heq : row = first := hone row first (hfound.found row hrow).stored
        (hfound.found first List.mem_cons_self).stored
        ((hsame row hrow).trans (hsame first List.mem_cons_self).symm)
      rw [heq]
    have hdistinct := hfound.distinct
    rw [List.eq_replicate_of_mem hkeys] at hdistinct
    exact List.nodup_replicate.mp hdistinct

theorem Store.view_start (s : Store) (readOnly : Bool) : (s.start readOnly).1.view = s.current.data := rfl

namespace Turn

open Interleaving

/-- In every version that is committed and in every open view, no two records have the same key in the
field of a unique index that was not dropped. Their values may be the same to a query only if they are
parted, and for a value without other forms a query finds at most one record. -/
theorem unique_reached {settings : Settings} {schemas : List Schema} (hdirectory : Directory schemas)
    {turns : List Turn} (hturns : ∀ id m, .change id m ∈ turns → m.Settled settings schemas) :
    ∀ schema ∈ schemas, ∀ spec ∈ schema.indexes, spec.unique = true → Spare turns schema spec → ∀ data,
      (data = (reached settings turns).store.current.data ∨
        ∃ id o, (reached settings turns).opened.get? id = some o ∧ data = o.txn.view) →
      ∀ session : Session, session.txn.view = data →
        let scene := Records.scene settings session
        let value (row : Row) := row.doc.lookupOrNull spec.field
        (∀ row row' : Row, row.Stored scene schema → row'.Stored scene schema →
          settings.codec.encodeKey (value row) = settings.codec.encodeKey (value row') → row = row') ∧
        (settings.codec = .bson → ∀ row row' : Row, row.Stored scene schema → row'.Stored scene schema →
          (value row).same (value row') = true → row = row' ∨ (value row').Parted (value row)) ∧
        ∀ wanted : Value, wanted.Formless → ∀ (entity : Entity) (docs : List Document),
          entity.schema = schema →
            (Records.find settings entity (Query.equals spec.field wanted) session).1 = .ok docs →
              docs.length ≤ 1 := by
  rintro schema hschema spec hspec hunique hspare data hdata session rfl scene value
  have hkept : Kept settings.codec schemas (Spare turns) (reached settings turns) :=
    kept_of_settled hdirectory hturns
  have hconsistent : scene.view.Consistent scene.codec schema (Spare turns schema) :=
    hkept.consistent hschema hdata
  have hone : ∀ row row' : Row, row.Stored scene schema → row'.Stored scene schema →
      settings.codec.encodeKey (value row) = settings.codec.encodeKey (value row') → row = row' :=
    fun row row' hrow hrow' hkey => hconsistent.eq_of_key hspec hspare hunique hrow hrow' hkey
  refine ⟨hone, fun hcodec row row' hrow hrow' hsame => ?_, fun wanted hwanted entity docs hentity h => ?_⟩
  · by_cases hparted : (value row').Parted (value row)
    · exact .inr hparted
    · refine .inl (hone row row' hrow hrow' ?_)
      rw [hcodec]
      exact (Value.encode_eq_of_same hsame hparted).symm
  · subst hentity
    have hfield : spec.field ≠ keyName := Schema.field_ne_of_check (hdirectory.valid _ hschema) hspec
    refine Records.length_find_le_one hfield hwanted (fun row row' hrow hrow' hvalue => ?_) h
    exact hone row row' hrow hrow' (congrArg settings.codec.encodeKey hvalue)

/-- A second book with the code of the first one is refused, and one book is found by it. -/
theorem unique_reached_books :
    let data := (reached bookSettings (bookTurns.take 11)).store.current.data
    let session : Session := ⟨((reached bookSettings (bookTurns.take 11)).store.start true).1, []⟩
    Directory [bookSchema] ∧
      (∀ id m, .change id m ∈ bookTurns.take 11 → m.Settled bookSettings [bookSchema]) ∧
      session.txn.view = data ∧ data.size = 6 ∧ (Value.string "b").Formless ∧
      ∃ docs, (Records.find bookSettings bookEntity (Query.equals "code" (.string "b")) session).1 =
        .ok docs ∧ docs.length ≤ 1 := by
  intro data session
  have hview : session.txn.view = data := Store.view_start _ true
  have hsettled : ∀ id m, .change id m ∈ bookTurns.take 11 → m.Settled bookSettings [bookSchema] :=
    fun id m hm => (admissible_bookTurns id m (List.mem_of_mem_take hm)).settled catalog_books
      fun doc _ => Codec.bson_keysStored.listable _ doc
  obtain ⟨-, -, hfind⟩ := unique_reached catalog_books.directory hsettled bookSchema
    (List.mem_singleton_self _) ⟨"code", "code", true⟩ (by decide) rfl (spare_books _ _) data (.inl rfl)
    session hview
  let q := Query.equals "code" (.string "b")
  have hfound : (Records.find bookSettings bookEntity q session).1.isOk := by decide +kernel
  cases hdocs : (Records.find bookSettings bookEntity q session).1 with
  | error e =>
    rw [hdocs] at hfound
    cases hfound
  | ok docs =>
    exact ⟨catalog_books.directory, hsettled, hview, by decide +kernel, trivial, docs, rfl,
      hfind (.string "b") trivial bookEntity docs rfl hdocs⟩

/-- An entity with a unique code, whatever the code is. -/
def codedEntity : Entity := ⟨⟨"Book", none, [⟨"code", "code", true⟩], []⟩, [], .ok⟩

def twinTurns : List Turn :=
  [.start 1 false, .change 1 (.insert codedEntity (.number 1) ⟨[("code", .int64 1)]⟩),
    .change 1 (.insert codedEntity (.number 2) ⟨[("code", .double (.ofInt 1))]⟩), .commit 1]

/-- The integer and the double have different keys, so both get in, and a query finds both. -/
theorem unique_admits_double :
    let session : Session := ⟨((reached bookSettings twinTurns).store.start true).1, []⟩
    let q := Query.equals "code" (.int64 1)
    (∀ spec ∈ codedEntity.schema.indexes, spec.unique = true) ∧
      (Value.double (.ofInt 1)).same (.int64 1) = true ∧
      (Records.find bookSettings codedEntity q session).1.toOption.map
        (List.map fun doc => (doc.lookup "code").map Value.kind) = some [some "int64", some "double"] := by
  refine ⟨by decide, by decide +kernel, by decide +kernel⟩

end Turn

end DocStore
