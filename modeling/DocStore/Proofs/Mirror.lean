import Mathlib.Data.List.Nodup
import DocStore.Records
import DocStore.Proofs.Entries

/-!
# Indexes as mirrors

An index mirrors the records of its type if it has an entry for exactly the values that occur, and
each entry lists exactly the records with its value. `Mirrors` says so of one index in some data.
`Consistent` says it of all indexes of a catalog, along with what the work on records relies on:
every record can be read and indexed, and every entry is a list without repetitions. Indexes that
have been removed may lack entries, but list nothing wrong.
-/

namespace DocStore

-- ---------------------------------------------------------------------------
-- Schemas
-- ---------------------------------------------------------------------------

namespace Schema

/-- What a schema that passes its check promises about its names. -/
structure Named (s : Schema) : Prop where
  typeName : hasChar s.typeName '\x00' = false
  indexes : ∀ spec ∈ s.indexes, hasChar spec.name '\x00' = false
  distinct : (s.indexes.map IndexSpec.name).Nodup
  keyField : ∀ field, s.keyField = some field → hasChar field '.' = false

theorem checkIndexes_ok {seen : List String} {specs : List IndexSpec}
    (h : checkIndexes seen specs = .ok ()) :
    (∀ spec ∈ specs, hasChar spec.name '\x00' = false ∧ spec.name ∉ seen) ∧
      (specs.map IndexSpec.name).Nodup := by
  induction specs generalizing seen with
  | nil => simp
  | cons spec rest ih =>
    unfold checkIndexes at h
    split at h
    · cases h
    · split at h
      · cases h
      · split at h
        · cases h
        · rename_i hname _ hseen
          obtain ⟨hrest, hnodup⟩ := ih h
          simp only [Bool.or_eq_true, not_or, Bool.not_eq_true] at hname
          simp only [List.contains_iff_mem] at hseen
          refine ⟨fun other hother => ?_, ?_⟩
          · rcases List.mem_cons.mp hother with rfl | hother
            · exact ⟨hname.2, hseen⟩
            · have := hrest other hother
              simp only [List.mem_cons, not_or] at this
              exact ⟨this.1, this.2.2⟩
          · rw [List.map_cons, List.nodup_cons]
            refine ⟨fun hmem => ?_, hnodup⟩
            obtain ⟨other, hother, heq⟩ := List.mem_map.mp hmem
            exact (hrest other hother).2 (heq ▸ List.mem_cons_self)

theorem named_of_check {s : Schema} (h : s.check = .ok ()) : s.Named := by
  unfold check at h
  split at h
  · cases h
  · rename_i htype
    simp only [Bool.or_eq_true, not_or, Bool.not_eq_true] at htype
    split at h
    · split at h
      · cases h
      · rename_i field hfield hdot
        simp only [Bool.or_eq_true, not_or, Bool.not_eq_true] at hdot
        obtain ⟨hnames, hnodup⟩ := checkIndexes_ok h
        refine ⟨htype.2, fun spec hspec => (hnames spec hspec).1, hnodup, fun other hother => ?_⟩
        rw [hfield] at hother
        cases hother
        exact hdot.2
    · rename_i hnone
      obtain ⟨hnames, hnodup⟩ := checkIndexes_ok h
      refine ⟨htype.2, fun spec hspec => (hnames spec hspec).1, hnodup, fun other hother => ?_⟩
      rw [hnone] at hother
      cases hother

theorem field_ne_of_checkIndexes {seen : List String} {specs : List IndexSpec}
    (h : checkIndexes seen specs = .ok ()) : ∀ spec ∈ specs, spec.field ≠ "" := by
  induction specs generalizing seen with
  | nil => simp
  | cons spec rest ih =>
    unfold checkIndexes at h
    split at h
    · cases h
    · split at h
      · cases h
      · split at h
        · cases h
        · rename_i hfield _
          intro other hother
          rcases List.mem_cons.mp hother with rfl | hother
          · rintro heq
            simp [heq] at hfield
          · exact ih h other hother

theorem field_ne_of_check {s : Schema} (h : s.check = .ok ()) {spec : IndexSpec}
    (hspec : spec ∈ s.indexes) : spec.field ≠ "" := by
  unfold check at h
  split at h
  · cases h
  · split at h
    · split at h
      · cases h
      · exact field_ne_of_checkIndexes h spec hspec
    · exact field_ne_of_checkIndexes h spec hspec

theorem Named.eq_of_name {s : Schema} (h : s.Named) {spec spec' : IndexSpec} (hspec : spec ∈ s.indexes)
    (hspec' : spec' ∈ s.indexes) (hname : spec.name = spec'.name) : spec = spec' :=
  List.inj_on_of_nodup_map h.distinct hspec hspec' hname

end Schema

structure Directory (schemas : List Schema) : Prop where
  valid : ∀ schema ∈ schemas, schema.check = .ok ()
  typed : ∀ schema ∈ schemas, ∀ other ∈ schemas, schema.typeName = other.typeName → schema = other

theorem Directory.named {schemas : List Schema} (h : Directory schemas) {schema : Schema}
    (hschema : schema ∈ schemas) : schema.Named :=
  Schema.named_of_check (h.valid schema hschema)

/-- Schemas that may be used together: each valid, one for each type name, and no index on the key
field or on a path under it. -/
structure Catalog (schemas : List Schema) : Prop where
  valid : ∀ schema ∈ schemas, schema.check = .ok ()
  typed : ∀ schema ∈ schemas, ∀ other ∈ schemas, schema.typeName = other.typeName → schema = other
  keyless : ∀ schema ∈ schemas, ∀ spec ∈ schema.indexes, ∀ field, schema.keyField = some field →
    (Path.segments spec.field).head? ≠ some field

theorem Catalog.directory {schemas : List Schema} (h : Catalog schemas) : Directory schemas :=
  ⟨h.valid, h.typed⟩

-- ---------------------------------------------------------------------------
-- Records and entries
-- ---------------------------------------------------------------------------

namespace Data

variable (data : Data) (codec : Codec) (schema : Schema) (spec : IndexSpec)

def Holds (pk : Bytes) (doc : Document) : Prop :=
  ∃ bytes, data.get? (Records.recordKey schema pk) = some bytes ∧
    codec.decode bytes = .ok doc.toValue

/-- The record under `pk` has a value in the indexed field, or null without one, that encodes to
`value`. -/
def HasValue (pk value : Bytes) : Prop :=
  ∃ doc, data.Holds codec schema pk doc ∧
    codec.encodeKey (doc.lookupOrNull spec.field) = .ok value

/-- The index has an entry for exactly the values that some record has, and each entry lists exactly
the records with its value. Which record has which value is up to `has`. -/
structure Lists (has : Bytes → Bytes → Prop) : Prop where
  present : ∀ value, (data.get? (Index.entryAt schema spec value)).isSome ↔ ∃ pk, has pk value
  listed : ∀ value entry, data.get? (Index.entryAt schema spec value) = some entry →
    ∃ keys, KeyList.decode? entry = some keys ∧ keys.Nodup ∧ (∀ pk, pk ∈ keys ↔ has pk value) ∧
      (spec.unique = true → ∃ pk, keys = [pk])

/-- The index has exactly the entries that the records call for, and every record has a place. -/
structure Mirrors : Prop where
  valued : ∀ pk bytes, data.get? (Records.recordKey schema pk) = some bytes →
    ∃ value, data.HasValue codec schema spec pk value
  lists : data.Lists schema spec (data.HasValue codec schema spec)

/-- The entries that the index has are right, but some may be missing. -/
def Vouches : Prop :=
  ∀ value entry, data.get? (Index.entryAt schema spec value) = some entry →
    ∃ keys, KeyList.decode? entry = some keys ∧ keys.Nodup ∧ keys ≠ [] ∧
      (∀ pk ∈ keys, data.HasValue codec schema spec pk value) ∧
      (spec.unique = true → ∃ pk, keys = [pk])

/-- Every entry of the schema is a list of different keys, and of one key in a unique index. -/
def Tidy : Prop :=
  ∀ spec ∈ schema.indexes, ∀ value entry, data.get? (Index.entryAt schema spec value) = some entry →
    ∃ keys, KeyList.decode? entry = some keys ∧ keys.Nodup ∧ keys ≠ [] ∧
      (spec.unique = true → ∃ pk, keys = [pk])

variable {data schema}

theorem Tidy.readable (h : data.Tidy schema) {spec : IndexSpec} (hspec : spec ∈ schema.indexes)
    (value : Bytes) : data.Readable (Index.entryAt schema spec value) := by
  intro entry hentry
  obtain ⟨keys, hkeys, -⟩ := h spec hspec value entry hentry
  exact ⟨keys, hkeys⟩

theorem keysAt_of_decode {entry bytes : Bytes} {keys : List Bytes}
    (hget : data.get? entry = some bytes) (hkeys : KeyList.decode? bytes = some keys) :
    data.keysAt entry = keys := by
  simp [keysAt, hget, hkeys]

theorem keysAt_of_none {entry : Bytes} (hget : data.get? entry = none) :
    data.keysAt entry = [] := by
  simp [keysAt, hget]

theorem fits_of_mem_keysAt {entry key : Bytes} (h : key ∈ data.keysAt entry) :
    KeyList.Fits key := by
  unfold keysAt at h
  cases hkeys : (data.get? entry).bind KeyList.decode? with
  | none => simp [hkeys] at h
  | some keys =>
    rw [hkeys] at h
    obtain ⟨bytes, -, hdecode⟩ := Option.bind_eq_some_iff.mp hkeys
    exact (KeyList.encode_of_decode? hdecode).2 key h

theorem Tidy.nodup (h : data.Tidy schema) {spec : IndexSpec} (hspec : spec ∈ schema.indexes)
    (value : Bytes) : (data.keysAt (Index.entryAt schema spec value)).Nodup := by
  cases hget : data.get? (Index.entryAt schema spec value) with
  | none => simp [keysAt_of_none hget]
  | some entry =>
    obtain ⟨keys, hkeys, hnodup, -⟩ := h spec hspec value entry hget
    rwa [keysAt_of_decode hget hkeys]

theorem Tidy.length_le_one (h : data.Tidy schema) {spec : IndexSpec} (hspec : spec ∈ schema.indexes)
    (hunique : spec.unique = true) (value : Bytes) :
    (data.keysAt (Index.entryAt schema spec value)).length ≤ 1 := by
  cases hget : data.get? (Index.entryAt schema spec value) with
  | none => simp [keysAt_of_none hget]
  | some entry =>
    obtain ⟨keys, hkeys, -, -, hone⟩ := h spec hspec value entry hget
    obtain ⟨pk, rfl⟩ := hone hunique
    simp [keysAt_of_decode hget hkeys]

variable {spec}

theorem Lists.readable {has : Bytes → Bytes → Prop} (h : data.Lists schema spec has) (value : Bytes) :
    data.Readable (Index.entryAt schema spec value) := by
  intro entry hentry
  obtain ⟨keys, hkeys, -⟩ := h.listed value entry hentry
  exact ⟨keys, hkeys⟩

theorem Lists.mem_keysAt {has : Bytes → Bytes → Prop} (h : data.Lists schema spec has)
    (value pk : Bytes) : pk ∈ data.keysAt (Index.entryAt schema spec value) ↔ has pk value := by
  cases hget : data.get? (Index.entryAt schema spec value) with
  | none =>
    rw [keysAt_of_none hget]
    refine ⟨nofun, fun hhas => ?_⟩
    have hsome := (h.present value).mpr ⟨pk, hhas⟩
    rw [hget] at hsome
    cases hsome
  | some entry =>
    obtain ⟨keys, hkeys, -, hiff, -⟩ := h.listed value entry hget
    rw [keysAt_of_decode hget hkeys]
    exact hiff pk

theorem formed_of_stored {entry bytes : Bytes} {keys : List Bytes} {unique : Bool}
    (hget : data.get? entry = KeyList.stored keys) (hbytes : data.get? entry = some bytes)
    (hfits : ∀ key ∈ keys, KeyList.Fits key) (hnodup : keys.Nodup)
    (hunique : unique = true → keys.length ≤ 1) :
    ∃ keys, KeyList.decode? bytes = some keys ∧ keys.Nodup ∧ keys ≠ [] ∧
      (unique = true → ∃ pk, keys = [pk]) := by
  rw [hbytes] at hget
  unfold KeyList.stored at hget
  split at hget
  · cases hget
  · rename_i hne
    rw [List.isEmpty_iff] at hne
    cases hget
    refine ⟨keys, KeyList.decode?_encode hfits, hnodup, hne, fun h => ?_⟩
    have hpos := List.length_pos_of_ne_nil hne
    exact List.length_eq_one_iff.mp (by have := hunique h; omega)

end Data

theorem Index.entryAt_inj {schema schema' : Schema} (h : schema.Named) (h' : schema'.Named)
    {spec spec' : IndexSpec} (hspec : spec ∈ schema.indexes) (hspec' : spec' ∈ schema'.indexes)
    {value value' : Bytes} (heq : entryAt schema spec value = entryAt schema' spec' value') :
    schema.typeName = schema'.typeName ∧ spec.name = spec'.name ∧ value = value' := by
  have hnamed : Key.Named (.index schema.typeName spec.name value) :=
    ⟨h.typeName, h.indexes spec hspec⟩
  have hnamed' : Key.Named (.index schema'.typeName spec'.name value') :=
    ⟨h'.typeName, h'.indexes spec' hspec'⟩
  have hkeys := (Key.encode_inj hnamed hnamed').mp heq
  simpa using hkeys

theorem Records.recordKey_inj {schema schema' : Schema} (h : schema.Named) (h' : schema'.Named)
    {pk pk' : Bytes} (heq : recordKey schema pk = recordKey schema' pk') :
    schema.typeName = schema'.typeName ∧ pk = pk' := by
  have hnamed : Key.Named (.record schema.typeName pk) := h.typeName
  have hnamed' : Key.Named (.record schema'.typeName pk') := h'.typeName
  have hkeys := (Key.encode_inj hnamed hnamed').mp heq
  simpa using hkeys

/-- A record is never an entry of an index. -/
theorem Records.recordKey_ne_entryAt {schema schema' : Schema} (pk : Bytes) (spec : IndexSpec)
    (value : Bytes) : recordKey schema pk ≠ Index.entryAt schema' spec value := by
  intro heq
  have hhead := congrArg List.head? heq
  simp [recordKey, Index.entryAt, Key.encode, Key.recordPrefix, Key.indexPrefix, Key.recordTag,
    Key.indexTag] at hhead

end DocStore
