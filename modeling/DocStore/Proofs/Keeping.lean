import DocStore.Proofs.Consistency
import DocStore.Proofs.Found

/-!
# What a transaction keeps up

Work in an open transaction keeps up the indexes of all schemas, whether it succeeds or fails
(`Keeping`). Work that fails may have written before, but never stops between a record and its
entries. The rules that follow take the operations on records apart: a record is read, and then it is
replaced together with its entries or not at all.
-/

namespace DocStore

/-- The document comes back from its encoding. -/
def Codec.Restores (codec : Codec) (doc : Document) : Prop :=
  ∀ bytes, codec.encode doc.toValue = .ok bytes → codec.decode bytes = .ok doc.toValue

/-- Whatever can be stored can be looked up by any of its values. -/
def Codec.KeysStored (codec : Codec) : Prop :=
  ∀ (doc : Document) bytes, codec.encode doc.toValue = .ok bytes →
    ∀ path, ∃ key, codec.encodeKey (doc.lookupOrNull path) = .ok key

-- ---------------------------------------------------------------------------
-- What a transaction keeps
-- ---------------------------------------------------------------------------

variable {codec : Codec} {schema : Schema} {schemas : List Schema} {settings : Settings}
  {α : Type} {kept : Schema → IndexSpec → Prop} {base : Data} {t t' t'' : Transaction} {pk : Bytes}

/-- All that an open transaction on `base` keeps up with every operation. -/
structure Transaction.Keeps (t : Transaction) (codec : Codec) (schemas : List Schema)
    (kept : Schema → IndexSpec → Prop) (base : Data) : Prop where
  stands : t.StandsOn base
  covered : t.Covered
  upholds : ∀ schema ∈ schemas, t.Upholds codec schema (kept schema) base

structure Advanced (codec : Codec) (schemas : List Schema) (kept : Schema → IndexSpec → Prop)
    (base : Data) (t t' : Transaction) : Prop where
  changed : t.ChangedWithin (fun _ => True) t'
  keeps : t'.Keeps codec schemas kept base

theorem Advanced.trans (h : Advanced codec schemas kept base t t')
    (h' : Advanced codec schemas kept base t' t'') : Advanced codec schemas kept base t t'' :=
  ⟨h.changed.trans h'.changed, h'.keeps⟩

namespace Transaction.Keeps

variable (h : t.Keeps codec schemas kept base)
include h

theorem onlyRead (hread : t.OnlyRead t') : Advanced codec schemas kept base t t' := by
  obtain ⟨reads, rfl⟩ := hread
  exact ⟨.recordReads t reads, h.stands.recordReads reads, h.covered.recordReads reads,
    fun schema hschema => (h.upholds schema hschema).recordReads reads⟩

theorem changedWithin {keys : Bytes → Prop} (hchanged : t.ChangedWithin keys t')
    (hcovered : t'.Covered)
    (hrecord : ∀ schema pk, ¬ keys (Records.recordKey schema pk))
    (hentry : ∀ schema spec value, ¬ keys (Index.entryAt schema spec value)) :
    Advanced codec schemas kept base t t' :=
  ⟨hchanged.mono fun _ _ => trivial, hchanged.stands base h.stands, hcovered,
    fun schema hschema => (h.upholds schema hschema).changedWithin hchanged (hrecord schema)
      fun spec _ value => hentry schema spec value⟩

variable (hdirectory : Directory schemas) (hschema : schema ∈ schemas)
include hdirectory hschema

theorem replaced {old new : Option Document} {contents : Option Bytes}
    (hread : Records.recordKey schema pk ∈ t.reads) (hold : t.view.ReadAs codec schema pk old)
    (hreplaced : Replaced codec schema pk old new contents t t')
    (hnew : codec.Contains schema pk new contents) : Advanced codec schemas kept base t t' := by
  have hnamed := hdirectory.named hschema
  refine ⟨hreplaced.changed.mono fun _ _ => trivial, hreplaced.changed.stands base h.stands,
    hreplaced.covered h.covered hread, fun other hother => ?_⟩
  by_cases heq : other = schema
  · subst heq
    exact (h.upholds other hother).replaced hnamed h.stands hold hreplaced hnew
  · have hne : other.typeName ≠ schema.typeName := fun hname =>
      heq (hdirectory.typed other hother schema hschema hname)
    have hnamed' := hdirectory.named hother
    refine (h.upholds other hother).changedWithin hreplaced.changed (fun pk' => ?_)
      fun spec hspec value => ?_
    · rintro (hkey | ⟨spec', -, value, hkey⟩)
      · exact hne (Records.recordKey_inj hnamed' hnamed hkey).1
      · exact Records.recordKey_ne_entryAt pk' spec' value hkey
    · rintro (hkey | ⟨spec', hspec', value', hkey⟩)
      · exact Records.recordKey_ne_entryAt pk spec value hkey.symm
      · exact hne (Index.entryAt_inj hnamed' hnamed hspec hspec' hkey).1

theorem dropped {spec : IndexSpec} (hspec : spec ∈ schema.indexes) (hkept : ¬ kept schema spec)
    (hchanged : t.ChangedWithin (fun key => ∃ value, key = Index.entryAt schema spec value) t')
    (hcovered : t'.Covered)
    (hgone : ∀ value, t'.view.get? (Index.entryAt schema spec value) =
        t.view.get? (Index.entryAt schema spec value) ∨
      t'.view.get? (Index.entryAt schema spec value) = none) :
    Advanced codec schemas kept base t t' := by
  have hnamed := hdirectory.named hschema
  refine ⟨hchanged.mono fun _ _ => trivial, hchanged.stands base h.stands, hcovered,
    fun other hother => ?_⟩
  by_cases heq : other = schema
  · subst heq
    exact (h.upholds other hother).dropped hnamed hspec hkept hchanged hgone
  · have hne : other.typeName ≠ schema.typeName := fun hname =>
      heq (hdirectory.typed other hother schema hschema hname)
    refine (h.upholds other hother).changedWithin hchanged (fun pk' => ?_) fun spec' hspec' value => ?_
    · rintro ⟨value, hkey⟩
      exact Records.recordKey_ne_entryAt pk' spec value hkey
    · rintro ⟨value', hkey⟩
      exact hne (Index.entryAt_inj (hdirectory.named hother) hnamed hspec' hspec hkey).1

end Transaction.Keeps

-- ---------------------------------------------------------------------------
-- Reading records
-- ---------------------------------------------------------------------------

theorem Document.lookup_insert {doc : Document} {field path : String} {value : Value}
    (h : (Path.segments path).head? ≠ some field) :
    (doc.insert field value).lookup path = doc.lookup path := by
  unfold lookup
  cases hsegments : Path.segments path with
  | nil => simp [Path.follow]
  | cons name rest =>
    rw [hsegments, List.head?_cons, ne_eq, Option.some.injEq] at h
    have hget : (doc.insert field value).fields.get? name = doc.fields.get? name := by
      rw [insert, Fields.get?_insert, if_neg h]
    cases rest with
    | nil => simp only [Path.follow, hget]
    | cons next more => simp only [Path.follow, hget]

/-- The document under `pk` as it is read: its key field, if it has one, holds the primary key. -/
def Search.identified (codec : Codec) (schema : Schema) (pk : Bytes) (doc : Document) :
    Except Failure Document :=
  match schema.keyField with
  | none => .ok doc
  | some field => ((codec.decodeKey pk).mapError .codec).map (doc.insert field)

theorem Search.decodeRecord_eq {bytes : Bytes} {doc : Document}
    (h : codec.decode bytes = .ok doc.toValue) :
    decodeRecord codec schema pk bytes = identified codec schema pk doc := by
  simp only [decodeRecord, identified, h, Document.toValue, Except.mapError, bind, Except.bind]
  cases schema.keyField with
  | none => rfl
  | some field => cases codec.decodeKey pk <;> rfl

theorem Search.exists_of_decodeRecord {bytes : Bytes} {found : Document}
    (h : decodeRecord codec schema pk bytes = .ok found) :
    ∃ doc : Document, codec.decode bytes = .ok doc.toValue ∧
      identified codec schema pk doc = .ok found := by
  have hdecode : ∃ doc : Document, codec.decode bytes = .ok doc.toValue := by
    unfold decodeRecord at h
    cases hvalue : codec.decode bytes with
    | error e => simp [hvalue, Except.mapError, bind, Except.bind] at h
    | ok value =>
      simp only [hvalue, Except.mapError, bind, Except.bind] at h
      split at h
      · rename_i fields
        exact ⟨⟨fields⟩, rfl⟩
      · cases h
  obtain ⟨doc, hdoc⟩ := hdecode
  exact ⟨doc, hdoc, by rwa [decodeRecord_eq hdoc] at h⟩

/-- The key field is set outside the paths that a catalog's indexes are built on. -/
theorem Catalog.lookup_identified (hcatalog : Catalog schemas) (hschema : schema ∈ schemas)
    {doc found : Document} (h : Search.identified codec schema pk doc = .ok found) :
    ∀ spec ∈ schema.indexes, found.lookupOrNull spec.field = doc.lookupOrNull spec.field := by
  intro spec hspec
  unfold Search.identified at h
  split at h
  · cases h
    rfl
  · rename_i field hfield
    have hne := hcatalog.keyless schema hschema spec hspec field hfield
    cases hid : codec.decodeKey pk with
    | error e =>
      rw [hid] at h
      cases h
    | ok id =>
      rw [hid] at h
      cases h
      rw [Document.lookupOrNull, Document.lookup_insert hne, Document.lookupOrNull]

/-- The document that is read has the indexed values of the one that is stored. -/
theorem Search.decodeRecord_ok (hcatalog : Catalog schemas) (hschema : schema ∈ schemas)
    {bytes : Bytes} {found : Document} (h : decodeRecord codec schema pk bytes = .ok found) :
    ∃ doc : Document, codec.decode bytes = .ok doc.toValue ∧
      ∀ spec ∈ schema.indexes, found.lookupOrNull spec.field = doc.lookupOrNull spec.field := by
  obtain ⟨doc, hdecode, hfound⟩ := exists_of_decodeRecord h
  exact ⟨doc, hdecode, hcatalog.lookup_identified hschema hfound⟩

/-- Once stored under `pk`, the document has the same index values as before, and is read with
them. -/
def Codec.Settles (codec : Codec) (schema : Schema) (pk : Bytes) (doc : Document) : Prop :=
  ∀ bytes, codec.encode doc.toValue = .ok bytes → codec.Reflects schema pk bytes doc

/-- If the document can be stored, it can be listed under its values in all indexes. -/
def Codec.Listable (codec : Codec) (schema : Schema) (doc : Document) : Prop :=
  ∀ bytes, codec.encode doc.toValue = .ok bytes → codec.Keyed doc schema.indexes

theorem Codec.KeysStored.listable (h : codec.KeysStored) (schema : Schema) (doc : Document) :
    codec.Listable schema doc :=
  fun bytes hbytes spec _ => h doc bytes hbytes spec.field

/-- A document that the codec restores settles if its own key field names the primary key, as far as
the indexes can tell. -/
theorem Codec.Restores.settles {doc : Document} (h : codec.Restores doc)
    (hlistable : codec.Listable schema doc)
    (hown : ∀ found, Search.identified codec schema pk doc = .ok found →
      codec.Alike schema.indexes found doc) : codec.Settles schema pk doc := by
  intro bytes hbytes
  have hdecode := h bytes hbytes
  refine ⟨hlistable bytes hbytes, ⟨doc, hdecode, .refl doc⟩, fun found hfound => hown found ?_⟩
  rwa [Search.decodeRecord_eq hdecode] at hfound

theorem Catalog.settles (hcatalog : Catalog schemas) (hschema : schema ∈ schemas)
    {doc : Document} (hlistable : codec.Listable schema doc) (h : codec.Restores doc) :
    codec.Settles schema pk doc := by
  refine h.settles hlistable fun found hfound spec hspec => ?_
  rw [hcatalog.lookup_identified hschema hfound spec hspec]

theorem Records.load_absent (hget : t.view.get? (recordKey schema pk) = none)
    (events : List Event) :
    load settings schema pk ⟨t, events⟩ =
      (.ok none, ⟨t.recordReads [recordKey schema pk], events⟩) := by
  have hread : Work.ofReading (ε := Failure) (Reading.get (recordKey schema pk)) ⟨t, events⟩ =
      (.ok (t.view.get? (recordKey schema pk)), ⟨t.recordReads [recordKey schema pk], events⟩) := rfl
  rw [load, run_bind, hread, hget]
  rfl

theorem Records.load_present {bytes : Bytes}
    (hget : t.view.get? (recordKey schema pk) = some bytes) (events : List Event) :
    load settings schema pk ⟨t, events⟩ =
      ((Search.decodeRecord settings.codec schema pk bytes).map some,
        ⟨t.recordReads [recordKey schema pk], events⟩) := by
  have hread : Work.ofReading (ε := Failure) (Reading.get (recordKey schema pk)) ⟨t, events⟩ =
      (.ok (t.view.get? (recordKey schema pk)), ⟨t.recordReads [recordKey schema pk], events⟩) := rfl
  rw [load, run_bind, hread, hget]
  simp only [run_bind, Work.ofExcept]
  cases Search.decodeRecord settings.codec schema pk bytes <;> rfl

theorem Records.load_spec {kept : IndexSpec → Prop}
    (hview : t.view.Consistent settings.codec schema kept) (events : List Event) :
    Triple (load settings schema pk) ⟨t, events⟩
      (fun found s => s.txn = t.recordReads [recordKey schema pk] ∧
        t.view.ReadAs settings.codec schema pk found)
      (fun s => t.OnlyRead s.txn) := by
  cases hget : t.view.get? (recordKey schema pk) with
  | none => exact Triple.of_run (load_absent hget events) ⟨rfl, hget⟩
  | some bytes =>
    have hrun : load settings schema pk ⟨t, events⟩ = _ := load_present hget events
    cases hdecode : Search.decodeRecord settings.codec schema pk bytes with
    | error e =>
      rw [hdecode] at hrun
      exact Triple.of_run_error hrun (.recordReads t _)
    | ok found =>
      rw [hdecode] at hrun
      exact Triple.of_run hrun ⟨rfl, hview.readAs hget hdecode⟩

theorem Records.schema_run {entity : Entity} (h : entity.schema.check = .ok ()) (session : Session) :
    Records.schema entity session = (.ok entity.schema, session) := by
  simp only [Records.schema, Entity.validSchema, Schema.validate, h]
  rfl

theorem Entity.validSchema_ok {entity : Entity} {schema : Schema}
    (h : entity.validSchema = .ok schema) : entity.schema.check = .ok () ∧ schema = entity.schema := by
  unfold validSchema Schema.validate at h
  cases hcheck : entity.schema.check with
  | error fault =>
    rw [hcheck] at h
    cases h
  | ok _ =>
    rw [hcheck] at h
    exact ⟨rfl, (Except.ok.inj h).symm⟩

theorem Records.schema_ok {entity : Entity} {schema : Schema} {s s' : Session}
    (h : Records.schema entity s = (.ok schema, s')) :
    entity.schema.check = .ok () ∧ schema = entity.schema ∧ s' = s := by
  obtain ⟨hcheck, hschema⟩ := Entity.validSchema_ok (Prod.mk.inj h).1
  exact ⟨hcheck, hschema, (Prod.mk.inj h).2.symm⟩

theorem Records.schema_spec {entity : Entity} {s : Session} {post : α → Session → Prop}
    {fail : Session → Prop} {f : Schema → Work Failure α}
    (h : entity.schema.check = .ok () → Triple (f entity.schema) s post fail) (hfail : fail s) :
    Triple (Records.schema entity >>= f) s post fail := by
  refine Work.triple_ofExcept (fun schema hschema => ?_) hfail
  obtain ⟨hcheck, rfl⟩ := Entity.validSchema_ok hschema
  exact h hcheck

theorem Records.encodeRecord_eq_ok_iff {entity : Entity} {value doc : Document} {bytes : Bytes} :
    encodeRecord settings entity value = .ok (doc, bytes) ↔
      entity.serialize value = .ok doc ∧ settings.codec.encode doc.toValue = .ok bytes := by
  constructor
  · intro h
    obtain ⟨written, hwritten, h⟩ := Except.bind_eq_ok h
    cases hencode : settings.codec.encode written.toValue with
    | error e =>
      rw [hencode] at h
      cases h
    | ok bytes' =>
      rw [hencode] at h
      cases h
      exact ⟨hwritten, hencode⟩
  · rintro ⟨hwritten, hencode⟩
    simp only [encodeRecord, hwritten, hencode, Except.mapError, bind, Except.bind, pure, Except.pure]

-- ---------------------------------------------------------------------------
-- One record
-- ---------------------------------------------------------------------------

namespace Transaction.Keeps

variable (h : t.Keeps settings.codec schemas kept base) (hdirectory : Directory schemas)
  (hschema : schema ∈ schemas)
include h hdirectory hschema

theorem writeRecord {old : Option Document} {doc : Document} {bytes : Bytes}
    (hread : Records.recordKey schema pk ∈ t.reads)
    (hold : t.view.ReadAs settings.codec schema pk old) (hfits : KeyList.Fits pk)
    (hbytes : settings.codec.Reflects schema pk bytes doc) (events : List Event) :
    Triple (Records.writeRecord settings schema pk old doc bytes) ⟨t, events⟩
      (fun _ s => Advanced settings.codec schemas kept base t s.txn ∧
        ∀ other, other ≠ pk → s.txn.view.get? (Records.recordKey schema other) =
          t.view.get? (Records.recordKey schema other))
      (fun s => Advanced settings.codec schemas kept base t s.txn) := by
  have hnamed := hdirectory.named hschema
  have hview := (h.upholds schema hschema).view
  refine (writeRecord_spec (hview.replaceable hnamed hold rfl) hfits hbytes.keyed events).mono ?_ ?_
  · rintro _ s ⟨-, hreplaced⟩
    refine ⟨h.replaced hdirectory hschema hread hold hreplaced
      ⟨hbytes, hfits⟩, fun other hother => ?_⟩
    exact (hreplaced.get?_record hnamed hother).1
  · exact fun s hread => h.onlyRead hread

theorem removeRecord {doc : Document} (hread : Records.recordKey schema pk ∈ t.reads)
    (hold : t.view.ReadAs settings.codec schema pk (some doc)) (events : List Event) :
    Triple (Records.removeRecord settings schema pk doc) ⟨t, events⟩
      (fun _ s => Advanced settings.codec schemas kept base t s.txn ∧
        ∀ other, other ≠ pk → s.txn.view.get? (Records.recordKey schema other) =
          t.view.get? (Records.recordKey schema other))
      (fun s => Advanced settings.codec schemas kept base t s.txn) := by
  have hnamed := hdirectory.named hschema
  have hview := (h.upholds schema hschema).view
  refine (removeRecord_spec (hview.replaceable hnamed hold rfl) events).mono ?_ ?_
  · rintro _ s ⟨-, hreplaced⟩
    refine ⟨h.replaced hdirectory hschema hread hold hreplaced trivial, fun other hother => ?_⟩
    exact (hreplaced.get?_record hnamed hother).1
  · exact fun s hread => h.onlyRead hread

end Transaction.Keeps

/-- However the work ends, the transaction has kept what it has to. -/
def Keeping (codec : Codec) (schemas : List Schema) (kept : Schema → IndexSpec → Prop)
    (base : Data) (t : Transaction) (w : Work Failure α) : Prop :=
  ∀ events, Triple w ⟨t, events⟩ (fun _ s => Advanced codec schemas kept base t s.txn)
    (fun s => Advanced codec schemas kept base t s.txn)

theorem Keeping.after {w : Work Failure α} (h : Keeping codec schemas kept base t' w)
    (hadvanced : Advanced codec schemas kept base t t') (events : List Event) :
    Triple w ⟨t', events⟩ (fun _ s => Advanced codec schemas kept base t s.txn)
      (fun s => Advanced codec schemas kept base t s.txn) :=
  (h events).mono (fun _ _ => hadvanced.trans) fun _ => hadvanced.trans

theorem Keeping.discard {w : Work Failure α} (h : Keeping codec schemas kept base t w) :
    Keeping codec schemas kept base t (Functor.discard w) := fun events =>
  (h events).discard fun _ _ hkept => hkept

namespace Transaction.Keeps

section

variable (h : t.Keeps codec schemas kept base)
include h

theorem pure (a : α) : Keeping codec schemas kept base t (Pure.pure a : Work Failure α) :=
  fun _ => Triple.pure (h.onlyRead (.refl t))

theorem throw (e : Failure) :
    Keeping codec schemas kept base t (MonadExcept.throw e : Work Failure α) :=
  fun _ => Triple.throw (h.onlyRead (.refl t))

theorem ofExcept {β : Type} {result : Except Failure β} {f : β → Work Failure α}
    (hf : ∀ b, result = .ok b → Keeping codec schemas kept base t (f b)) :
    Keeping codec schemas kept base t (Work.ofExcept result >>= f) := fun events =>
  Work.triple_ofExcept (fun b hb => hf b hb events) (h.onlyRead (.refl t))

theorem checked {entity : Entity} {f : Schema → Work Failure α}
    (hf : Keeping codec schemas kept base t (f entity.schema)) :
    Keeping codec schemas kept base t (Records.schema entity >>= f) := fun events =>
  Records.schema_spec (fun _ => hf events) (h.onlyRead (.refl t))

end

variable (h : t.Keeps settings.codec schemas kept base) (hschema : schema ∈ schemas)
include h hschema

theorem load {f : Option Document → Work Failure α}
    (hf : ∀ found t', t'.Keeps settings.codec schemas kept base →
      Records.recordKey schema pk ∈ t'.reads → t'.view.ReadAs settings.codec schema pk found →
        Keeping settings.codec schemas kept base t' (f found)) :
    Keeping settings.codec schemas kept base t (Records.load settings schema pk >>= f) := by
  intro events
  refine ((Records.load_spec (h.upholds schema hschema).view events).mono (fun _ _ hpost => hpost)
    fun s hread => h.onlyRead hread).bind ?_
  rintro found ⟨t', events'⟩ ⟨rfl, hfound⟩
  have hadvanced := h.onlyRead (.recordReads t [Records.recordKey schema pk])
  have hread : Records.recordKey schema pk ∈ (t.recordReads [Records.recordKey schema pk]).reads := by
    simp [mem_reads_recordReads]
  exact (hf found _ hadvanced.keeps hread hfound).after hadvanced events'

theorem storeRecord (hdirectory : Directory schemas) {entity : Entity} {old : Option Document}
    {value : Document} (hread : Records.recordKey schema pk ∈ t.reads)
    (hold : t.view.ReadAs settings.codec schema pk old) (hfits : KeyList.Fits pk)
    (hdoc : ∀ doc, entity.serialize value = .ok doc → settings.codec.Settles schema pk doc) :
    Keeping settings.codec schemas kept base t
      (Work.ofExcept (Records.encodeRecord settings entity value) >>= fun record =>
        Records.writeRecord settings schema pk old record.1 record.2) := by
  refine h.ofExcept fun record hrecord events => ?_
  obtain ⟨hdoc', hbytes⟩ := Records.encodeRecord_eq_ok_iff.mp hrecord
  exact (h.writeRecord hdirectory hschema hread hold hfits (hdoc _ hdoc' _ hbytes) events).mono
    (fun _ _ hpost => hpost.1) fun _ hfail => hfail

end Transaction.Keeps

end DocStore
