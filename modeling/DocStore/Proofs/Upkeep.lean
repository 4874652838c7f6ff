import DocStore.Proofs.Mirror

/-!
# Upkeep of the indexes

What writing or removing one record does to the entries of its type. `Replaced` says it of the whole
operation: the primary key is listed under the values of the new document and nowhere else, and
every other key is listed as before. `writeRecord_spec` and `removeRecord_spec` show that nothing
can go wrong between the first write and the last: such work fails before it has written anything.
-/

namespace DocStore

variable {codec : Codec} {schema : Schema} {doc : Document} {pk : Bytes} {t : Transaction}
  {change : IndexSpec → List Bytes → List Bytes}

-- ---------------------------------------------------------------------------
-- One change in every index
-- ---------------------------------------------------------------------------

namespace Index

theorem nodup_entryIn (h : schema.Named) (codec : Codec) (doc : Document) :
    (schema.indexes.map (entryIn codec schema doc)).Nodup := by
  refine List.Nodup.map_on (fun spec hspec other hother heq => ?_) h.distinct.of_map
  exact h.eq_of_name hspec hother (entryAt_inj h h hspec hother heq).2.1

theorem get?_relistAll_of_ne (hw : t.readOnly = false) (h : schema.Named) {spec : IndexSpec}
    (hspec : spec ∈ schema.indexes) {value : Bytes} (hvalue : value ≠ codec.valueKey doc spec) :
    (t.relistAll (entryIn codec schema doc) change schema.indexes).view.get?
      (entryAt schema spec value) = t.view.get? (entryAt schema spec value) := by
  refine (Transaction.changedWithin_relistAll hw).view _ ?_
  rintro ⟨other, hother, heq⟩
  obtain ⟨-, hname, hvalue'⟩ := entryAt_inj h h hspec hother heq
  cases h.eq_of_name hspec hother hname
  exact hvalue hvalue'

theorem get?_relistAll_self (hw : t.readOnly = false) (h : schema.Named) {spec : IndexSpec}
    (hspec : spec ∈ schema.indexes) :
    (t.relistAll (entryIn codec schema doc) change schema.indexes).view.get?
        (entryAt schema spec (codec.valueKey doc spec)) =
      KeyList.stored
        (change spec (t.view.keysAt (entryAt schema spec (codec.valueKey doc spec)))) :=
  (Transaction.relistAll_spec hw (nodup_entryIn h codec doc) hspec).1

theorem keysAt_relistAll (hw : t.readOnly = false) (h : schema.Named) {spec : IndexSpec}
    (hspec : spec ∈ schema.indexes)
    (hfits : ∀ value, ∀ key ∈ change spec (t.view.keysAt (entryAt schema spec value)),
      KeyList.Fits key) (value : Bytes) :
    (t.relistAll (entryIn codec schema doc) change schema.indexes).view.keysAt
        (entryAt schema spec value) =
      if value = codec.valueKey doc spec then
        change spec (t.view.keysAt (entryAt schema spec value))
      else t.view.keysAt (entryAt schema spec value) := by
  split
  · rename_i hvalue
    subst hvalue
    exact Data.keysAt_of_stored (get?_relistAll_self hw h hspec) (hfits _)
  · rename_i hvalue
    exact Data.keysAt_congr (get?_relistAll_of_ne hw h hspec hvalue)

theorem tidy_relistAll (hw : t.readOnly = false) (h : schema.Named) (htidy : t.view.Tidy schema)
    (hfits : ∀ spec ∈ schema.indexes, ∀ value,
      ∀ key ∈ change spec (t.view.keysAt (entryAt schema spec value)), KeyList.Fits key)
    (hchange : ∀ spec ∈ schema.indexes, ∀ value,
      (change spec (t.view.keysAt (entryAt schema spec value))).Nodup ∧
        (spec.unique = true →
          (change spec (t.view.keysAt (entryAt schema spec value))).length ≤ 1)) :
    (t.relistAll (entryIn codec schema doc) change schema.indexes).view.Tidy schema := by
  intro spec hspec value entry hentry
  by_cases hvalue : value = codec.valueKey doc spec
  · subst hvalue
    obtain ⟨hnodup, hunique⟩ := hchange spec hspec (codec.valueKey doc spec)
    exact Data.formed_of_stored (get?_relistAll_self hw h hspec) hentry (hfits spec hspec _)
      hnodup hunique
  · rw [get?_relistAll_of_ne hw h hspec hvalue] at hentry
    exact htidy spec hspec value entry hentry

def AllFit (schema : Schema) (data : Data) : Prop :=
  ∀ spec ∈ schema.indexes, ∀ value, ∀ key ∈ data.keysAt (entryAt schema spec value),
    KeyList.Fits key

/-- How `delistAll` and `enlistAll` leave the entries of a schema: tidy, and listing what they
listed before with `pk` where it `belongs` and nowhere else. -/
structure Relisted (schema : Schema) (pk : Bytes) (belongs : IndexSpec → Bytes → Prop)
    (data data' : Data) : Prop where
  tidy : data'.Tidy schema
  listed : ∀ spec ∈ schema.indexes, ∀ value other,
    other ∈ data'.keysAt (entryAt schema spec value) ↔
      (other = pk ∧ belongs spec value) ∨
        (other ≠ pk ∧ other ∈ data.keysAt (entryAt schema spec value))

theorem Relisted.fit {belongs : IndexSpec → Bytes → Prop} {data data' : Data}
    (h : Relisted schema pk belongs data data') (hfit : AllFit schema data)
    (hpk : KeyList.Fits pk) : AllFit schema data' := by
  intro spec hspec value key hkey
  rcases (h.listed spec hspec value key).mp hkey with ⟨rfl, -⟩ | ⟨-, hold⟩
  · exact hpk
  · exact hfit spec hspec value key hold

theorem Relisted.congr {belongs : IndexSpec → Bytes → Prop} {data data' data'' : Data}
    (h : Relisted schema pk belongs data data')
    (hsame : ∀ spec ∈ schema.indexes, ∀ value,
      data''.get? (entryAt schema spec value) = data'.get? (entryAt schema spec value)) :
    Relisted schema pk belongs data data'' := by
  constructor
  · intro spec hspec value entry hentry
    rw [hsame spec hspec value] at hentry
    exact h.tidy spec hspec value entry hentry
  · intro spec hspec value other
    rw [Data.keysAt_congr (hsame spec hspec value)]
    exact h.listed spec hspec value other

/-- Whatever stood in between, the last change decides where the key is listed. -/
theorem Relisted.trans {belongs belongs' : IndexSpec → Bytes → Prop} {data data' data'' : Data}
    (h : Relisted schema pk belongs data data') (h' : Relisted schema pk belongs' data' data'') :
    Relisted schema pk belongs' data data'' := by
  refine ⟨h'.tidy, fun spec hspec value other => ?_⟩
  rw [h'.listed spec hspec value other, h.listed spec hspec value other]
  tauto

theorem relisted_delist (hw : t.readOnly = false) (h : schema.Named) (htidy : t.view.Tidy schema)
    (hfit : AllFit schema t.view)
    (honly : ∀ spec ∈ schema.indexes, ∀ value, pk ∈ t.view.keysAt (entryAt schema spec value) →
      value = codec.valueKey doc spec) :
    Relisted schema pk (fun _ _ => False) t.view
      (t.relistAll (entryIn codec schema doc) (delist pk) schema.indexes).view := by
  have hfits : ∀ spec ∈ schema.indexes, ∀ value,
      ∀ key ∈ delist pk spec (t.view.keysAt (entryAt schema spec value)), KeyList.Fits key :=
    fun spec hspec value key hkey => hfit spec hspec value key (List.mem_of_mem_filter hkey)
  constructor
  · refine tidy_relistAll hw h htidy hfits fun spec hspec value => ⟨?_, fun hunique => ?_⟩
    · exact (htidy.nodup hspec value).filter _
    · exact Nat.le_trans (List.length_filter_le _ _) (htidy.length_le_one hspec hunique value)
  · intro spec hspec value other
    rw [keysAt_relistAll hw h hspec (hfits spec hspec)]
    split
    · simp [delist, and_comm]
    · rename_i hvalue
      simp only [and_false, false_or]
      refine ⟨fun hmem => ⟨?_, hmem⟩, fun hmem => hmem.2⟩
      rintro rfl
      exact hvalue (honly spec hspec value hmem)

/-- A key that is not listed yet is added, and unique values stay unique if they were free. -/
theorem relisted_enlist (hw : t.readOnly = false) (h : schema.Named) (htidy : t.view.Tidy schema)
    (hfit : AllFit schema t.view) (hpk : KeyList.Fits pk)
    (hnone : ∀ spec ∈ schema.indexes, ∀ value, pk ∉ t.view.keysAt (entryAt schema spec value))
    (hfree : ∀ spec ∈ schema.indexes, spec.unique = true →
      t.view.keysAt (entryIn codec schema doc spec) = []) :
    Relisted schema pk (fun spec value => value = codec.valueKey doc spec) t.view
      (t.relistAll (entryIn codec schema doc) (enlist pk) schema.indexes).view := by
  have hfits : ∀ spec ∈ schema.indexes, ∀ value,
      ∀ key ∈ enlist pk spec (t.view.keysAt (entryAt schema spec value)), KeyList.Fits key := by
    intro spec hspec value key hkey
    rcases of_mem_enlist hkey with rfl | hkey
    · exact hpk
    · exact hfit spec hspec value key hkey
  constructor
  · refine tidy_relistAll hw h htidy hfits fun spec hspec value => ⟨?_, fun hunique => ?_⟩
    · exact nodup_enlist (htidy.nodup hspec value)
    · exact length_enlist_le_one hunique _
  · intro spec hspec value other
    have hnew := hnone spec hspec value
    rw [keysAt_relistAll hw h hspec (hfits spec hspec)]
    split
    · rename_i hvalue
      subst hvalue
      have hmem : other ∈ enlist pk spec (t.view.keysAt (entryAt schema spec
          (codec.valueKey doc spec))) ↔ _ := mem_enlist (hfree spec hspec)
      rw [hmem]
      by_cases heq : other = pk <;> simp [heq]
    · rename_i hvalue
      simp only [hvalue, and_false, false_or]
      refine ⟨fun hother => ⟨?_, hother⟩, fun hother => hother.2⟩
      rintro rfl
      exact hnew hother

end Index

-- ---------------------------------------------------------------------------
-- One record
-- ---------------------------------------------------------------------------

/-- The keys of the store that have to do with one record. -/
def Schema.Touches (schema : Schema) (pk key : Bytes) : Prop :=
  key = Records.recordKey schema pk ∨
    ∃ spec ∈ schema.indexes, ∃ value, key = Index.entryAt schema spec value

/-- The transaction has gone from `t` to `t'` by giving the record under `pk` other contents. It
held `old`, and now holds `new`. -/
structure Replaced (codec : Codec) (schema : Schema) (pk : Bytes) (old new : Option Document)
    (contents : Option Bytes) (t t' : Transaction) : Prop where
  changed : t.ChangedWithin (schema.Touches pk) t'
  covered : t.Covered → Records.recordKey schema pk ∈ t.reads → t'.Covered
  record : t'.view.get? (Records.recordKey schema pk) = contents
  written : (t'.writes.get? (Records.recordKey schema pk)).isSome
  left : ∀ doc, old = some doc → ∀ spec ∈ schema.indexes,
    (t'.writes.get? (Index.entryIn codec schema doc spec)).isSome
  relisted : Index.Relisted schema pk
    (fun spec value => ∃ doc, new = some doc ∧ value = codec.valueKey doc spec) t.view t'.view

/-- What has to hold of a transaction in which a record is to be replaced: the entries of its type
can be read, and its key is listed under the values of the old document at most. -/
structure Replaceable (codec : Codec) (schema : Schema) (pk : Bytes) (old : Option Document)
    (t : Transaction) : Prop where
  named : schema.Named
  tidy : t.view.Tidy schema
  fit : Index.AllFit schema t.view
  keyed : ∀ doc, old = some doc → codec.Keyed doc schema.indexes
  only : ∀ spec ∈ schema.indexes, ∀ value, pk ∈ t.view.keysAt (Index.entryAt schema spec value) →
    ∃ doc, old = some doc ∧ value = codec.valueKey doc spec

variable {old : Option Document} {bytes : Bytes} {settings : Settings}

def Transaction.delisted (t : Transaction) (codec : Codec) (schema : Schema) (pk : Bytes) :
    Option Document → Transaction
  | none => t
  | some doc => t.relistAll (Index.entryIn codec schema doc) (Index.delist pk) schema.indexes

theorem Replaceable.relisted (h : Replaceable codec schema pk old t) (hw : t.readOnly = false) :
    Index.Relisted schema pk (fun _ _ => False) t.view (t.delisted codec schema pk old).view := by
  cases old with
  | none =>
    refine ⟨h.tidy, fun spec hspec value other => ?_⟩
    simp only [Transaction.delisted, and_false, false_or, iff_and_self]
    rintro hother rfl
    obtain ⟨doc, hdoc, -⟩ := h.only spec hspec value hother
    cases hdoc
  | some doc =>
    refine Index.relisted_delist hw h.named h.tidy h.fit fun spec hspec value hother => ?_
    obtain ⟨doc', hdoc, hvalue⟩ := h.only spec hspec value hother
    cases hdoc
    exact hvalue

theorem changedWithin_delisted (hw : t.readOnly = false) :
    t.ChangedWithin (schema.Touches pk) (t.delisted codec schema pk old) := by
  cases old with
  | none => exact .refl t
  | some doc =>
    refine (Transaction.changedWithin_relistAll hw).mono ?_
    rintro key ⟨spec, hspec, rfl⟩
    exact .inr ⟨spec, hspec, _, rfl⟩

theorem covered_delisted (h : t.Covered) : (t.delisted codec schema pk old).Covered := by
  cases old with
  | none => exact h
  | some doc => exact h.relistAll

theorem delisted_left (hw : t.readOnly = false) (hnamed : schema.Named) :
    ∀ doc, old = some doc → ∀ spec ∈ schema.indexes,
      ((t.delisted codec schema pk old).writes.get? (Index.entryIn codec schema doc spec)).isSome := by
  rintro doc rfl spec hspec
  exact (Transaction.relistAll_spec hw (Index.nodup_entryIn hnamed codec doc) hspec).2

theorem get?_assign_record (t : Transaction) (contents : Option Bytes) :
    ∀ spec ∈ schema.indexes, ∀ value,
      (t.assign (Records.recordKey schema pk) contents).view.get? (Index.entryAt schema spec value) =
        t.view.get? (Index.entryAt schema spec value) := by
  intro spec _ value
  rw [Transaction.view_assign, if_neg (Ne.symm (Records.recordKey_ne_entryAt pk spec value))]

theorem Replaceable.assign_record (h : Replaceable codec schema pk old t)
    (contents : Option Bytes) :
    Replaceable codec schema pk old (t.assign (Records.recordKey schema pk) contents) := by
  have hsame : ∀ spec ∈ schema.indexes, ∀ value,
      (t.assign (Records.recordKey schema pk) contents).view.get? (Index.entryAt schema spec value) =
        t.view.get? (Index.entryAt schema spec value) := get?_assign_record t contents
  refine ⟨h.named, fun spec hspec value entry hentry => ?_, fun spec hspec value key hkey => ?_,
    h.keyed, fun spec hspec value hmem => ?_⟩
  · rw [hsame spec hspec value] at hentry
    exact h.tidy spec hspec value entry hentry
  · rw [Data.keysAt_congr (hsame spec hspec value)] at hkey
    exact h.fit spec hspec value key hkey
  · rw [Data.keysAt_congr (hsame spec hspec value)] at hmem
    exact h.only spec hspec value hmem

theorem Replaceable.cleared (h : Replaceable codec schema pk old t) (hw : t.readOnly = false)
    (contents : Option Bytes) :
    Index.Relisted schema pk (fun _ _ => False) t.view
      ((t.delisted codec schema pk old).assign (Records.recordKey schema pk) contents).view :=
  (h.relisted hw).congr (get?_assign_record _ contents)

theorem Index.Relisted.free {data data' : Data}
    (h : Index.Relisted schema pk (fun _ _ => False) data data')
    (hfree : ∀ spec ∈ schema.indexes, spec.unique = true →
      ∀ key ∈ data.keysAt (Index.entryIn codec schema doc spec), key = pk) :
    ∀ spec ∈ schema.indexes, spec.unique = true →
      data'.keysAt (Index.entryIn codec schema doc spec) = [] := by
  intro spec hspec hunique
  rw [List.eq_nil_iff_forall_not_mem]
  intro key hkey
  obtain ⟨-, hfalse⟩ | ⟨hne, hold⟩ := (h.listed spec hspec _ key).mp hkey
  · exact hfalse
  · exact hne (hfree spec hspec hunique key hold)

theorem Replaceable.recordReads (h : Replaceable codec schema pk old t) (reads : List Bytes) :
    Replaceable codec schema pk old (t.recordReads reads) :=
  ⟨h.named, h.tidy, h.fit, h.keyed, h.only⟩

theorem Replaced.after_reads {new : Option Document} {contents : Option Bytes} {t' : Transaction}
    {reads : List Bytes} (h : Replaced codec schema pk old new contents (t.recordReads reads) t') :
    Replaced codec schema pk old new contents t t' where
  changed := (Transaction.ChangedWithin.recordReads t reads).trans h.changed
  covered hcovered hread :=
    h.covered (hcovered.recordReads reads) ((Transaction.mem_reads_recordReads _ _).mpr (.inr hread))
  record := h.record
  written := h.written
  left := h.left
  relisted := h.relisted

def Transaction.rewritten (t : Transaction) (codec : Codec) (schema : Schema) (pk : Bytes)
    (old : Option Document) (doc : Document) (bytes : Bytes) : Transaction :=
  ((t.delisted codec schema pk old).assign (Records.recordKey schema pk) (some bytes)).relistAll
    (Index.entryIn codec schema doc) (Index.enlist pk) schema.indexes

theorem replaced_rewritten (h : Replaceable codec schema pk old t) (hw : t.readOnly = false)
    (hpk : KeyList.Fits pk)
    (hfree : ∀ spec ∈ schema.indexes, spec.unique = true →
      ∀ key ∈ t.view.keysAt (Index.entryIn codec schema doc spec), key = pk) :
    Replaced codec schema pk old (some doc) (some bytes) t
      (t.rewritten codec schema pk old doc bytes) := by
  let delisted := t.delisted codec schema pk old
  let record := Records.recordKey schema pk
  let stored := delisted.assign record (some bytes)
  have hdelisted : t.ChangedWithin (schema.Touches pk) delisted := changedWithin_delisted hw
  have hw' : delisted.readOnly = false := hdelisted.readOnly.trans hw
  have hstored : delisted.ChangedWithin (schema.Touches pk) stored := .assign hw' (.inl rfl) _
  have hlast : stored.ChangedWithin
      (fun key => ∃ spec ∈ schema.indexes, key = Index.entryIn codec schema doc spec)
      (t.rewritten codec schema pk old doc bytes) := Transaction.changedWithin_relistAll hw'
  have hrecord : ¬ ∃ spec ∈ schema.indexes, record = Index.entryIn codec schema doc spec := by
    rintro ⟨spec, -, heq⟩
    exact Records.recordKey_ne_entryAt pk spec _ heq
  have hnone : Index.Relisted schema pk (fun _ _ => False) t.view stored.view :=
    h.cleared hw _
  have hnew : Index.Relisted schema pk (fun spec value => value = codec.valueKey doc spec)
      stored.view (t.rewritten codec schema pk old doc bytes).view := by
    refine Index.relisted_enlist hw' h.named hnone.tidy (hnone.fit h.fit hpk) hpk
      (fun spec hspec value hmem => ?_) (hnone.free hfree)
    simpa using (hnone.listed spec hspec value pk).mp hmem
  refine ⟨hdelisted.trans (hstored.trans (hlast.mono ?changed)), fun hcovered hread => ?covered,
    ?record, ?written, ?left, ?relisted⟩
  case changed =>
    rintro key ⟨spec, hspec, rfl⟩
    exact .inr ⟨spec, hspec, _, rfl⟩
  case covered => exact ((covered_delisted hcovered).assign (hdelisted.reads _ hread) _).relistAll
  case record => rw [hlast.view _ hrecord, Transaction.view_assign, if_pos rfl]
  case written =>
    refine hlast.written _ ?_
    rw [Transaction.writes_assign, if_pos rfl]
    rfl
  case left =>
    intro doc' hdoc spec hspec
    exact hlast.written _ (hstored.written _ (delisted_left hw h.named doc' hdoc spec hspec))
  case relisted =>
    have hall := hnone.trans hnew
    exact ⟨hall.tidy, fun spec hspec value other => by simpa using hall.listed spec hspec value other⟩

/-- Takes the key out of the entries of the old document, if there was one. -/
def Records.leave (codec : Codec) (schema : Schema) (pk : Bytes) :
    Option Document → Work EngineError Unit
  | none => pure ()
  | some doc => Index.delete codec schema pk doc

theorem Records.writeRecord_eq :
    writeRecord settings schema pk old doc bytes = Work.adapt .ofEngine (do
      Index.checkUnique settings.codec schema pk doc
      leave settings.codec schema pk old
      Work.put (recordKey schema pk) bytes
      Index.add settings.codec schema pk doc) := by
  cases old <;> rfl

theorem leave_run (h : Replaceable codec schema pk old t) (hw : t.readOnly = false)
    (events : List Event) :
    Records.leave codec schema pk old ⟨t, events⟩ =
      (.ok (), ⟨t.delisted codec schema pk old, events⟩) := by
  cases old with
  | none => rfl
  | some doc =>
    exact Index.deleteIn_run hw (h.keyed doc rfl) (Index.nodup_entryIn h.named codec doc)
      fun spec hspec => h.tidy.readable hspec _

theorem leave_readOnly (h : Replaceable codec schema pk old t) (hro : t.readOnly = true)
    (events : List Event) :
    Triple (Records.leave codec schema pk old) ⟨t, events⟩ (fun _ s => t.OnlyRead s.txn)
      (fun s => t.OnlyRead s.txn) := by
  cases old with
  | none => exact Triple.pure (.refl t)
  | some doc =>
    exact Index.deleteIn_readOnly hro (h.keyed doc rfl) (fun spec hspec => h.tidy.readable hspec _)
      events

theorem writeRecord_taken (h : Replaceable settings.codec schema pk old t)
    (hdoc : settings.codec.Keyed doc schema.indexes) {spec : IndexSpec}
    (htaken : schema.indexes.find? (Index.taken settings.codec schema t.view pk doc) = some spec)
    (bytes : Bytes) (events : List Event) :
    ∃ reads, Records.writeRecord settings schema pk old doc bytes ⟨t, events⟩ =
      (.error (.uniqueExists schema.typeName spec.name), ⟨t.recordReads reads, events⟩) := by
  obtain ⟨reads, hcheck⟩ := Index.checkUniqueIn_run pk hdoc
    (fun spec hspec => h.tidy.readable hspec _) events
  rw [htaken] at hcheck
  refine ⟨reads, ?_⟩
  rw [Records.writeRecord_eq]
  simp only [Work.adapt, Index.checkUnique, run_bind, hcheck]
  rfl

theorem writeRecord_run (h : Replaceable settings.codec schema pk old t) (hw : t.readOnly = false)
    (hdoc : settings.codec.Keyed doc schema.indexes)
    (hfree : schema.indexes.find? (Index.taken settings.codec schema t.view pk doc) = none)
    (bytes : Bytes) (events : List Event) :
    ∃ reads, Records.writeRecord settings schema pk old doc bytes ⟨t, events⟩ =
      (.ok (), ⟨(t.recordReads reads).rewritten settings.codec schema pk old doc bytes, events⟩) := by
  obtain ⟨reads, hcheck⟩ := Index.checkUniqueIn_run pk hdoc
    (fun spec hspec => h.tidy.readable hspec _) events
  rw [hfree] at hcheck
  have h' := h.recordReads reads
  let left := (t.recordReads reads).delisted settings.codec schema pk old
  let stored := left.assign (Records.recordKey schema pk) (some bytes)
  have hw' : left.readOnly = false :=
    (changedWithin_delisted (t := t.recordReads reads) hw).readOnly.trans hw
  have hnone : Index.Relisted schema pk (fun _ _ => False) t.view stored.view :=
    h'.cleared hw (some bytes)
  have hleave : Records.leave settings.codec schema pk old ⟨t.recordReads reads, events⟩ =
      (.ok (), ⟨left, events⟩) := leave_run h' hw events
  have hput : Work.put (Records.recordKey schema pk) bytes ⟨left, events⟩ =
      (.ok (), ⟨stored, events⟩) := Index.put_run hw' _ _ events
  have hadd : Index.addIn settings.codec schema pk doc schema.indexes ⟨stored, events⟩ = _ :=
    Index.addIn_run hw' hdoc (Index.nodup_entryIn h.named _ doc)
    (fun spec hspec => hnone.tidy.readable hspec _)
    fun spec hspec hunique key hkey => by
      rw [hnone.free (Index.eq_of_not_taken hfree) spec hspec hunique] at hkey
      cases hkey
  refine ⟨reads, ?_⟩
  rw [Records.writeRecord_eq]
  simp only [Work.adapt, Index.checkUnique, run_bind, hcheck, hleave, hput, Index.add, hadd]
  rfl

theorem writeRecord_free (h : Replaceable settings.codec schema pk old t) (hw : t.readOnly = false)
    (hpk : KeyList.Fits pk) (hdoc : settings.codec.Keyed doc schema.indexes)
    (hfree : schema.indexes.find? (Index.taken settings.codec schema t.view pk doc) = none)
    (bytes : Bytes) (events : List Event) :
    ∃ t', Records.writeRecord settings schema pk old doc bytes ⟨t, events⟩ =
        (.ok (), ⟨t', events⟩) ∧
      Replaced settings.codec schema pk old (some doc) (some bytes) t t' := by
  obtain ⟨reads, hrun⟩ := writeRecord_run h hw hdoc hfree bytes events
  exact ⟨_, hrun,
    (replaced_rewritten (h.recordReads reads) hw hpk (Index.eq_of_not_taken hfree)).after_reads⟩

/-- A write is carried out in full or fails before it has written anything. -/
theorem writeRecord_ends (h : Replaceable settings.codec schema pk old t)
    (hdoc : settings.codec.Keyed doc schema.indexes) (events : List Event) :
    Triple (Records.writeRecord settings schema pk old doc bytes) ⟨t, events⟩
      (fun _ s => t.readOnly = false ∧
        schema.indexes.find? (Index.taken settings.codec schema t.view pk doc) = none ∧
        ∃ reads, s.txn = (t.recordReads reads).rewritten settings.codec schema pk old doc bytes)
      (fun s => t.OnlyRead s.txn) := by
  cases hfind : schema.indexes.find? (Index.taken settings.codec schema t.view pk doc) with
  | some spec =>
    obtain ⟨reads, hrun⟩ := writeRecord_taken h hdoc hfind bytes events
    exact Triple.of_run_error hrun (.recordReads t reads)
  | none =>
    cases hro : t.readOnly with
    | false =>
      obtain ⟨reads, hrun⟩ := writeRecord_run h hro hdoc hfind bytes events
      exact Triple.of_run hrun ⟨rfl, rfl, reads, rfl⟩
    | true =>
      -- Both the first entry and the record itself are refused.
      obtain ⟨reads, hcheck⟩ := Index.checkUniqueIn_run pk hdoc
        (fun spec hspec => h.tidy.readable hspec _) events
      rw [hfind] at hcheck
      rw [Records.writeRecord_eq]
      refine Work.triple_adapt (Triple.bind_of_run hcheck ?_)
      have hleft := leave_readOnly (h.recordReads reads) hro events
      refine Triple.bind (hleft.mono (fun _ s' hs => hs) fun s' hs =>
        (Transaction.OnlyRead.recordReads t reads).trans hs) ?_
      rintro _ ⟨_, events⟩ ⟨more, rfl⟩
      have hro' : ((t.recordReads reads).recordReads more).readOnly = true := hro
      refine Triple.of_run_error (by rw [run_bind, Index.put_readOnly hro']) ?_
      exact (Transaction.OnlyRead.recordReads t reads).trans (.recordReads _ more)

theorem writeRecord_spec (h : Replaceable settings.codec schema pk old t) (hpk : KeyList.Fits pk)
    (hdoc : settings.codec.Keyed doc schema.indexes) (events : List Event) :
    Triple (Records.writeRecord settings schema pk old doc bytes) ⟨t, events⟩
      (fun _ s => s.txn.readOnly = false ∧
        Replaced settings.codec schema pk old (some doc) (some bytes) t s.txn)
      (fun s => t.OnlyRead s.txn) := by
  refine (writeRecord_ends h hdoc events).mono ?_ fun _ hfail => hfail
  rintro _ ⟨_, events⟩ ⟨hw, hfree, reads, rfl⟩
  have hreplaced : Replaced settings.codec schema pk old (some doc) (some bytes) t _ :=
    (replaced_rewritten (h.recordReads reads) hw hpk (Index.eq_of_not_taken hfree)).after_reads
  exact ⟨hreplaced.changed.readOnly.trans hw, hreplaced⟩

theorem replaced_removed {doc : Document} (h : Replaceable codec schema pk (some doc) t)
    (hw : t.readOnly = false) :
    Replaced codec schema pk (some doc) none none t
      ((t.assign (Records.recordKey schema pk) none).delisted codec schema pk (some doc)) := by
  let removed := t.assign (Records.recordKey schema pk) none
  have hremoved : t.ChangedWithin (schema.Touches pk) removed := .assign hw (.inl rfl) _
  have hlast : removed.ChangedWithin
      (fun key => ∃ spec ∈ schema.indexes, key = Index.entryIn codec schema doc spec)
      (removed.delisted codec schema pk (some doc)) := Transaction.changedWithin_relistAll hw
  have hrecord : ¬ ∃ spec ∈ schema.indexes,
      Records.recordKey schema pk = Index.entryIn codec schema doc spec := by
    rintro ⟨spec, -, heq⟩
    exact Records.recordKey_ne_entryAt pk spec _ heq
  have hrelisted := (h.assign_record none).relisted (t := removed) hw
  refine ⟨hremoved.trans (changedWithin_delisted hw),
    fun hcovered hread => covered_delisted (hcovered.assign hread _), ?_, ?_,
    delisted_left hw h.named, hrelisted.tidy, fun spec hspec value other => ?_⟩
  · rw [hlast.view _ hrecord, Transaction.view_assign, if_pos rfl]
  · refine hlast.written _ ?_
    rw [Transaction.writes_assign, if_pos rfl]
    rfl
  · rw [hrelisted.listed spec hspec value other,
      Data.keysAt_congr (get?_assign_record t none spec hspec value)]
    simp

theorem removeRecord_run {doc : Document} (h : Replaceable settings.codec schema pk (some doc) t)
    (hw : t.readOnly = false) (events : List Event) :
    ∃ t', Records.removeRecord settings schema pk doc ⟨t, events⟩ = (.ok (), ⟨t', events⟩) ∧
      Replaced settings.codec schema pk (some doc) none none t t' := by
  have hleave := leave_run (h.assign_record none) hw events
  refine ⟨_, ?_, replaced_removed h hw⟩
  simp only [Records.leave] at hleave
  simp only [Records.removeRecord, Work.adapt, run_bind, Index.delete_run hw, hleave]
  rfl

theorem removeRecord_spec {doc : Document} (h : Replaceable settings.codec schema pk (some doc) t)
    (events : List Event) :
    Triple (Records.removeRecord settings schema pk doc) ⟨t, events⟩
      (fun _ s => s.txn.readOnly = false ∧
        Replaced settings.codec schema pk (some doc) none none t s.txn)
      (fun s => t.OnlyRead s.txn) := by
  cases hro : t.readOnly with
  | true =>
    exact Work.triple_adapt
      (Triple.of_run_error (by rw [run_bind, Index.delete_readOnly hro]) (.refl t))
  | false =>
    obtain ⟨t', hrun, hreplaced⟩ := removeRecord_run h hro events
    exact Triple.of_run hrun ⟨hreplaced.changed.readOnly.trans hro, hreplaced⟩

end DocStore
