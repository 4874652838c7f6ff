import DocStore.Proofs.Upkeep

/-!
# Consistent data

What holds of committed data, and of the view of every open transaction, as far as one schema is
concerned (`Data.Consistent`). A transaction keeps more than that: it never leaves an entry behind
that the record it replaces was listed in (`Upholds`). This is what its commit needs, for the
writes of other transactions come in between: `Upholds.merge` shows that its writes laid over the
current data are consistent again, as long as what it has read is still current.
-/

namespace DocStore

variable {codec : Codec} {schema : Schema} {kept : IndexSpec → Prop} {base data data' : Data}
  {t t' : Transaction} {pk : Bytes}

-- ---------------------------------------------------------------------------
-- Data
-- ---------------------------------------------------------------------------

/-- The contents of the record under `pk` are those of a document with the index values of `doc`, and
whoever reads the record finds the same values. Reading sets the key field, so this has a point where
an index is built on it. -/
structure Codec.Reflects (codec : Codec) (schema : Schema) (pk bytes : Bytes) (doc : Document) :
    Prop where
  keyed : codec.Keyed doc schema.indexes
  stored : ∃ stored : Document, codec.decode bytes = .ok stored.toValue ∧
    codec.Alike schema.indexes stored doc
  read : ∀ found, Search.decodeRecord codec schema pk bytes = .ok found →
    codec.Alike schema.indexes found doc

/-- Every record can be read and indexed, and every entry is right. The `kept` indexes have all the
entries they need. -/
structure Data.Consistent (data : Data) (codec : Codec) (schema : Schema)
    (kept : IndexSpec → Prop) : Prop where
  fit : ∀ pk bytes, data.get? (Records.recordKey schema pk) = some bytes → KeyList.Fits pk
  readable : ∀ pk bytes, data.get? (Records.recordKey schema pk) = some bytes →
    ∃ doc, codec.Reflects schema pk bytes doc
  tidy : data.Tidy schema
  truthful : ∀ spec ∈ schema.indexes, ∀ value, ∀ pk ∈ data.keysAt (Index.entryAt schema spec value),
    data.HasValue codec schema spec pk value
  complete : ∀ spec ∈ schema.indexes, kept spec → ∀ pk value,
    data.HasValue codec schema spec pk value → pk ∈ data.keysAt (Index.entryAt schema spec value)

structure Data.SameFor (schema : Schema) (data data' : Data) : Prop where
  record : ∀ pk, data'.get? (Records.recordKey schema pk) = data.get? (Records.recordKey schema pk)
  entry : ∀ spec ∈ schema.indexes, ∀ value,
    data'.get? (Index.entryAt schema spec value) = data.get? (Index.entryAt schema spec value)

namespace Data

theorem Holds.unique {doc doc' : Document} (h : data.Holds codec schema pk doc)
    (h' : data.Holds codec schema pk doc') : doc = doc' := by
  obtain ⟨bytes, hget, hdecode⟩ := h
  obtain ⟨bytes', hget', hdecode'⟩ := h'
  rw [hget] at hget'
  cases hget'
  rw [hdecode] at hdecode'
  have hvalue := Except.ok.inj hdecode'
  simp only [Document.toValue, Value.document.injEq] at hvalue
  cases doc
  cases doc'
  simpa using hvalue

theorem hasValue_congr (h : data'.get? (Records.recordKey schema pk) =
    data.get? (Records.recordKey schema pk)) (spec : IndexSpec) (value : Bytes) :
    data'.HasValue codec schema spec pk value ↔ data.HasValue codec schema spec pk value := by
  simp only [HasValue, Holds, h]

theorem Consistent.congr (h : data.Consistent codec schema kept) (hsame : SameFor schema data data') :
    data'.Consistent codec schema kept where
  fit pk bytes hget := h.fit pk bytes (by rwa [hsame.record] at hget)
  readable pk bytes hget := h.readable pk bytes (by rwa [hsame.record] at hget)
  tidy spec hspec value entry hentry :=
    h.tidy spec hspec value entry (by rwa [hsame.entry spec hspec] at hentry)
  truthful spec hspec value pk hpk := by
    rw [keysAt_congr (hsame.entry spec hspec value)] at hpk
    exact (hasValue_congr (hsame.record pk) spec value).mpr (h.truthful spec hspec value pk hpk)
  complete spec hspec hkept pk value hvalue := by
    rw [keysAt_congr (hsame.entry spec hspec value)]
    exact h.complete spec hspec hkept pk value
      ((hasValue_congr (hsame.record pk) spec value).mp hvalue)

theorem consistent_empty : Data.Consistent ∅ codec schema kept where
  fit _ _ h := by cases h
  readable _ _ h := by cases h
  tidy _ _ _ _ h := by cases h
  truthful _ _ _ _ h := by cases h
  complete _ _ _ _ _ h := by
    obtain ⟨_, ⟨_, h, _⟩, _⟩ := h
    cases h

theorem Consistent.keyed (h : data.Consistent codec schema kept) {doc : Document}
    (hdoc : data.Holds codec schema pk doc) : codec.Keyed doc schema.indexes := by
  obtain ⟨bytes, hget, hdecode⟩ := hdoc
  obtain ⟨reflected, hreflects⟩ := h.readable pk bytes hget
  obtain ⟨stored, hdecode', halike⟩ := hreflects.stored
  cases Holds.unique ⟨bytes, hget, hdecode⟩ ⟨bytes, hget, hdecode'⟩
  exact halike.keyed hreflects.keyed

theorem Consistent.mirrors (h : data.Consistent codec schema kept) {spec : IndexSpec}
    (hspec : spec ∈ schema.indexes) (hkept : kept spec) : data.Mirrors codec schema spec := by
  have hiff : ∀ value pk, pk ∈ data.keysAt (Index.entryAt schema spec value) ↔
      data.HasValue codec schema spec pk value := fun value pk =>
    ⟨h.truthful spec hspec value pk, h.complete spec hspec hkept pk value⟩
  refine ⟨fun pk bytes hget => ?_, fun value => ⟨fun hsome => ?_, fun ⟨pk, hpk⟩ => ?_⟩,
    fun value entry hentry => ?_⟩
  · obtain ⟨doc, hreflects⟩ := h.readable pk bytes hget
    obtain ⟨stored, hdecode, -⟩ := hreflects.stored
    have hstored : data.Holds codec schema pk stored := ⟨bytes, hget, hdecode⟩
    obtain ⟨value, hvalue⟩ := h.keyed hstored spec hspec
    exact ⟨value, stored, hstored, hvalue⟩
  · obtain ⟨entry, hentry⟩ := Option.isSome_iff_exists.mp hsome
    obtain ⟨keys, hkeys, -, hne, -⟩ := h.tidy spec hspec value entry hentry
    obtain ⟨pk, hpk⟩ := List.exists_mem_of_ne_nil keys hne
    refine ⟨pk, (hiff value pk).mp ?_⟩
    rwa [keysAt_of_decode hentry hkeys]
  · rw [← hiff] at hpk
    by_contra hnone
    rw [Option.not_isSome_iff_eq_none] at hnone
    rw [keysAt_of_none hnone] at hpk
    cases hpk
  · obtain ⟨keys, hkeys, hnodup, -, hunique⟩ := h.tidy spec hspec value entry hentry
    refine ⟨keys, hkeys, hnodup, fun pk => ?_, hunique⟩
    rw [← hiff, keysAt_of_decode hentry hkeys]

theorem Consistent.vouches (h : data.Consistent codec schema kept) {spec : IndexSpec}
    (hspec : spec ∈ schema.indexes) : data.Vouches codec schema spec := by
  intro value entry hentry
  obtain ⟨keys, hkeys, hnodup, hne, hunique⟩ := h.tidy spec hspec value entry hentry
  refine ⟨keys, hkeys, hnodup, hne, fun pk hpk => h.truthful spec hspec value pk ?_, hunique⟩
  rwa [keysAt_of_decode hentry hkeys]

/-- What is read under a primary key, as far as the indexes can tell. -/
def ReadAs (data : Data) (codec : Codec) (schema : Schema) (pk : Bytes) : Option Document → Prop
  | none => data.get? (Records.recordKey schema pk) = none
  | some found => ∃ doc, data.Holds codec schema pk doc ∧ codec.Alike schema.indexes found doc

theorem Consistent.readAs (h : data.Consistent codec schema kept) {bytes : Bytes}
    {found : Document} (hget : data.get? (Records.recordKey schema pk) = some bytes)
    (hread : Search.decodeRecord codec schema pk bytes = .ok found) :
    data.ReadAs codec schema pk (some found) := by
  obtain ⟨doc, hreflects⟩ := h.readable pk bytes hget
  obtain ⟨stored, hdecode, halike⟩ := hreflects.stored
  exact ⟨stored, ⟨bytes, hget, hdecode⟩, (hreflects.read found hread).trans halike.symm⟩

theorem HasValue.of_readAs {old : Option Document} {spec : IndexSpec} {value : Bytes}
    (h : data.HasValue codec schema spec pk value) (hold : data.ReadAs codec schema pk old)
    (hspec : spec ∈ schema.indexes) :
    ∃ doc, old = some doc ∧ value = codec.valueKey doc spec := by
  obtain ⟨doc, hdoc, hvalue⟩ := h
  cases old with
  | none =>
    obtain ⟨bytes, hget, -⟩ := hdoc
    rw [ReadAs, hget] at hold
    cases hold
  | some found =>
    obtain ⟨doc', hdoc', hsame⟩ := hold
    cases hdoc.unique hdoc'
    refine ⟨found, rfl, ?_⟩
    simp [Codec.valueKey, hsame spec hspec, hvalue]

theorem Consistent.replaceable (h : data.Consistent codec schema kept) (hnamed : schema.Named)
    {old : Option Document} (hold : data.ReadAs codec schema pk old) (hview : t.view = data) :
    Replaceable codec schema pk old t := by
  subst hview
  refine ⟨hnamed, h.tidy, fun spec hspec value key hkey => ?_, ?_, fun spec hspec value hpk => ?_⟩
  · obtain ⟨_, ⟨bytes, hget, -⟩, -⟩ := h.truthful spec hspec value key hkey
    exact h.fit key bytes hget
  · rintro found rfl
    obtain ⟨stored, hstored, hsame⟩ := hold
    exact hsame.keyed (h.keyed hstored)
  · exact (h.truthful spec hspec value pk hpk).of_readAs hold hspec

end Data

-- ---------------------------------------------------------------------------
-- Transactions
-- ---------------------------------------------------------------------------

/-- What an open transaction on `base` keeps up with every operation. -/
structure Transaction.Upholds (t : Transaction) (codec : Codec) (schema : Schema)
    (kept : IndexSpec → Prop) (base : Data) : Prop where
  view : t.view.Consistent codec schema kept
  /-- A record that was written over has left the entries of the value it had at the start. -/
  moved : ∀ spec ∈ schema.indexes, ∀ pk value,
    (t.writes.get? (Records.recordKey schema pk)).isSome →
      base.HasValue codec schema spec pk value →
        (t.writes.get? (Index.entryAt schema spec value)).isSome
  /-- A record that was not written over is listed where it was at the start, if at all. -/
  listed : ∀ spec ∈ schema.indexes, ∀ pk value,
    t.writes.get? (Records.recordKey schema pk) = none →
      pk ∈ t.view.keysAt (Index.entryAt schema spec value) →
        pk ∈ base.keysAt (Index.entryAt schema spec value)

namespace Transaction.Upholds

theorem of_base (h : base.Consistent codec schema kept) (hview : t.view = base)
    (hwrites : t.writes = ∅) : t.Upholds codec schema kept base := by
  subst hview
  refine ⟨h, fun spec _ pk value hsome => ?_, fun spec _ pk value _ hmem => hmem⟩
  rw [hwrites] at hsome
  cases hsome

theorem recordReads (h : t.Upholds codec schema kept base) (reads : List Bytes) :
    (t.recordReads reads).Upholds codec schema kept base :=
  ⟨h.view, h.moved, h.listed⟩

theorem changedWithin (h : t.Upholds codec schema kept base) {keys : Bytes → Prop}
    (hchanged : t.ChangedWithin keys t') (hrecord : ∀ pk, ¬ keys (Records.recordKey schema pk))
    (hentry : ∀ spec ∈ schema.indexes, ∀ value, ¬ keys (Index.entryAt schema spec value)) :
    t'.Upholds codec schema kept base where
  view := h.view.congr
    ⟨fun pk => hchanged.view _ (hrecord pk),
      fun spec hspec value => hchanged.view _ (hentry spec hspec value)⟩
  moved spec hspec pk value hsome hvalue := by
    rw [hchanged.writes _ (hrecord pk)] at hsome
    exact hchanged.written _ (h.moved spec hspec pk value hsome hvalue)
  listed spec hspec pk value hnone hmem := by
    rw [hchanged.writes _ (hrecord pk)] at hnone
    rw [Data.keysAt_congr (hchanged.view _ (hentry spec hspec value))] at hmem
    exact h.listed spec hspec pk value hnone hmem

end Transaction.Upholds

-- ---------------------------------------------------------------------------
-- Replacing a record
-- ---------------------------------------------------------------------------

def Codec.Contains (codec : Codec) (schema : Schema) (pk : Bytes) :
    Option Document → Option Bytes → Prop
  | none, none => True
  | some doc, some bytes => codec.Reflects schema pk bytes doc ∧ KeyList.Fits pk
  | _, _ => False

variable {old new : Option Document} {contents : Option Bytes}

theorem Codec.Contains.hasValue_iff (h : codec.Contains schema pk new contents)
    (hget : data.get? (Records.recordKey schema pk) = contents) {spec : IndexSpec}
    (hspec : spec ∈ schema.indexes) (value : Bytes) :
    data.HasValue codec schema spec pk value ↔
      ∃ doc, new = some doc ∧ value = codec.valueKey doc spec := by
  cases new with
  | none =>
    cases contents with
    | some bytes => cases h
    | none =>
      constructor
      · rintro ⟨doc, ⟨bytes, hbytes, -⟩, -⟩
        rw [hget] at hbytes
        cases hbytes
      · rintro ⟨doc, hdoc, -⟩
        cases hdoc
  | some doc =>
    cases contents with
    | none => cases h
    | some bytes =>
      obtain ⟨hreflects, -⟩ := h
      obtain ⟨stored, hdecode, halike⟩ := hreflects.stored
      have hholds : data.Holds codec schema pk stored := ⟨bytes, hget, hdecode⟩
      have hkey : codec.encodeKey (stored.lookupOrNull spec.field) =
          .ok (codec.valueKey doc spec) := by
        rw [halike spec hspec, hreflects.keyed.encodeKey hspec]
      constructor
      · rintro ⟨stored', hstored', hvalue⟩
        cases hstored'.unique hholds
        rw [hkey] at hvalue
        exact ⟨doc, rfl, (Except.ok.inj hvalue).symm⟩
      · rintro ⟨doc', hdoc', rfl⟩
        cases hdoc'
        exact ⟨stored, hholds, hkey⟩

theorem Replaced.get?_record (h : Replaced codec schema pk old new contents t t')
    (hnamed : schema.Named) {other : Bytes} (hother : other ≠ pk) :
    t'.view.get? (Records.recordKey schema other) = t.view.get? (Records.recordKey schema other) ∧
      t'.writes.get? (Records.recordKey schema other) =
        t.writes.get? (Records.recordKey schema other) := by
  have hout : ¬ schema.Touches pk (Records.recordKey schema other) := by
    rintro (heq | ⟨spec, -, value, heq⟩)
    · exact hother (Records.recordKey_inj hnamed hnamed heq).2
    · exact Records.recordKey_ne_entryAt other spec value heq
  exact ⟨h.changed.view _ hout, h.changed.writes _ hout⟩

theorem Replaced.hasValue_iff (h : Replaced codec schema pk old new contents t t')
    (hnamed : schema.Named) (hnew : codec.Contains schema pk new contents) {spec : IndexSpec}
    (hspec : spec ∈ schema.indexes) (other value : Bytes) :
    t'.view.HasValue codec schema spec other value ↔
      (other = pk ∧ ∃ doc, new = some doc ∧ value = codec.valueKey doc spec) ∨
        (other ≠ pk ∧ t.view.HasValue codec schema spec other value) := by
  by_cases hother : other = pk
  · subst hother
    simp [hnew.hasValue_iff h.record hspec]
  · simp [hother, Data.hasValue_congr (h.get?_record hnamed hother).1]

theorem Data.Consistent.replaced (hview : t.view.Consistent codec schema kept)
    (hnamed : schema.Named) (h : Replaced codec schema pk old new contents t t')
    (hnew : codec.Contains schema pk new contents) : t'.view.Consistent codec schema kept where
  fit other bytes hget := by
    by_cases hother : other = pk
    · subst hother
      rw [h.record] at hget
      subst hget
      cases new with
      | none => cases hnew
      | some doc => exact hnew.2
    · rw [(h.get?_record hnamed hother).1] at hget
      exact hview.fit other bytes hget
  readable other bytes hget := by
    by_cases hother : other = pk
    · subst hother
      rw [h.record] at hget
      subst hget
      cases new with
      | none => cases hnew
      | some doc => exact ⟨doc, hnew.1⟩
    · rw [(h.get?_record hnamed hother).1] at hget
      exact hview.readable other bytes hget
  tidy := h.relisted.tidy
  truthful spec hspec value other hmem := by
    rw [h.hasValue_iff hnamed hnew hspec]
    rcases (h.relisted.listed spec hspec value other).mp hmem with hnow | ⟨hother, hbefore⟩
    · exact .inl hnow
    · exact .inr ⟨hother, hview.truthful spec hspec value other hbefore⟩
  complete spec hspec hkept other value hvalue := by
    rw [h.hasValue_iff hnamed hnew hspec] at hvalue
    rw [h.relisted.listed spec hspec value other]
    rcases hvalue with hnow | ⟨hother, hbefore⟩
    · exact .inl hnow
    · exact .inr ⟨hother, hview.complete spec hspec hkept other value hbefore⟩

theorem Transaction.Upholds.replaced (h : t.Upholds codec schema kept base) (hnamed : schema.Named)
    (hstands : t.StandsOn base) (hold : t.view.ReadAs codec schema pk old)
    (hreplaced : Replaced codec schema pk old new contents t t')
    (hnew : codec.Contains schema pk new contents) : t'.Upholds codec schema kept base where
  view := h.view.replaced hnamed hreplaced hnew
  moved spec hspec other value hsome hvalue := by
    by_cases hwritten : (t.writes.get? (Records.recordKey schema other)).isSome
    · exact hreplaced.changed.written _ (h.moved spec hspec other value hwritten hvalue)
    · -- The record is written for the first time, so what was read is the record at the start.
      have hother : other = pk := by
        by_contra hother
        rw [(hreplaced.get?_record hnamed hother).2] at hsome
        exact hwritten hsome
      subst hother
      rw [Option.not_isSome_iff_eq_none] at hwritten
      have hsame : t.view.get? (Records.recordKey schema other) =
          base.get? (Records.recordKey schema other) := by
        rw [hstands.view, hwritten, Option.getD_none]
      obtain ⟨doc, hdoc, rfl⟩ :=
        ((Data.hasValue_congr hsame spec value).mpr hvalue).of_readAs hold hspec
      exact hreplaced.left doc hdoc spec hspec
  listed spec hspec other value hnone hmem := by
    have hother : other ≠ pk := by
      rintro rfl
      have hwritten := hreplaced.written
      rw [hnone] at hwritten
      cases hwritten
    rw [(hreplaced.get?_record hnamed hother).2] at hnone
    obtain ⟨heq, -⟩ | ⟨-, hbefore⟩ := (hreplaced.relisted.listed spec hspec value other).mp hmem
    · exact absurd heq hother
    · exact h.listed spec hspec other value hnone hbefore

-- ---------------------------------------------------------------------------
-- Dropping entries
-- ---------------------------------------------------------------------------

/-- Nothing that concerns the schema differs but some entries of one index, which are gone. -/
structure Data.Dropped (schema : Schema) (spec : IndexSpec) (data data' : Data) : Prop where
  record : ∀ pk, data'.get? (Records.recordKey schema pk) = data.get? (Records.recordKey schema pk)
  entry : ∀ other ∈ schema.indexes, ∀ value,
    data'.get? (Index.entryAt schema other value) = data.get? (Index.entryAt schema other value) ∨
      other = spec ∧ data'.get? (Index.entryAt schema other value) = none

theorem Data.Dropped.of_mem_keysAt {spec other : IndexSpec} (h : Data.Dropped schema spec data data')
    (hother : other ∈ schema.indexes) {value : Bytes}
    (hpk : pk ∈ data'.keysAt (Index.entryAt schema other value)) :
    pk ∈ data.keysAt (Index.entryAt schema other value) := by
  rcases h.entry other hother value with hsame | ⟨-, hnone⟩
  · rwa [Data.keysAt_congr hsame] at hpk
  · rw [Data.keysAt_of_none hnone] at hpk
    cases hpk

theorem Data.Consistent.dropped {spec : IndexSpec} (h : data.Consistent codec schema kept)
    (hdropped : Data.Dropped schema spec data data') (hkept : ¬ kept spec) :
    data'.Consistent codec schema kept where
  fit pk bytes hget := h.fit pk bytes (by rwa [hdropped.record] at hget)
  readable pk bytes hget := h.readable pk bytes (by rwa [hdropped.record] at hget)
  tidy other hother value entry hget := by
    rcases hdropped.entry other hother value with hsame | ⟨-, hnone⟩
    · exact h.tidy other hother value entry (hsame ▸ hget)
    · rw [hnone] at hget
      cases hget
  truthful other hother value pk hpk := by
    rw [Data.hasValue_congr (hdropped.record pk)]
    exact h.truthful other hother value pk (hdropped.of_mem_keysAt hother hpk)
  complete other hother hkept' pk value hvalue := by
    rw [Data.hasValue_congr (hdropped.record pk)] at hvalue
    have hold := h.complete other hother hkept' pk value hvalue
    rcases hdropped.entry other hother value with hsame | ⟨rfl, -⟩
    · rwa [Data.keysAt_congr hsame]
    · exact absurd hkept' hkept

theorem Transaction.ChangedWithin.dropped (hnamed : schema.Named) {spec : IndexSpec}
    (hspec : spec ∈ schema.indexes)
    (h : t.ChangedWithin (fun key => ∃ value, key = Index.entryAt schema spec value) t')
    (hgone : ∀ value, t'.view.get? (Index.entryAt schema spec value) =
        t.view.get? (Index.entryAt schema spec value) ∨
      t'.view.get? (Index.entryAt schema spec value) = none) :
    Data.Dropped schema spec t.view t'.view where
  record pk := h.view _ fun ⟨value, heq⟩ => Records.recordKey_ne_entryAt pk spec value heq
  entry other hother value := by
    by_cases heq : other = spec
    · subst heq
      exact (hgone value).imp id fun hnone => ⟨rfl, hnone⟩
    · refine .inl (h.view _ ?_)
      rintro ⟨value', heq'⟩
      have hname := (Index.entryAt_inj hnamed hnamed hother hspec heq').2.1
      exact heq (hnamed.eq_of_name hother hspec hname)

theorem Transaction.Upholds.dropped (h : t.Upholds codec schema kept base) (hnamed : schema.Named)
    {spec : IndexSpec} (hspec : spec ∈ schema.indexes) (hkept : ¬ kept spec)
    (hchanged : t.ChangedWithin (fun key => ∃ value, key = Index.entryAt schema spec value) t')
    (hgone : ∀ value, t'.view.get? (Index.entryAt schema spec value) =
        t.view.get? (Index.entryAt schema spec value) ∨
      t'.view.get? (Index.entryAt schema spec value) = none) :
    t'.Upholds codec schema kept base := by
  have hdropped : Data.Dropped schema spec t.view t'.view := hchanged.dropped hnamed hspec hgone
  have hwrites : ∀ pk, t'.writes.get? (Records.recordKey schema pk) =
      t.writes.get? (Records.recordKey schema pk) := fun pk =>
    hchanged.writes _ fun ⟨value, heq⟩ => Records.recordKey_ne_entryAt pk spec value heq
  refine ⟨h.view.dropped hdropped hkept, fun other hother pk value hsome hbase => ?_,
    fun other hother pk value hnone hpk => ?_⟩
  · rw [hwrites] at hsome
    exact hchanged.written _ (h.moved other hother pk value hsome hbase)
  · rw [hwrites] at hnone
    exact h.listed other hother pk value hnone (hdropped.of_mem_keysAt hother hpk)

-- ---------------------------------------------------------------------------
-- Commits
-- ---------------------------------------------------------------------------

/-- A key that was written now holds what the transaction saw, and before held what it saw at its
start. Any other key holds what it held, and was seen as at the start. -/
theorem Transaction.merged_cases {current merged : Data} (hstands : t.StandsOn base)
    (hcovered : t.Covered) (hfresh : ∀ key ∈ t.reads, current.get? key = base.get? key)
    (hmerged : ∀ key, merged.get? key = (t.writes.get? key).getD (current.get? key))
    (key : Bytes) :
    ((t.writes.get? key).isSome ∧ merged.get? key = t.view.get? key ∧
        current.get? key = base.get? key) ∨
      (t.writes.get? key = none ∧ merged.get? key = current.get? key ∧
        t.view.get? key = base.get? key) := by
  cases hwrites : t.writes.get? key with
  | none =>
    refine .inr ⟨rfl, ?_, ?_⟩
    · rw [hmerged, hwrites, Option.getD_none]
    · rw [hstands.view, hwrites, Option.getD_none]
  | some value =>
    refine .inl ⟨rfl, ?_, hfresh key (hcovered key (by rw [hwrites]; rfl))⟩
    rw [hmerged, hstands.view, hwrites, Option.getD_some, Option.getD_some]

/-- The writes of a transaction whose reads are current can be laid over the current data. -/
theorem Transaction.Upholds.merge {current merged : Data} (h : t.Upholds codec schema kept base)
    (hstands : t.StandsOn base) (hcovered : t.Covered)
    (hbase : base.Consistent codec schema kept) (hcurrent : current.Consistent codec schema kept)
    (hfresh : ∀ key ∈ t.reads, current.get? key = base.get? key)
    (hmerged : ∀ key, merged.get? key = (t.writes.get? key).getD (current.get? key)) :
    merged.Consistent codec schema kept := by
  have hcases := Transaction.merged_cases hstands hcovered hfresh hmerged
  refine ⟨fun pk bytes hget => ?fit, fun pk bytes hget => ?readable,
    fun spec hspec value entry hget => ?tidy, fun spec hspec value pk hpk => ?truthful,
    fun spec hspec hkept pk value hpk => ?complete⟩
  case fit =>
    rcases hcases (Records.recordKey schema pk) with ⟨-, hsame, -⟩ | ⟨-, hsame, -⟩
    · exact h.view.fit pk bytes (hsame ▸ hget)
    · exact hcurrent.fit pk bytes (hsame ▸ hget)
  case readable =>
    rcases hcases (Records.recordKey schema pk) with ⟨-, hsame, -⟩ | ⟨-, hsame, -⟩
    · exact h.view.readable pk bytes (hsame ▸ hget)
    · exact hcurrent.readable pk bytes (hsame ▸ hget)
  case tidy =>
    rcases hcases (Index.entryAt schema spec value) with ⟨-, hsame, -⟩ | ⟨-, hsame, -⟩
    · exact h.view.tidy spec hspec value entry (hsame ▸ hget)
    · exact hcurrent.tidy spec hspec value entry (hsame ▸ hget)
  case truthful =>
    rcases hcases (Index.entryAt schema spec value) with ⟨-, hentry, hold⟩ | ⟨hentry, hsame, -⟩
    · rw [Data.keysAt_congr hentry] at hpk
      rcases hcases (Records.recordKey schema pk) with ⟨-, hrecord, -⟩ | ⟨hrecord, hsame, -⟩
      · exact (Data.hasValue_congr hrecord spec value).mpr (h.view.truthful spec hspec value pk hpk)
      · -- The entry was rewritten with this key in it, so the key stood there before.
        have hlisted := h.listed spec hspec pk value hrecord hpk
        rw [← Data.keysAt_congr hold] at hlisted
        exact (Data.hasValue_congr hsame spec value).mpr
          (hcurrent.truthful spec hspec value pk hlisted)
    · rw [Data.keysAt_congr hsame] at hpk
      have hvalue := hcurrent.truthful spec hspec value pk hpk
      rcases hcases (Records.recordKey schema pk) with ⟨hrecord, -, hold⟩ | ⟨-, hrecord, -⟩
      · -- A record that was written over cannot have left its old entry alone.
        have hmoved := h.moved spec hspec pk value hrecord
          ((Data.hasValue_congr hold spec value).mp hvalue)
        rw [hentry] at hmoved
        cases hmoved
      · exact (Data.hasValue_congr hrecord spec value).mpr hvalue
  case complete =>
    rcases hcases (Records.recordKey schema pk) with ⟨hwritten, hrecord, -⟩ | ⟨-, hrecord, hview⟩
    · have hlisted := h.view.complete spec hspec hkept pk value
        ((Data.hasValue_congr hrecord spec value).mp hpk)
      rcases hcases (Index.entryAt schema spec value) with ⟨-, hentry, -⟩ | ⟨hentry, -, hsame⟩
      · rwa [Data.keysAt_congr hentry]
      · rw [Data.keysAt_congr hsame] at hlisted
        have hmoved := h.moved spec hspec pk value hwritten
          (hbase.truthful spec hspec value pk hlisted)
        rw [hentry] at hmoved
        cases hmoved
    · have hlisted := hcurrent.complete spec hspec hkept pk value
        ((Data.hasValue_congr hrecord spec value).mp hpk)
      rcases hcases (Index.entryAt schema spec value) with ⟨-, hentry, hold⟩ | ⟨-, hentry, -⟩
      · -- The rewritten entry is that of the start, as is the record.
        rw [Data.keysAt_congr hold] at hlisted
        rw [Data.keysAt_congr hentry]
        exact h.view.complete spec hspec hkept pk value ((Data.hasValue_congr hview spec value).mpr
          (hbase.truthful spec hspec value pk hlisted))
      · rwa [Data.keysAt_congr hentry]

end DocStore
