import DocStore.Proofs.Mutations

/-!
# What an operation may write

However an operation ends, the keys it has written are records of its type, entries of its type's
indexes, and the counter of its type if it draws a number (`Mutation.work_within`). Nothing is asked
of the data: this holds of transactions whose records or entries cannot be read as well.
-/

namespace DocStore

variable {ε ε' α β : Type} {keys keys' : Bytes → Prop}

theorem Transaction.OnlyRead.changedWithin {t t' : Transaction} (h : t.OnlyRead t') :
    t.ChangedWithin keys t' := by
  obtain ⟨reads, rfl⟩ := h
  exact .recordReads t reads

theorem Transaction.OnlyRead.of_reads {t : Transaction} {reads : List Bytes}
    (h : t.reads <:+ reads) : t.OnlyRead { t with reads } := by
  obtain ⟨more, rfl⟩ := h
  exact ⟨more.reverse, by rw [Transaction.recordReads, List.reverse_reverse]⟩

-- ---------------------------------------------------------------------------
-- Work
-- ---------------------------------------------------------------------------

/-- However the work ends, it has written none but some of the `keys`. -/
def Work.Within (keys : Bytes → Prop) (w : Work ε α) : Prop :=
  ∀ s : Session, s.txn.ChangedWithin keys (w s).2.txn

namespace Work.Within

variable {w : Work ε α}

theorem mono (h : w.Within keys) (hkeys : ∀ key, keys key → keys' key) : w.Within keys' :=
  fun s => (h s).mono hkeys

theorem pure (a : α) : Within keys (Pure.pure a : Work ε α) := fun s => .refl s.txn

theorem throw (e : ε) : Within keys (MonadExcept.throw e : Work ε α) := fun s => .refl s.txn

theorem ofExcept (result : Except ε α) : Within keys (Work.ofExcept result) := fun s => .refl s.txn

theorem report (event : Event) : Within keys (Work.report event : Work ε Unit) :=
  fun s => .refl s.txn

theorem bind {f : α → Work ε β} (hw : w.Within keys)
    (hf : ∀ s a s', w s = (.ok a, s') → (f a).Within keys) : (w >>= f).Within keys := by
  intro s
  have hfirst := hw s
  rw [run_bind]
  rcases hrun : w s with ⟨_ | a, s'⟩
  · rwa [hrun] at hfirst
  · rw [hrun] at hfirst
    exact hfirst.trans (hf s a s' hrun s')

theorem discard (h : w.Within keys) : Within keys (Functor.discard w) :=
  h.bind fun _ _ _ _ => .pure _

theorem adapt (h : w.Within keys) (f : ε → ε') : (Work.adapt f w).Within keys := h

theorem ofReading {r : Reading ε α} (h : r.Steady) : Within keys (Work.ofReading r) := fun s =>
  (Transaction.OnlyRead.of_reads (h.reads s.txn.view s.txn.reads)).changedWithin

theorem put {key : Bytes} (hkey : keys key) (value : Bytes) : (Work.put key value).Within keys := by
  intro s
  cases hro : s.txn.readOnly with
  | true =>
    rw [Index.put_readOnly hro key value s.events]
    exact .refl s.txn
  | false =>
    rw [Index.put_run hro key value s.events]
    exact .assign hro hkey (some value)

theorem delete {key : Bytes} (hkey : keys key) : (Work.delete key).Within keys := by
  intro s
  cases hro : s.txn.readOnly with
  | true =>
    rw [Index.delete_readOnly hro key s.events]
    exact .refl s.txn
  | false =>
    rw [Index.delete_run hro key s.events]
    exact .assign hro hkey none

end Work.Within

-- ---------------------------------------------------------------------------
-- Indexes
-- ---------------------------------------------------------------------------

namespace Index

variable {codec : Codec} {schema : Schema} {specs : List IndexSpec} {pk : Bytes} {doc : Document}

theorem entryOf_ok {spec : IndexSpec} {entry : Bytes} (h : entryOf codec schema spec doc = .ok entry) :
    ∃ value, entry = entryAt schema spec value := by
  unfold entryOf entryKey at h
  cases hvalue : codec.encodeKey (doc.lookupOrNull spec.field) with
  | error e =>
    rw [hvalue] at h
    cases h
  | ok value =>
    rw [hvalue] at h
    cases h
    exact ⟨value, rfl⟩

theorem readEntryOf_within (spec : IndexSpec) : (readEntryOf codec schema spec doc).Within keys :=
  .bind (.ofExcept _) fun _ _ _ _ =>
    .bind (.ofReading (readEntry_steady schema spec _)) fun _ _ _ _ => .pure _

theorem readEntryOf_ok {spec : IndexSpec} {s s' : Session} {entry : Bytes} {listed : List Bytes}
    (h : readEntryOf codec schema spec doc s = (.ok (entry, listed), s')) :
    ∃ value, entry = entryAt schema spec value := by
  simp only [readEntryOf, run_bind, Work.ofExcept] at h
  cases hentry : entryOf codec schema spec doc with
  | error e =>
    rw [hentry] at h
    cases h
  | ok entry' =>
    rw [hentry] at h
    dsimp only at h
    split at h
    · cases h
      exact entryOf_ok hentry
    · cases h

theorem checkUniqueIn_within : (checkUniqueIn codec schema pk doc specs).Within keys := by
  induction specs with
  | nil => exact .pure _
  | cons spec rest ih =>
    unfold checkUniqueIn
    split
    · refine .bind (readEntryOf_within spec) fun _ listed _ _ => ?_
      dsimp only
      split
      · exact .bind (.throw _) fun _ _ _ _ => ih
      · exact ih
    · exact ih

theorem addIn_within (hkeys : ∀ spec ∈ specs, ∀ value, keys (entryAt schema spec value)) :
    (addIn codec schema pk doc specs).Within keys := by
  induction specs with
  | nil => exact .pure _
  | cons spec rest ih =>
    have hrest := ih fun other hother => hkeys other (List.mem_cons_of_mem _ hother)
    refine .bind (readEntryOf_within spec) fun s found s' hfound => ?_
    obtain ⟨value, hentry⟩ := readEntryOf_ok hfound
    have hput (bytes : Bytes) :
        (Work.put found.1 bytes >>= fun _ => addIn codec schema pk doc rest).Within keys :=
      .bind (.put (hentry ▸ hkeys spec List.mem_cons_self value) bytes) fun _ _ _ _ => hrest
    dsimp only
    split
    · split
      · exact .bind (.throw _) fun _ _ _ _ => hput _
      · exact hput _
    · exact hput _

theorem deleteIn_within (hkeys : ∀ spec ∈ specs, ∀ value, keys (entryAt schema spec value)) :
    (deleteIn codec schema pk doc specs).Within keys := by
  induction specs with
  | nil => exact .pure _
  | cons spec rest ih =>
    have hrest := ih fun other hother => hkeys other (List.mem_cons_of_mem _ hother)
    refine .bind (readEntryOf_within spec) fun s found s' hfound => ?_
    obtain ⟨value, hentry⟩ := readEntryOf_ok hfound
    have hentry' : keys found.1 := hentry ▸ hkeys spec List.mem_cons_self value
    dsimp only
    split
    · exact .bind (.delete hentry') fun _ _ _ _ => hrest
    · exact .bind (.put hentry' _) fun _ _ _ _ => hrest

theorem deleteAll_within {entries : List Bytes} (hkeys : ∀ key ∈ entries, keys key) :
    (deleteAll entries).Within keys := by
  induction entries with
  | nil => exact .pure _
  | cons key rest ih =>
    exact .bind (.delete (hkeys key List.mem_cons_self)) fun _ _ _ _ =>
      ih fun other hother => hkeys other (List.mem_cons_of_mem _ hother)

theorem scan_steady (start : Bytes) :
    Reading.Steady (Reading.scan start : Reading ε (List (Bytes × Bytes))) :=
  ⟨fun _ _ _ => rfl, fun _ _ => List.suffix_append _ _⟩

theorem remove_within {name : String} (hkeys : ∀ spec, schema.findIndex name = some spec →
      ∀ value, keys (entryAt schema spec value)) : (remove schema name).Within keys := by
  unfold remove
  cases hfind : schema.findIndex name with
  | none => exact .throw _
  | some spec =>
    refine .bind (.ofReading (scan_steady _)) fun s found s' hfound => ?_
    refine .bind (deleteAll_within fun key hkey => ?_) fun _ _ _ _ =>
      .bind (.report _) fun _ _ _ _ => .pure _
    obtain ⟨pair, hpair, rfl⟩ := List.mem_map.mp hkey
    have hscan : s.txn.view.scan (Key.indexPrefix schema.typeName spec.name) = found := by
      cases hfound
      rfl
    obtain ⟨value, hvalue⟩ := (Data.mem_of_mem_scan (hscan ▸ hpair)).2
    exact hvalue ▸ hkeys spec hfind value

end Index

-- ---------------------------------------------------------------------------
-- Records
-- ---------------------------------------------------------------------------

namespace Records

variable {settings : Settings} {entity : Entity} {schema : Schema} {pk : Bytes}
  {old : Option Document} {doc : Document} {bytes : Bytes} {key : PrimaryKey}

theorem searching_within {work : Scene → Exec α} (h : ∀ scene, Steady (work scene)) :
    (searching settings work).Within keys := fun s =>
  (Transaction.OnlyRead.of_reads ((h ⟨s.txn.view, settings.codec, settings.batchSize⟩).reads
    ⟨s.txn.reads, s.events, .start⟩)).changedWithin

theorem findRows_within (q : Query Predicate) : (findRows settings schema q).Within keys :=
  searching_within fun scene => Search.findRows_steady (q.ready_steady scene)

theorem load_within : (load settings schema pk).Within keys := by
  refine .bind (.ofReading (.get _)) fun _ found _ _ => ?_
  cases found with
  | none => exact .pure _
  | some bytes => exact .bind (.ofExcept _) fun _ _ _ _ => .pure _

theorem writeRecord_within :
    (writeRecord settings schema pk old doc bytes).Within (schema.Touches pk) := by
  have hentries : ∀ spec ∈ schema.indexes, ∀ value,
      schema.Touches pk (Index.entryAt schema spec value) :=
    fun spec hspec value => .inr ⟨spec, hspec, value, rfl⟩
  rw [writeRecord_eq]
  refine .adapt (.bind Index.checkUniqueIn_within fun _ _ _ _ => .bind ?_ fun _ _ _ _ =>
    .bind (.put (.inl rfl) _) fun _ _ _ _ => Index.addIn_within hentries) _
  cases old with
  | none => exact .pure _
  | some old => exact Index.deleteIn_within hentries

theorem removeRecord_within : (removeRecord settings schema pk doc).Within (schema.Touches pk) :=
  .adapt (.bind (.delete (.inl rfl)) fun _ _ _ _ =>
    Index.deleteIn_within fun spec hspec value => .inr ⟨spec, hspec, value, rfl⟩) _

theorem checked_within {f : Schema → Work Failure α} (h : (f entity.schema).Within keys) :
    (Records.schema entity >>= f).Within keys := by
  refine .bind (.ofExcept _) fun s schema s' hrun => ?_
  obtain ⟨-, rfl, -⟩ := schema_ok hrun
  exact h

theorem insert_within : (insert settings entity key doc).Within
    fun touched => ∃ pk, entity.schema.Touches pk touched := by
  refine checked_within (.bind (.ofExcept _) fun _ pk _ _ => .bind load_within fun _ found _ _ => ?_)
  cases found with
  | some found => exact .throw _
  | none => exact .bind (.ofExcept _) fun _ _ _ _ => writeRecord_within.mono fun _ hkey => ⟨pk, hkey⟩

theorem update_within : (update settings entity key doc).Within
    fun touched => ∃ pk, entity.schema.Touches pk touched := by
  refine checked_within (.bind (.ofExcept _) fun _ pk _ _ => .bind load_within fun _ found _ _ => ?_)
  cases found with
  | none => exact .throw _
  | some found =>
    exact .bind (.ofExcept _) fun _ _ _ _ => writeRecord_within.mono fun _ hkey => ⟨pk, hkey⟩

theorem upsert_within : (upsert settings entity key doc).Within
    fun touched => ∃ pk, entity.schema.Touches pk touched :=
  checked_within <| .bind (.ofExcept _) fun _ pk _ _ => .bind load_within fun _ _ _ _ =>
    .bind (.ofExcept _) fun _ _ _ _ => writeRecord_within.mono fun _ hkey => ⟨pk, hkey⟩

theorem delete_within : (delete settings entity key).Within
    fun touched => ∃ pk, entity.schema.Touches pk touched := by
  refine checked_within (.bind (.ofExcept _) fun _ pk _ _ => .bind load_within fun _ found _ _ => ?_)
  cases found with
  | none => exact .throw _
  | some found => exact removeRecord_within.mono fun _ hkey => ⟨pk, hkey⟩

theorem updateRows_within {f : Nat → Document → Except Failure Document} (done : Nat)
    (rows : List Row) : (updateRows settings entity schema f done rows).Within
      fun touched => ∃ row ∈ rows, schema.Touches row.key touched := by
  induction rows generalizing done with
  | nil => exact .pure _
  | cons row rest ih =>
    refine .bind (.ofExcept _) fun _ _ _ _ => .bind (.ofExcept _) fun _ _ _ _ =>
      .bind (.ofExcept _) fun _ _ _ _ => .bind (writeRecord_within.mono fun _ hkey => ?_)
        fun _ _ _ _ => (ih (done + 1)).mono fun _ hkey => ?_
    · exact ⟨row, List.mem_cons_self, hkey⟩
    · obtain ⟨other, hother, hkey⟩ := hkey
      exact ⟨other, List.mem_cons_of_mem _ hother, hkey⟩

theorem deleteRows_within (rows : List Row) : (deleteRows settings schema rows).Within
    fun touched => ∃ row ∈ rows, schema.Touches row.key touched := by
  induction rows with
  | nil => exact .pure _
  | cons row rest ih =>
    refine .bind (removeRecord_within.mono fun _ hkey => ?_) fun _ _ _ _ => ih.mono fun _ hkey => ?_
    · exact ⟨row, List.mem_cons_self, hkey⟩
    · obtain ⟨other, hother, hkey⟩ := hkey
      exact ⟨other, List.mem_cons_of_mem _ hother, hkey⟩

end Records

def Sequence.counterKey (typeName : String) : Bytes := Key.encode (.sequence typeName)

theorem Sequence.next_within (typeName : String) :
    (next typeName).Within (· = counterKey typeName) := by
  refine .bind (.ofReading (.get _)) fun _ _ _ _ => .bind (.ofExcept _) fun _ _ _ _ =>
    .bind (.put ?_ _) fun _ _ _ _ => .pure _
  rfl

theorem Sequence.counterKey_ne_touched {schema : Schema} {pk : Bytes} (typeName : String) :
    ¬ schema.Touches pk (counterKey typeName) := by
  rintro (heq | ⟨spec, -, value, heq⟩)
  · have hhead := congrArg List.head? heq
    simp [counterKey, Records.recordKey, Key.encode, Key.recordPrefix, Key.recordTag, Key.sequenceTag]
      at hhead
  · have hhead := congrArg List.head? heq
    simp [counterKey, Index.entryAt, Key.encode, Key.indexPrefix, Key.indexTag, Key.sequenceTag]
      at hhead

namespace Mutation

def Draws : Mutation → Prop
  | .insertNext _ _ => True
  | _ => False

def MayWrite (m : Mutation) (key : Bytes) : Prop :=
  (∃ pk, m.entity.schema.Touches pk key) ∨
    m.Draws ∧ key = Sequence.counterKey m.entity.schema.typeName

theorem work_within (settings : Settings) (m : Mutation) : (m.work settings).Within m.MayWrite := by
  cases m with
  | insert entity key doc => exact Records.insert_within.mono fun _ => .inl
  | update entity key doc => exact Records.update_within.mono fun _ => .inl
  | upsert entity key doc => exact Records.upsert_within.mono fun _ => .inl
  | delete entity key => exact Records.delete_within.mono fun _ => .inl
  | insertNext entity doc =>
    refine .discard (Records.checked_within (.bind ?_ fun _ n _ _ => .bind (.ofExcept _)
      fun _ _ _ _ => .bind (Records.insert_within.mono fun _ => .inl) fun _ _ _ _ => .pure _))
    exact ((Sequence.next_within _).mono fun _ hkey => .inr ⟨trivial, hkey⟩).adapt _
  | updateMatching entity q f =>
    refine .discard (Records.checked_within (.bind (Records.findRows_within q) fun _ rows _ _ =>
      .bind ((Records.updateRows_within 0 rows).mono ?_) fun _ _ _ _ => .pure _))
    rintro _ ⟨row, -, hkey⟩
    exact .inl ⟨row.key, hkey⟩
  | deleteMatching entity q =>
    refine .discard (Records.checked_within (.bind (Records.findRows_within q) fun _ rows _ _ =>
      .bind ((Records.deleteRows_within rows).mono ?_) fun _ _ _ _ => .pure _))
    rintro _ ⟨row, -, hkey⟩
    exact .inl ⟨row.key, hkey⟩
  | removeIndex entity name =>
    refine .discard (Records.checked_within (.adapt (Index.remove_within fun spec hfind value => ?_) _))
    exact .inl ⟨[], .inr ⟨spec, List.mem_of_find?_eq_some hfind, value, rfl⟩⟩

/-- No operation but a drawing one writes a counter. -/
theorem work_spares_counters (settings : Settings) {m : Mutation} (h : ¬ m.Draws) :
    (m.work settings).Within fun key => ∀ typeName, key ≠ Sequence.counterKey typeName := by
  refine (m.work_within settings).mono fun key hkey typeName heq => ?_
  rcases hkey with ⟨pk, hkey⟩ | ⟨hdraws, -⟩
  · exact Sequence.counterKey_ne_touched typeName (heq ▸ hkey)
  · exact h hdraws

end Mutation

end DocStore
