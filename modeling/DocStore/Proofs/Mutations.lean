import DocStore.Proofs.Keeping

/-!
# Operations that change records

Each operation on records keeps up the indexes of all schemas (`Mutation.work_keeps`). The ones that
change all matches of a query change rows they have found before their first write, so they rely on
each row standing for another record, and on no write changing the rows still to come.
-/

namespace DocStore

inductive Mutation where
  | insert (entity : Entity) (key : PrimaryKey) (value : Document)
  | insertNext (entity : Entity) (value : Document)
  | update (entity : Entity) (key : PrimaryKey) (value : Document)
  | upsert (entity : Entity) (key : PrimaryKey) (value : Document)
  | delete (entity : Entity) (key : PrimaryKey)
  | updateMatching (entity : Entity) (q : Query Predicate)
      (f : Nat → Document → Except Failure Document)
  | deleteMatching (entity : Entity) (q : Query Predicate)
  | removeIndex (entity : Entity) (name : String)

namespace Mutation

def entity : Mutation → Entity
  | .insert entity _ _ | .insertNext entity _ | .update entity _ _ | .upsert entity _ _
  | .delete entity _ | .updateMatching entity _ _ | .deleteMatching entity _
  | .removeIndex entity _ => entity

/-- What a transaction does for it. The answers are left out. -/
def work (settings : Settings) : Mutation → Work Failure Unit
  | .insert entity key value => Records.insert settings entity key value
  | .insertNext entity value => discard (Records.insertNext settings entity value)
  | .update entity key value => Records.update settings entity key value
  | .upsert entity key value => Records.upsert settings entity key value
  | .delete entity key => Records.delete settings entity key
  | .updateMatching entity q f => discard (Records.updateMatching settings entity q f)
  | .deleteMatching entity q => discard (Records.deleteMatching settings entity q)
  | .removeIndex entity name => discard (Records.removeIndex entity name)

def Stores : Mutation → Document → Prop
  | .insert entity _ value, stored | .update entity _ value, stored
  | .upsert entity _ value, stored => entity.serialize value = .ok stored
  | .insertNext entity value, stored => ∃ n numbered,
    Records.numbered entity entity.schema n value = .ok numbered ∧
      entity.serialize numbered = .ok stored
  | .updateMatching entity _ f, stored => ∃ n old value,
    f n old = .ok value ∧ entity.serialize value = .ok stored
  | .delete _ _, _ | .deleteMatching _ _, _ | .removeIndex _ _, _ => False

def Names : Mutation → PrimaryKey → Prop
  | .insert _ key _, named | .update _ key _, named | .upsert _ key _, named => named = key
  | .insertNext _ _, named => ∃ n, named = .number n
  | .delete _ _, _ | .updateMatching _ _ _, _ | .deleteMatching _ _, _ | .removeIndex _ _, _ => False

def Puts (settings : Settings) : Mutation → Bytes → Document → Prop
  | .insert entity key value, pk, stored | .update entity key value, pk, stored
  | .upsert entity key value, pk, stored =>
    Records.encodeKey settings key = .ok pk ∧ entity.serialize value = .ok stored
  | .insertNext entity value, pk, stored => ∃ n numbered,
    Records.encodeKey settings (.number n) = .ok pk ∧
      Records.numbered entity entity.schema n value = .ok numbered ∧
        entity.serialize numbered = .ok stored
  | .updateMatching entity _ f, pk, stored => ∃ n bytes old value,
    Search.decodeRecord settings.codec entity.schema pk bytes = .ok old ∧ f n old = .ok value ∧
      entity.serialize value = .ok stored
  | .delete _ _, _, _ | .deleteMatching _ _, _, _ | .removeIndex _ _, _, _ => False

def Drops : Mutation → Schema → IndexSpec → Prop
  | .removeIndex entity name, schema, spec => entity.schema = schema ∧ name = spec.name
  | _, _, _ => False

end Mutation

/-- What callers promise about an operation: it is on a known schema, the codec restores the
documents, and keys are short enough to be listed. -/
structure Mutation.Admissible (m : Mutation) (settings : Settings) (schemas : List Schema) :
    Prop where
  known : m.entity.schema ∈ schemas
  restored : ∀ doc, m.Stores doc → settings.codec.Restores doc
  fits : ∀ key, m.Names key → ∀ pk, Records.encodeKey settings key = .ok pk → KeyList.Fits pk

/-- What the indexes rely on in an operation: it is on a known schema, the documents that it stores
settle under their keys, and keys are short enough to be listed. -/
structure Mutation.Settled (m : Mutation) (settings : Settings) (schemas : List Schema) : Prop where
  known : m.entity.schema ∈ schemas
  settles : ∀ pk doc, m.Puts settings pk doc → settings.codec.Settles m.entity.schema pk doc
  fits : ∀ key, m.Names key → ∀ pk, Records.encodeKey settings key = .ok pk → KeyList.Fits pk

theorem Mutation.Puts.stores {m : Mutation} {settings : Settings} {pk : Bytes} {doc : Document}
    (h : m.Puts settings pk doc) : m.Stores doc := by
  cases m with
  | insert | update | upsert => exact h.2
  | insertNext =>
    obtain ⟨n, numbered, -, hstored⟩ := h
    exact ⟨n, numbered, hstored⟩
  | updateMatching =>
    obtain ⟨n, _, old, value, -, hstored⟩ := h
    exact ⟨n, old, value, hstored⟩
  | delete | deleteMatching | removeIndex => exact h

theorem Mutation.Admissible.settled {m : Mutation} {settings : Settings} {schemas : List Schema}
    (h : m.Admissible settings schemas) (hcatalog : Catalog schemas)
    (hlistable : ∀ doc, m.Stores doc → settings.codec.Listable m.entity.schema doc) :
    m.Settled settings schemas := by
  refine ⟨h.known, fun _ doc hdoc => ?_, h.fits⟩
  exact hcatalog.settles h.known (hlistable doc hdoc.stores) (h.restored doc hdoc.stores)

variable {codec : Codec} {schema : Schema} {schemas : List Schema} {settings : Settings}
  {α : Type} {kept : Schema → IndexSpec → Prop} {base : Data} {t t' t'' : Transaction} {pk : Bytes}

-- ---------------------------------------------------------------------------
-- Operations on one record
-- ---------------------------------------------------------------------------

namespace Records

variable {entity : Entity} {key : PrimaryKey} {value : Document}

section

variable (h : t.Keeps settings.codec schemas kept base) (hdirectory : Directory schemas)
  (hschema : entity.schema ∈ schemas)
  (hdoc : ∀ pk doc, encodeKey settings key = .ok pk → entity.serialize value = .ok doc →
    settings.codec.Settles entity.schema pk doc)
  (hfits : ∀ pk, encodeKey settings key = .ok pk → KeyList.Fits pk)
include h hdirectory hschema hdoc hfits

theorem insert_keeps :
    Keeping settings.codec schemas kept base t (insert settings entity key value) := by
  refine h.checked (h.ofExcept fun pk hpk => h.load hschema fun found t' h' hread hold => ?_)
  cases found with
  | some found => exact h'.throw _
  | none => exact h'.storeRecord hschema hdirectory hread hold (hfits pk hpk) fun doc => hdoc pk doc hpk

theorem update_keeps :
    Keeping settings.codec schemas kept base t (update settings entity key value) := by
  refine h.checked (h.ofExcept fun pk hpk => h.load hschema fun found t' h' hread hold => ?_)
  cases found with
  | none => exact h'.throw _
  | some found =>
    exact h'.storeRecord hschema hdirectory hread hold (hfits pk hpk) fun doc => hdoc pk doc hpk

theorem upsert_keeps :
    Keeping settings.codec schemas kept base t (upsert settings entity key value) := by
  refine h.checked (h.ofExcept fun pk hpk => h.load hschema fun found t' h' hread hold => ?_)
  exact h'.storeRecord hschema hdirectory hread hold (hfits pk hpk) fun doc => hdoc pk doc hpk

end

theorem delete_keeps (h : t.Keeps settings.codec schemas kept base)
    (hdirectory : Directory schemas) (hschema : entity.schema ∈ schemas) :
    Keeping settings.codec schemas kept base t (delete settings entity key) := by
  refine h.checked (h.ofExcept fun pk hpk => h.load hschema fun found t' h' hread hold => ?_)
  cases found with
  | none => exact h'.throw _
  | some found =>
    intro events
    exact (h'.removeRecord hdirectory hschema hread hold events).mono (fun _ _ hpost => hpost.1)
      fun _ hfail => hfail

end Records

-- ---------------------------------------------------------------------------
-- Draws from a sequence
-- ---------------------------------------------------------------------------

theorem Sequence.next_spec (typeName : String) (events : List Event) :
    Triple (next typeName) ⟨t, events⟩
      (fun n s => t.readOnly = false ∧
        following typeName (t.view.get? (Key.encode (.sequence typeName))) = .ok n ∧
        s.txn = (t.recordReads [Key.encode (.sequence typeName)]).assign
          (Key.encode (.sequence typeName)) (some (Bytes.be 8 n)))
      (fun s => t.OnlyRead s.txn) := by
  have hget : Work.ofReading (ε := EngineError) (Reading.get (Key.encode (.sequence typeName)))
      ⟨t, events⟩ = (.ok (t.view.get? (Key.encode (.sequence typeName))),
        ⟨t.recordReads [Key.encode (.sequence typeName)], events⟩) := rfl
  refine Triple.bind_of_run hget (Work.triple_ofExcept (fun n hn => ?_) (.recordReads t _))
  cases hro : t.readOnly with
  | true =>
    have hro' : (t.recordReads [Key.encode (.sequence typeName)]).readOnly = true := hro
    exact Triple.bind_of_run_error (Index.put_readOnly hro' _ _ events) (.recordReads t _)
  | false =>
    have hw : (t.recordReads [Key.encode (.sequence typeName)]).readOnly = false := hro
    exact Triple.bind_of_run (Index.put_run hw _ _ events) (Triple.pure ⟨rfl, hn, rfl⟩)

theorem Transaction.Keeps.next (h : t.Keeps codec schemas kept base) (typeName : String) :
    Keeping codec schemas kept base t (Work.adapt .ofEngine (Sequence.next typeName)) := by
  intro events
  refine Work.triple_adapt ((Sequence.next_spec typeName events).mono ?_ fun s hread => ?_)
  · rintro n ⟨_, _⟩ ⟨hw, -, rfl⟩
    have hw' : (t.recordReads [Key.encode (.sequence typeName)]).readOnly = false := hw
    have hchanged : t.ChangedWithin (· = Key.encode (.sequence typeName))
        ((t.recordReads [Key.encode (.sequence typeName)]).assign
          (Key.encode (.sequence typeName)) (some (Bytes.be 8 n))) := by
      refine (Transaction.ChangedWithin.recordReads t _).trans (.assign hw' ?_ _)
      rfl
    refine h.changedWithin hchanged ?_ (fun schema pk heq => ?_) fun schema spec value heq => ?_
    · exact (h.covered.recordReads _).assign (by simp [Transaction.mem_reads_recordReads]) _
    · have hhead := congrArg List.head? heq
      simp [Records.recordKey, Key.encode, Key.recordPrefix, Key.recordTag, Key.sequenceTag] at hhead
    · have hhead := congrArg List.head? heq
      simp [Index.entryAt, Key.encode, Key.indexPrefix, Key.indexTag, Key.sequenceTag] at hhead
  · exact h.onlyRead hread

theorem Records.insertNext_keeps {entity : Entity} {value : Document}
    (h : t.Keeps settings.codec schemas kept base) (hdirectory : Directory schemas)
    (hschema : entity.schema ∈ schemas)
    (hdoc : ∀ n pk number doc, encodeKey settings (.number n) = .ok pk →
      numbered entity entity.schema n value = .ok number → entity.serialize number = .ok doc →
        settings.codec.Settles entity.schema pk doc)
    (hfits : ∀ n pk, encodeKey settings (.number n) = .ok pk → KeyList.Fits pk) :
    Keeping settings.codec schemas kept base t (insertNext settings entity value) := by
  refine h.checked fun events => (h.next entity.schema.typeName events).bind fun n s hs => ?_
  refine (hs.keeps.ofExcept fun number hnumber events => ?_).after hs s.events
  refine (insert_keeps hs.keeps hdirectory hschema
    (fun pk doc hpk => hdoc n pk number doc hpk hnumber) (hfits n) events).bind fun _ s' hs' => ?_
  exact Triple.pure hs'

-- ---------------------------------------------------------------------------
-- Operations on all matches
-- ---------------------------------------------------------------------------

theorem Entity.read_ok {entity : Entity} {doc found : Document} (h : entity.read doc = .ok found) :
    found = doc := by
  unfold read at h
  split at h
  · cases h
  · exact (Except.ok.inj h).symm

/-- Rows that stand for different records as they are in the transaction, which has read them. -/
structure Transaction.Holding (t : Transaction) (codec : Codec) (schema : Schema)
    (rows : List Row) : Prop where
  distinct : (rows.map Row.key).Nodup
  read : ∀ row ∈ rows, Records.recordKey schema row.key ∈ t.reads
  current : ∀ row ∈ rows, t.view.ReadAs codec schema row.key (some row.doc)
  decoded : ∀ row ∈ rows, ∃ bytes, Search.decodeRecord codec schema row.key bytes = .ok row.doc

theorem Transaction.Holding.tail {row : Row} {rest : List Row}
    (h : t.Holding codec schema (row :: rest)) (hreads : ∀ key ∈ t.reads, key ∈ t'.reads)
    (hsame : ∀ other, other ≠ row.key → t'.view.get? (Records.recordKey schema other) =
      t.view.get? (Records.recordKey schema other)) :
    t'.Holding codec schema rest := by
  have hdistinct := List.nodup_cons.mp h.distinct
  refine ⟨hdistinct.2, fun other hother => ?_, fun other hother => ?_, fun other hother => ?_⟩
  · exact hreads _ (h.read other (List.mem_cons_of_mem _ hother))
  · have hne : other.key ≠ row.key := fun heq =>
      hdistinct.1 (heq ▸ List.mem_map_of_mem hother)
    obtain ⟨doc, hdoc, hfields⟩ := h.current other (List.mem_cons_of_mem _ hother)
    refine ⟨doc, ?_, hfields⟩
    simpa only [Data.Holds, hsame other.key hne] using hdoc
  · exact h.decoded other (List.mem_cons_of_mem _ hother)

theorem Records.findRows_spec (schema : Schema) (q : Query Predicate) (s : Session) :
    Triple (findRows settings schema q) s
      (fun rows s' => s.txn.OnlyRead s'.txn ∧
        let scene : Scene := ⟨s.txn.view, settings.codec, settings.batchSize⟩
        Search.RowsFound scene schema (q.ready scene).branches s'.txn.reads rows)
      (fun s' => s.txn.OnlyRead s'.txn) := by
  let scene : Scene := ⟨s.txn.view, settings.codec, settings.batchSize⟩
  let search := Search.findRows scene schema (q.ready scene)
  let trail : Trail := ⟨s.txn.reads, s.events, .start⟩
  have hsteady := q.ready_steady scene
  have hrun : findRows settings schema q s =
      ((search trail).1, ⟨{ s.txn with reads := (search trail).2.reads }, (search trail).2.events⟩) := rfl
  have hread : s.txn.OnlyRead { s.txn with reads := (search trail).2.reads } := by
    obtain ⟨reads, hreads⟩ := (Search.findRows_steady hsteady).reads trail
    refine ⟨reads.reverse, ?_⟩
    rw [Transaction.recordReads, List.reverse_reverse]
    exact congrArg (fun reads => { s.txn with reads }) hreads.symm
  cases hrows : (search trail).1 with
  | error e =>
    rw [hrows] at hrun
    exact Triple.of_run_error hrun hread
  | ok rows =>
    rw [hrows] at hrun
    exact Triple.of_run hrun ⟨hread, Search.findRows_found hsteady trail hrows⟩

namespace Transaction.Keeps

variable (h : t.Keeps settings.codec schemas kept base) (hschema : schema ∈ schemas)
include h hschema

theorem holding {branches : List (Query Test)} {rows : List Row} (hread : t.OnlyRead t')
    (hfound : Search.RowsFound ⟨t.view, settings.codec, settings.batchSize⟩ schema branches
      t'.reads rows) :
    t'.Holding settings.codec schema rows := by
  refine ⟨hfound.distinct, fun row hrow => (hfound.found row hrow).read, fun row hrow => ?_,
    fun row hrow => ?_⟩
  all_goals obtain ⟨bytes, hget, hdecode⟩ := (hfound.found row hrow).stored
  · obtain ⟨reads, rfl⟩ := hread
    exact (h.upholds schema hschema).view.readAs hget hdecode
  · exact ⟨bytes, hdecode⟩

/-- The rows of a search stay as it has found them. -/
theorem findRows {q : Query Predicate} {f : List Row → Work Failure α}
    (hf : ∀ rows t', t'.Keeps settings.codec schemas kept base →
      t'.Holding settings.codec schema rows → Keeping settings.codec schemas kept base t' (f rows)) :
    Keeping settings.codec schemas kept base t (Records.findRows settings schema q >>= f) := by
  intro events
  refine Triple.bind ((Records.findRows_spec schema q ⟨t, events⟩).mono (fun _ _ hpost => hpost)
    fun s hread => h.onlyRead hread) ?_
  rintro rows ⟨t', events'⟩ ⟨hread, hfound⟩
  have hadvanced := h.onlyRead hread
  exact (hf rows t' hadvanced.keeps (h.holding hschema hread hfound)).after hadvanced events'

theorem updateRows (hdirectory : Directory schemas) {entity : Entity}
    {f : Nat → Document → Except Failure Document} {rows : List Row}
    (hrows : t.Holding settings.codec schema rows) (done : Nat)
    (hdoc : ∀ k row value doc, rows[k]? = some row → f (done + k) row.doc = .ok value →
      entity.serialize value = .ok doc → settings.codec.Settles schema row.key doc) :
    Keeping settings.codec schemas kept base t
      (Records.updateRows settings entity schema f done rows) := by
  induction rows generalizing t done with
  | nil => exact h.pure _
  | cons row rest ih =>
    have hcurrent := hrows.current row List.mem_cons_self
    have hfits : KeyList.Fits row.key := by
      obtain ⟨doc, ⟨bytes, hget, -⟩, -⟩ := hcurrent
      exact (h.upholds schema hschema).view.fit row.key bytes hget
    refine h.ofExcept fun found hfound => h.ofExcept fun value hvalue =>
      h.ofExcept fun record hrecord => ?_
    cases Entity.read_ok hfound
    obtain ⟨hwritten, hbytes⟩ := Records.encodeRecord_eq_ok_iff.mp hrecord
    have hsettles : settings.codec.Settles schema row.key record.1 :=
      hdoc 0 row value record.1 rfl hvalue hwritten
    intro events
    refine (h.writeRecord hdirectory hschema (hrows.read row List.mem_cons_self) hcurrent hfits
      (hsettles record.2 hbytes) events).bind ?_
    rintro _ s ⟨hadvanced, hsame⟩
    -- The other rows were collected before this write, which has left their records alone.
    refine (ih hadvanced.keeps (hrows.tail hadvanced.changed.reads hsame) (done + 1)
      fun k other value doc hother hdone => ?_).after hadvanced s.events
    exact hdoc (k + 1) other value doc hother (by rwa [← Nat.add_assoc, Nat.add_right_comm])

theorem deleteRows (hdirectory : Directory schemas) {rows : List Row}
    (hrows : t.Holding settings.codec schema rows) :
    Keeping settings.codec schemas kept base t (Records.deleteRows settings schema rows) := by
  induction rows generalizing t with
  | nil => exact h.pure _
  | cons row rest ih =>
    intro events
    refine (h.removeRecord hdirectory hschema (hrows.read row List.mem_cons_self)
      (hrows.current row List.mem_cons_self) events).bind ?_
    rintro _ s ⟨hadvanced, hsame⟩
    exact (ih hadvanced.keeps (hrows.tail hadvanced.changed.reads hsame)).after hadvanced s.events

end Transaction.Keeps

namespace Records

variable {entity : Entity} {q : Query Predicate}

theorem updateMatching_keeps {f : Nat → Document → Except Failure Document}
    (h : t.Keeps settings.codec schemas kept base) (hdirectory : Directory schemas)
    (hschema : entity.schema ∈ schemas)
    (hdoc : ∀ n pk bytes old value doc,
      Search.decodeRecord settings.codec entity.schema pk bytes = .ok old → f n old = .ok value →
        entity.serialize value = .ok doc → settings.codec.Settles entity.schema pk doc) :
    Keeping settings.codec schemas kept base t (updateMatching settings entity q f) := by
  refine h.checked (h.findRows hschema fun rows t' h' hrows events => ?_)
  refine (h'.updateRows hschema hdirectory hrows 0 (fun k row value doc hrow hvalue => ?_) events).bind
    fun _ s hs => Triple.pure hs
  obtain ⟨bytes, hdecoded⟩ := hrows.decoded row (List.mem_of_getElem? hrow)
  exact hdoc _ row.key bytes row.doc value doc hdecoded hvalue

theorem deleteMatching_keeps (h : t.Keeps settings.codec schemas kept base)
    (hdirectory : Directory schemas) (hschema : entity.schema ∈ schemas) :
    Keeping settings.codec schemas kept base t (deleteMatching settings entity q) := by
  refine h.checked (h.findRows hschema fun rows t' h' hrows events => ?_)
  refine (h'.deleteRows hschema hdirectory hrows events).bind fun _ s hs => ?_
  exact Triple.pure hs

end Records

-- ---------------------------------------------------------------------------
-- Dropping an index
-- ---------------------------------------------------------------------------

namespace Index

theorem deleteAll_spec (keys : List Bytes) (hcovered : t.Covered)
    (hread : ∀ key ∈ keys, key ∈ t.reads) (events : List Event) :
    Triple (deleteAll keys) ⟨t, events⟩
      (fun _ s => t.ChangedWithin (· ∈ keys) s.txn ∧ s.txn.Covered ∧
        ∀ key, s.txn.view.get? key = t.view.get? key ∨ s.txn.view.get? key = none)
      (fun s => t.readOnly = true ∧ t.OnlyRead s.txn) := by
  induction keys generalizing t with
  | nil => exact Triple.pure ⟨.refl t, hcovered, fun key => .inl rfl⟩
  | cons key rest ih =>
    cases hro : t.readOnly with
    | true => exact Triple.bind_of_run_error (delete_readOnly hro key events) ⟨rfl, .refl t⟩
    | false =>
      have hhead : t.ChangedWithin (· ∈ key :: rest) (t.assign key none) :=
        .assign hro List.mem_cons_self none
      have hcovered' := hcovered.assign (hread key List.mem_cons_self) none
      have hread' : ∀ other ∈ rest, other ∈ (t.assign key none).reads := fun other hother =>
        hread other (List.mem_cons_of_mem _ hother)
      refine Triple.bind_of_run (delete_run hro key events) ((ih hcovered' hread').mono ?_ ?_)
      · rintro _ s ⟨hchanged, hlast, hview⟩
        refine ⟨hhead.trans (hchanged.mono fun other hother => List.mem_cons_of_mem _ hother), hlast,
          fun other => ?_⟩
        rcases hview other with hsame | hnone
        · rw [hsame, Transaction.view_assign]
          split
          · exact .inr rfl
          · exact .inl rfl
        · exact .inr hnone
      · rintro s ⟨hro', -⟩
        exact absurd hro' (by simp [hro])

end Index

theorem Transaction.Keeps.removeIndex (h : t.Keeps codec schemas kept base)
    (hdirectory : Directory schemas) (hschema : schema ∈ schemas) {name : String}
    (hdropped : ∀ spec ∈ schema.indexes, spec.name = name → ¬ kept schema spec) :
    Keeping codec schemas kept base t (Work.adapt .ofEngine (Index.remove schema name)) := by
  refine fun events => Work.triple_adapt ?_
  unfold Index.remove
  cases hfind : schema.findIndex name with
  | none => exact Triple.throw (h.onlyRead (.refl t))
  | some spec =>
    have hspec : spec ∈ schema.indexes := List.mem_of_find?_eq_some hfind
    have hname : spec.name = name := by simpa using List.find?_some hfind
    let found := t.view.scan (Key.indexPrefix schema.typeName spec.name)
    let t' := t.recordReads (found.map Prod.fst)
    have hentry : ∀ key ∈ found.map Prod.fst, ∃ value, key = Index.entryAt schema spec value := by
      intro key hkey
      obtain ⟨pair, hpair, rfl⟩ := List.mem_map.mp hkey
      obtain ⟨value, hvalue⟩ := (Data.mem_of_mem_scan hpair).2
      exact ⟨value, hvalue.symm⟩
    have hscan : Work.ofReading (ε := EngineError)
        (Reading.scan (Key.indexPrefix schema.typeName spec.name)) ⟨t, events⟩ =
          (.ok found, ⟨t', events⟩) := rfl
    have hadvanced := h.onlyRead (.recordReads t (found.map Prod.fst))
    have hread : ∀ key ∈ found.map Prod.fst, key ∈ t'.reads := fun key hkey =>
      (Transaction.mem_reads_recordReads _ key).mpr (.inl hkey)
    -- Only keys that the scan has read are deleted, all of them entries of this index.
    refine Triple.bind_of_run hscan
      (((Index.deleteAll_spec _ hadvanced.keeps.covered hread events).mono (fun _ _ hpost => hpost)
        fun s hfail => hadvanced.trans (hadvanced.keeps.onlyRead hfail.2)).bind ?_)
    rintro _ s ⟨hchanged, hcovered, hgone⟩
    have hlast := hadvanced.keeps.dropped hdirectory hschema hspec (hdropped spec hspec hname)
      (hchanged.mono hentry) hcovered fun value => hgone _
    exact hadvanced.trans hlast

-- ---------------------------------------------------------------------------
-- All of them
-- ---------------------------------------------------------------------------

/-- Whatever an operation does and however it ends, the transaction keeps up all indexes, except
that an index it drops need no longer be complete. -/
theorem Mutation.work_keeps {m : Mutation} (h : t.Keeps settings.codec schemas kept base)
    (hdirectory : Directory schemas) (hm : m.Settled settings schemas)
    (hdropped : ∀ schema spec, m.Drops schema spec → ¬ kept schema spec) :
    Keeping settings.codec schemas kept base t (m.work settings) := by
  cases m with
  | insert entity key value =>
    exact Records.insert_keeps h hdirectory hm.known
      (fun pk doc hpk hdoc => hm.settles pk doc ⟨hpk, hdoc⟩) (hm.fits key rfl)
  | insertNext entity value =>
    exact (Records.insertNext_keeps h hdirectory hm.known
      (fun n pk number doc hpk hnumber hdoc => hm.settles pk doc ⟨n, number, hpk, hnumber, hdoc⟩)
      fun n => hm.fits (.number n) ⟨n, rfl⟩).discard
  | update entity key value =>
    exact Records.update_keeps h hdirectory hm.known
      (fun pk doc hpk hdoc => hm.settles pk doc ⟨hpk, hdoc⟩) (hm.fits key rfl)
  | upsert entity key value =>
    exact Records.upsert_keeps h hdirectory hm.known
      (fun pk doc hpk hdoc => hm.settles pk doc ⟨hpk, hdoc⟩) (hm.fits key rfl)
  | delete entity key => exact Records.delete_keeps h hdirectory hm.known
  | updateMatching entity q f =>
    exact (Records.updateMatching_keeps h hdirectory hm.known
      fun n pk bytes old value doc hold hvalue hdoc =>
        hm.settles pk doc ⟨n, bytes, old, value, hold, hvalue, hdoc⟩).discard
  | deleteMatching entity q =>
    exact (Records.deleteMatching_keeps h hdirectory hm.known).discard
  | removeIndex entity name =>
    refine Keeping.discard (h.checked (h.removeIndex hdirectory hm.known fun spec hspec hname => ?_))
    exact hdropped entity.schema spec ⟨rfl, hname.symm⟩

end DocStore
