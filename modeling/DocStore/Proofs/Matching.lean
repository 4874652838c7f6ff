import DocStore.Proofs.Collection
import DocStore.Proofs.Footprint
import DocStore.Proofs.Settling

/-!
# Changing all matches

An operation on all matches of a query changes the rows that the query has found before the first
write, each of them once, and no other record (`Turn.matching_exact`). What it writes may lie in the
way of the scan that has found the rows, or in an index entry that several of them share: the rows are
collected by then, and each write takes out of the entries what its own row has put there.

That the rows are changed as they should does not depend on the data. That the indexes mirror the
records again rests on documents keeping their index values when they are stored.
-/

namespace DocStore

variable {settings : Settings} {schema : Schema} {entity : Entity}
  {f g : Nat → Document → Except Failure Document} {rows : List Row} {s s' : Session} {done n : Nat}

-- ---------------------------------------------------------------------------
-- One row
-- ---------------------------------------------------------------------------

def Schema.IsEntry (schema : Schema) (key : Bytes) : Prop :=
  ∃ spec ∈ schema.indexes, ∃ value, key = Index.entryAt schema spec value

namespace Records

theorem recordKey_inj_key {pk other : Bytes} (h : recordKey schema pk = recordKey schema other) :
    pk = other :=
  List.append_cancel_left h

theorem not_isEntry (pk : Bytes) : ¬ schema.IsEntry (recordKey schema pk) := by
  rintro ⟨spec, -, value, heq⟩
  exact recordKey_ne_entryAt pk spec value heq

theorem not_touched {pk : Bytes} (h : pk ∉ rows.map Row.key) :
    ¬ ∃ row ∈ rows, schema.Touches row.key (recordKey schema pk) := by
  rintro ⟨row, hrow, heq | hentry⟩
  · exact h (recordKey_inj_key heq ▸ List.mem_map_of_mem hrow)
  · exact not_isEntry pk hentry

theorem put_ok {key value : Bytes} {u : Unit} (h : Work.put key value s = (.ok u, s')) :
    s' = ⟨s.txn.assign key (some value), s.events⟩ := by
  cases hro : s.txn.readOnly with
  | true =>
    rw [Index.put_readOnly hro key value s.events] at h
    cases h
  | false =>
    rw [Index.put_run hro key value s.events] at h
    exact (Prod.mk.inj h).2.symm

theorem delete_ok {key : Bytes} {u : Unit} (h : Work.delete key s = (.ok u, s')) :
    s' = ⟨s.txn.assign key none, s.events⟩ := by
  cases hro : s.txn.readOnly with
  | true =>
    rw [Index.delete_readOnly hro key s.events] at h
    cases h
  | false =>
    rw [Index.delete_run hro key s.events] at h
    exact (Prod.mk.inj h).2.symm

/-- What is put under a record's key is not overwritten by its entries. -/
theorem writeRecord_ok {pk bytes : Bytes} {old : Option Document} {doc : Document}
    (h : writeRecord settings schema pk old doc bytes s = (.ok (), s')) :
    s'.txn.view.get? (recordKey schema pk) = some bytes := by
  rw [writeRecord_eq] at h
  obtain ⟨_, checked, -, h⟩ := run_bind_ok (Work.adapt_ok h)
  obtain ⟨_, left, -, h⟩ := run_bind_ok h
  obtain ⟨_, stored, hput, hadd⟩ := run_bind_ok h
  have hentries : (Index.add settings.codec schema pk doc).Within schema.IsEntry :=
    Index.addIn_within fun spec hspec value => ⟨spec, hspec, value, rfl⟩
  have hlast := hentries stored
  rw [hadd] at hlast
  rw [hlast.view _ (not_isEntry pk), put_ok hput, Transaction.view_assign, if_pos rfl]

theorem removeRecord_ok {pk : Bytes} {doc : Document}
    (h : removeRecord settings schema pk doc s = (.ok (), s')) :
    s'.txn.view.get? (recordKey schema pk) = none := by
  obtain ⟨_, removed, hdelete, hleave⟩ := run_bind_ok (Work.adapt_ok h)
  have hentries : (Index.delete settings.codec schema pk doc).Within schema.IsEntry :=
    Index.deleteIn_within fun spec hspec value => ⟨spec, hspec, value, rfl⟩
  have hlast := hentries removed
  rw [hleave] at hlast
  rw [hlast.view _ (not_isEntry pk), delete_ok hdelete, Transaction.view_assign, if_pos rfl]

end Records

-- ---------------------------------------------------------------------------
-- All rows
-- ---------------------------------------------------------------------------

/-- The records of the rows hold what `f` has made of their documents. The callback is told how many
rows went before. -/
def Records.Rewritten (settings : Settings) (entity : Entity)
    (f : Nat → Document → Except Failure Document) (done : Nat) (rows : List Row) (data : Data) :
    Prop :=
  ∀ k row, rows[k]? = some row → ∃ value doc bytes, f (done + k) row.doc = .ok value ∧
    entity.serialize value = .ok doc ∧ settings.codec.encode doc.toValue = .ok bytes ∧
      data.get? (recordKey entity.schema row.key) = some bytes

/-- None but the rows' records and entries of the schema's indexes differ. -/
def Schema.ChangedAt (schema : Schema) (rows : List Row) (data data' : Data) : Prop :=
  ∀ key, (∀ row ∈ rows, key ≠ Records.recordKey schema row.key) → ¬ schema.IsEntry key →
    data'.get? key = data.get? key

theorem Schema.ChangedAt.of_changedWithin {t t' : Transaction}
    (h : t.ChangedWithin (fun key => ∃ row ∈ rows, schema.Touches row.key key) t') :
    schema.ChangedAt rows t.view t'.view := by
  refine fun key hrows hentry => h.view key ?_
  rintro ⟨row, hrow, hkey | hkey⟩
  · exact hrows row hrow hkey
  · exact hentry hkey

theorem Schema.ChangedAt.record {data data' : Data} (h : schema.ChangedAt rows data data')
    (hnamed : schema.Named) {other : Schema} (hother : other.Named) {pk : Bytes}
    (hpk : other.typeName = schema.typeName → pk ∉ rows.map Row.key) :
    data'.get? (Records.recordKey other pk) = data.get? (Records.recordKey other pk) := by
  refine h _ (fun row hrow heq => ?_) ?_
  · obtain ⟨hname, hkey⟩ := Records.recordKey_inj hother hnamed heq
    exact hpk hname (hkey ▸ List.mem_map_of_mem hrow)
  · rintro ⟨spec, -, value, heq⟩
    exact Records.recordKey_ne_entryAt pk spec value heq

namespace Records

theorem updateRows_ok (hdistinct : (rows.map Row.key).Nodup)
    (h : updateRows settings entity entity.schema f done rows s = (.ok (), s')) :
    Rewritten settings entity f done rows s'.txn.view ∧
      (rows.mapM fun row => entity.read row.doc) = .ok (rows.map Row.doc) := by
  induction rows generalizing done s with
  | nil => exact ⟨fun k row hrow => by simp at hrow, rfl⟩
  | cons row rest ih =>
    obtain ⟨hnew, hdistinct⟩ := List.nodup_cons.mp hdistinct
    obtain ⟨found, _, hread, h⟩ := run_bind_ok h
    obtain ⟨value, _, hvalue, h⟩ := run_bind_ok h
    obtain ⟨⟨doc, bytes⟩, _, hrecord, h⟩ := run_bind_ok h
    obtain ⟨_, written, hwrite, hrest⟩ := run_bind_ok h
    have hread : entity.read row.doc = .ok found := (Prod.mk.inj hread).1
    have hvalue : f done found = .ok value := (Prod.mk.inj hvalue).1
    obtain ⟨hdoc, hbytes⟩ := encodeRecord_eq_ok_iff.mp (Prod.mk.inj hrecord).1
    cases Entity.read_ok hread
    obtain ⟨hrewritten, hreads⟩ := ih hdistinct hrest
    -- The writes that follow are to other records, so what was put under this key stays.
    have hwithin : (updateRows settings entity entity.schema f (done + 1) rest).Within _ :=
      updateRows_within (done + 1) rest
    have hkept := hwithin written
    rw [hrest] at hkept
    have hhead : s'.txn.view.get? (recordKey entity.schema row.key) = some bytes := by
      rw [hkept.view _ (not_touched hnew), writeRecord_ok hwrite]
    refine ⟨fun k row' hrow' => ?_, ?_⟩
    · cases k with
      | zero =>
        cases hrow'
        exact ⟨value, doc, bytes, hvalue, hdoc, hbytes, hhead⟩
      | succ k =>
        rw [← Nat.add_assoc, Nat.add_right_comm]
        exact hrewritten k row' hrow'
    · rw [List.mapM_cons, hread, hreads]
      rfl

theorem updateRows_congr (h : ∀ k row, rows[k]? = some row → g (done + k) row.doc = f (done + k) row.doc) :
    updateRows settings entity schema g done rows = updateRows settings entity schema f done rows := by
  induction rows generalizing done with
  | nil => rfl
  | cons row rest ih =>
    have hrest := ih fun k row' hrow' => by
      have hnext := h (k + 1) row' hrow'
      rwa [← Nat.add_assoc, Nat.add_right_comm] at hnext
    simp only [updateRows, hrest]
    cases hread : entity.read row.doc with
    | error e => rfl
    | ok value =>
      cases Entity.read_ok hread
      have hhead : g done row.doc = f done row.doc := h 0 row rfl
      funext session
      simp only [run_bind, Work.ofExcept, hhead]

theorem deleteRows_ok (hdistinct : (rows.map Row.key).Nodup)
    (h : deleteRows settings schema rows s = (.ok (), s')) :
    ∀ row ∈ rows, s'.txn.view.get? (recordKey schema row.key) = none := by
  induction rows generalizing s with
  | nil => simp
  | cons row rest ih =>
    obtain ⟨hnew, hdistinct⟩ := List.nodup_cons.mp hdistinct
    obtain ⟨_, removed, hremove, hrest⟩ := run_bind_ok h
    have hwithin : (deleteRows settings schema rest).Within _ := deleteRows_within rest
    have hkept := hwithin removed
    rw [hrest] at hkept
    refine List.forall_mem_cons.mpr ⟨?_, ih hdistinct hrest⟩
    rw [hkept.view _ (not_touched hnew), removeRecord_ok hremove]

end Records

-- ---------------------------------------------------------------------------
-- All matches
-- ---------------------------------------------------------------------------

variable {q : Query Predicate}

/-- The rows that a query has in a session: stored records, each of them once. -/
structure Records.Matches (settings : Settings) (entity : Entity) (q : Query Predicate) (s : Session)
    (rows : List Row) : Prop where
  found : (findRows settings entity.schema q s).1 = .ok rows
  returned : (find settings entity q s).1 = rows.mapM fun row => entity.read row.doc
  stored : ∀ row ∈ rows, row.Stored (scene settings s) entity.schema
  distinct : (rows.map Row.key).Nodup

namespace Records

theorem matches_of_found (hcheck : entity.schema.check = .ok ())
    (hfound : findRows settings entity.schema q s = (.ok rows, s')) :
    Matches settings entity q s rows := by
  obtain ⟨-, hrows⟩ := (findRows_spec entity.schema q s).post_of_run hfound
  refine ⟨by rw [hfound], ?_, fun row hrow => (hrows.found row hrow).stored, hrows.distinct⟩
  simp only [find, run_bind, schema_run hcheck, hfound, Work.ofExcept]

theorem changeRows_ok {change : Schema → List Row → Work Failure Unit}
    (h : (do
      let schema ← Records.schema entity
      let rows ← findRows settings schema q
      change schema rows
      pure rows.length : Work Failure Nat) s = (.ok n, s')) :
    ∃ rows mid, entity.schema.check = .ok () ∧
      findRows settings entity.schema q s = (.ok rows, mid) ∧
      change entity.schema rows mid = (.ok (), s') ∧ n = rows.length := by
  obtain ⟨checked, _, hschema, hsearch⟩ := run_bind_ok h
  obtain ⟨hcheck, rfl, rfl⟩ := schema_ok hschema
  obtain ⟨rows, mid, hfound, hrows⟩ := run_bind_ok hsearch
  obtain ⟨_, last, hchange, hcount⟩ := run_bind_ok hrows
  cases hcount
  exact ⟨rows, mid, hcheck, hfound, hchange, rfl⟩

theorem updateMatching_congr (hcheck : entity.schema.check = .ok ())
    (hfound : findRows settings entity.schema q s = (.ok rows, s'))
    (h : ∀ k row, rows[k]? = some row → g k row.doc = f k row.doc) :
    updateMatching settings entity q g s = updateMatching settings entity q f s := by
  have hrows : updateRows settings entity entity.schema g 0 rows =
      updateRows settings entity entity.schema f 0 rows :=
    updateRows_congr fun k row hrow => by rw [Nat.zero_add, h k row hrow]
  simp only [updateMatching, run_bind, schema_run hcheck, hfound, hrows]

end Records

def Data.SparedBy (schema : Schema) (rows : List Row) (data data' : Data) : Prop :=
  ∀ other : Schema, other.check = .ok () → ∀ pk,
    (other.typeName = schema.typeName → pk ∉ rows.map Row.key) →
      data'.get? (Records.recordKey other pk) = data.get? (Records.recordKey other pk)

theorem Data.SparedBy.of_changedWithin {t t' t'' : Transaction} (hcheck : schema.check = .ok ())
    (hread : t.OnlyRead t')
    (h : t'.ChangedWithin (fun key => ∃ row ∈ rows, schema.Touches row.key key) t'') :
    Data.SparedBy schema rows t.view t''.view := by
  obtain ⟨reads, rfl⟩ := hread
  intro other hother pk hpk
  exact (Schema.ChangedAt.of_changedWithin h).record (Schema.named_of_check hcheck)
    (Schema.named_of_check hother) hpk

namespace Turn

open Interleaving

variable {turns : List Turn} {schemas : List Schema} {id : Nat} {o : Open (List Event)}

/-- Work on the rows of a search leaves all indexes as mirrors that were mirrors before, if it keeps
up the indexes. -/
theorem mirrors_after (hdirectory : Directory schemas)
    (hturns : ∀ id m, .change id m ∈ turns → m.Settled settings schemas)
    (ho : (reached settings turns).opened.get? id = some o) (hschema : schema ∈ schemas) {mid : Session}
    (hfound : Records.findRows settings schema q ⟨o.txn, o.note⟩ = (.ok rows, mid))
    {w : Work Failure Unit} (hw : mid.txn.Keeps settings.codec schemas (Spare turns) o.base →
      mid.txn.Holding settings.codec schema rows →
        Keeping settings.codec schemas (Spare turns) o.base mid.txn w)
    {after : Session} (hrun : w mid = (.ok (), after)) :
    ∀ schema ∈ schemas, ∀ spec ∈ schema.indexes, Spare turns schema spec →
      after.txn.view.Mirrors settings.codec schema spec := by
  have hopen := (kept_of_settled hdirectory hturns).opened id o ho
  obtain ⟨hread, hrows⟩ := (Records.findRows_spec schema q ⟨o.txn, o.note⟩).post_of_run hfound
  have hkeeping := hw (hopen.onlyRead hread).keeps (hopen.holding hschema hread hrows)
  have hadvanced := (hkeeping mid.events).post_of_run hrun
  intro other hother spec hspec hspare
  exact (hadvanced.keeps.upholds other hother).view.mirrors hspec hspare

/-- An operation on all matches changes the rows that `find` returns, all of them and no other record
of any type. An update asks the callback once about each, in their order, and stores what it returns.
In both cases an index that mirrored the records does so again, as long as what is stored settles. -/
theorem matching_exact (settings : Settings) (turns : List Turn) {id : Nat} {o : Open (List Event)}
    (ho : (reached settings turns).opened.get? id = some o) (entity : Entity) (q : Query Predicate) :
    let before : Session := ⟨o.txn, o.note⟩
    let mirrored := fun (schemas : List Schema) (view : Data) => ∀ schema ∈ schemas,
      ∀ spec ∈ schema.indexes, Spare turns schema spec → view.Mirrors settings.codec schema spec
    (∀ f n after, Records.updateMatching settings entity q f before = (.ok n, after) →
      ∃ rows, Records.Matches settings entity q before rows ∧ n = rows.length ∧
        (Records.find settings entity q before).1 = .ok (rows.map Row.doc) ∧
        (∀ g, (∀ k row, rows[k]? = some row → g k row.doc = f k row.doc) →
          Records.updateMatching settings entity q g before = (.ok n, after)) ∧
        Records.Rewritten settings entity f 0 rows after.txn.view ∧
        Data.SparedBy entity.schema rows o.txn.view after.txn.view ∧
        ∀ schemas, Directory schemas → entity.schema ∈ schemas →
          (∀ id m, .change id m ∈ turns → m.Settled settings schemas) →
          (∀ k row value doc, rows[k]? = some row → f k row.doc = .ok value →
            entity.serialize value = .ok doc → settings.codec.Settles entity.schema row.key doc) →
          mirrored schemas after.txn.view) ∧
    (∀ n after, Records.deleteMatching settings entity q before = (.ok n, after) →
      ∃ rows, Records.Matches settings entity q before rows ∧ n = rows.length ∧
        (∀ row ∈ rows, after.txn.view.get? (Records.recordKey entity.schema row.key) = none) ∧
        Data.SparedBy entity.schema rows o.txn.view after.txn.view ∧
        ∀ schemas, Directory schemas → entity.schema ∈ schemas →
          (∀ id m, .change id m ∈ turns → m.Settled settings schemas) →
          mirrored schemas after.txn.view) := by
  intro before mirrored
  constructor
  · intro f n after h
    obtain ⟨rows, mid, hcheck, hfound, hupdate, rfl⟩ := Records.changeRows_ok h
    obtain ⟨hread, hrows⟩ := (Records.findRows_spec entity.schema q before).post_of_run hfound
    have hmatches := Records.matches_of_found hcheck hfound
    obtain ⟨hrewritten, hreads⟩ := Records.updateRows_ok hmatches.distinct hupdate
    have hwithin : (Records.updateRows settings entity entity.schema f 0 rows).Within _ :=
      Records.updateRows_within 0 rows
    have hchanged := hwithin mid
    rw [hupdate] at hchanged
    refine ⟨rows, hmatches, rfl, hmatches.returned.trans hreads, fun g hg => ?_, hrewritten,
      .of_changedWithin hcheck hread hchanged, fun schemas hdirectory hschema hturns hdoc => ?_⟩
    · rw [Records.updateMatching_congr hcheck hfound hg, h]
    · refine mirrors_after hdirectory hturns ho hschema hfound (fun hkeeps hholding => ?_) hupdate
      exact hkeeps.updateRows hschema hdirectory hholding 0 fun k row value doc hrow hvalue =>
        hdoc k row value doc hrow (by rwa [Nat.zero_add] at hvalue)
  · intro n after h
    obtain ⟨rows, mid, hcheck, hfound, hdelete, rfl⟩ := Records.changeRows_ok h
    obtain ⟨hread, hrows⟩ := (Records.findRows_spec entity.schema q before).post_of_run hfound
    have hmatches := Records.matches_of_found hcheck hfound
    have hwithin : (Records.deleteRows settings entity.schema rows).Within _ :=
      Records.deleteRows_within rows
    have hchanged := hwithin mid
    rw [hdelete] at hchanged
    refine ⟨rows, hmatches, rfl, Records.deleteRows_ok hmatches.distinct hdelete,
      .of_changedWithin hcheck hread hchanged, fun schemas hdirectory hschema hturns => ?_⟩
    exact mirrors_after hdirectory hturns ho hschema hfound
      (fun hkeeps hholding => hkeeps.deleteRows hschema hdirectory hholding) hdelete

/-- The books of a shelf move to another one, and so out of the entry that has found both of them. -/
theorem matching_exact_books :
    let move : Nat → Document → Except Failure Document := fun k _ =>
      .ok (book 3 (if k = 0 then "c" else "d"))
    ∃ o after rows, (reached bookSettings (bookTurns.take 3)).opened.get? 1 = some o ∧
      Records.updateMatching bookSettings bookEntity (onShelf 1) move ⟨o.txn, o.note⟩ =
        (.ok 2, after) ∧
      Records.Matches bookSettings bookEntity (onShelf 1) ⟨o.txn, o.note⟩ rows ∧ rows.length = 2 ∧
      Records.Rewritten bookSettings bookEntity move 0 rows after.txn.view ∧
      after.txn.view.Mirrors .bson bookSchema shelfIndex := by
  intro move
  have hturns : ∀ id m, .change id m ∈ bookTurns.take 3 → m.Settled bookSettings [bookSchema] :=
    fun id m hm => (admissible_bookTurns id m (List.mem_of_mem_take hm)).settled catalog_books
      fun doc _ => Codec.bson_keysStored.listable _ doc
  have hspare : Spare (bookTurns.take 3) bookSchema shelfIndex := fun id m hm =>
    spare_books bookSchema shelfIndex id m (List.take_subset_take_left bookTurns (by decide) hm)
  obtain ⟨o, ho⟩ := Option.isSome_iff_exists.mp
    (by decide +kernel : ((reached bookSettings (bookTurns.take 3)).opened.get? 1).isSome)
  have hran : ((reached bookSettings (bookTurns.take 3)).opened.get? 1).map (fun o =>
      (Records.updateMatching bookSettings bookEntity (onShelf 1) move ⟨o.txn, o.note⟩).1) =
        some (.ok 2) := by
    decide +kernel
  rw [ho] at hran
  obtain ⟨rows, hmatches, hcount, -, -, hrewritten, -, hmirrors⟩ :=
    (matching_exact bookSettings (bookTurns.take 3) ho bookEntity (onShelf 1)).1 move 2 _
      (Prod.ext (Option.some.inj hran) rfl)
  refine ⟨o, _, rows, ho, Prod.ext (Option.some.inj hran) rfl, hmatches, hcount.symm, hrewritten,
    hmirrors [bookSchema] catalog_books.directory (List.mem_singleton_self _) hturns
      (fun k row value doc _ hvalue hdoc => ?_) bookSchema (List.mem_singleton_self _) shelfIndex
      List.mem_cons_self hspare⟩
  cases hvalue
  cases hdoc
  refine catalog_books.settles (List.mem_singleton_self _) (Codec.bson_keysStored.listable _ _) ?_
  split <;>
    · intro bytes hbytes
      cases hbytes
      rfl

def memoSchema : Schema := ⟨"memo", none, [⟨"n", "n", false⟩], []⟩

def memoEntity : Entity := ⟨memoSchema, [], .ok⟩

def memoTurns : List Turn :=
  [.start 1 false, .change 1 (.insert memoEntity (.number 1) ⟨[("n", .int32 1)]⟩)]

/-- What a query's update stores may not be decoded again. The record is listed under a value that it
is not read with. -/
theorem matching_unsettled :
    ∃ o after, (reached bookSettings memoTurns).opened.get? 1 = some o ∧
      Records.updateMatching bookSettings memoEntity .all (fun _ _ => .ok ⟨[("n", pseudoId)]⟩)
        ⟨o.txn, o.note⟩ = (.ok 1, after) ∧
      (Records.get bookSettings memoEntity (.number 1) after).1 =
        .error (.codec (.malformedValue "no BSON document")) ∧
      ¬ after.txn.view.Mirrors .bson memoSchema ⟨"n", "n", false⟩ := by
  have hran : ((reached bookSettings memoTurns).opened.get? 1).map (fun o =>
      let updated := Records.updateMatching bookSettings memoEntity .all
        (fun _ _ => .ok ⟨[("n", pseudoId)]⟩) ⟨o.txn, o.note⟩
      let stored := updated.2.txn.view.get?
        (Records.recordKey memoSchema [18, 128, 0, 0, 0, 0, 0, 0, 1])
      let read := (Records.get bookSettings memoEntity (.number 1) updated.2).1
      (updated.1, read.map fun _ => (), stored.map fun bytes => (Codec.bson.decode bytes).toBool)) =
      some (.ok 1, .error (.codec (.malformedValue "no BSON document")), some false) := by
    decide +kernel
  obtain ⟨o, ho⟩ := Option.isSome_iff_exists.mp
    (by decide +kernel : ((reached bookSettings memoTurns).opened.get? 1).isSome)
  rw [ho] at hran
  obtain ⟨hupdated, hran⟩ := Prod.mk.inj (Option.some.inj hran)
  obtain ⟨hread, hstored⟩ := Prod.mk.inj hran
  refine ⟨o, _, ho, Prod.ext hupdated rfl, eq_error_of_map hread, fun hmirrors => ?_⟩
  obtain ⟨bytes, hget, hdecode⟩ := Option.map_eq_some_iff.mp hstored
  obtain ⟨_, doc, ⟨bytes', hget', hdoc⟩, -⟩ := hmirrors.valued _ bytes hget
  rw [hget] at hget'
  cases hget'
  rw [hdoc] at hdecode
  cases hdecode

end Turn

end DocStore
