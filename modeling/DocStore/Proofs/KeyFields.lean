import DocStore.Proofs.KeyCodecs
import DocStore.Proofs.Mirroring

/-!
# Indexes on the key field

A record is listed under the values of the document that was written, and taken off the lists under the
values of the document that is read. Reading sets the key field from the primary key, so for an index
on that field the two may differ. As long as the documents written name their key themselves, which
operations that keep key fields see to (`Mutation.Admissible.settled_of_keeps`), every key that is
listed belongs to a record with the value (`Turn.listed_reached`). A document that names another key, or
none, stays listed when its record is gone (`Records.insert_delete_strays`), and from then on a search
through the index fails.
-/

namespace DocStore

variable {codec : Codec} {schema : Schema} {schemas : List Schema} {settings : Settings}
  {doc : Document} {pk : Bytes}

-- ---------------------------------------------------------------------------
-- Documents that name their key
-- ---------------------------------------------------------------------------

theorem Document.lookup_insert_self {field : String} {value : Value}
    (h : doc.fields.get? field = some value) (path : String) :
    (doc.insert field value).lookup path = doc.lookup path := by
  have hget : ∀ name, (doc.insert field value).fields.get? name = doc.fields.get? name := by
    intro name
    rw [insert, Fields.get?_insert]
    split
    · rename_i hname
      rw [hname, h]
    · rfl
  unfold lookup
  cases Path.segments path with
  | nil => rfl
  | cons name rest => cases rest <;> simp only [Path.follow, hget]

/-- The document's own key field, if the schema has one, holds the primary key. -/
def Document.NamesKey (doc : Document) (codec : Codec) (schema : Schema) (pk : Bytes) : Prop :=
  ∀ field, schema.keyField = some field →
    ∀ id, codec.decodeKey pk = .ok id → doc.fields.get? field = some id

/-- Whatever the indexes are built on, a document that names its key is read with the values it was
written with. -/
theorem Document.NamesKey.settles (h : doc.NamesKey codec schema pk) (hdoc : codec.Restores doc)
    (hcodec : codec.KeysStored) : codec.Settles schema pk doc := by
  refine hdoc.settles (hcodec.listable schema doc) fun found hfound => ?_
  unfold Search.identified at hfound
  split at hfound
  · cases hfound
    exact .refl doc
  · rename_i field hfield
    cases hid : codec.decodeKey pk with
    | error e =>
      rw [hid] at hfound
      cases hfound
    | ok id =>
      rw [hid] at hfound
      cases hfound
      intro spec _
      rw [lookupOrNull, lookup_insert_self (h field hfield id hid), lookupOrNull]

theorem Search.namesKey_of_decodeRecord {bytes : Bytes} {found : Document}
    (h : decodeRecord codec schema pk bytes = .ok found) : found.NamesKey codec schema pk := by
  obtain ⟨stored, -, hfound⟩ := exists_of_decodeRecord h
  intro field hfield id hid
  simp only [identified, hfield, hid, Except.mapError, Except.map, Except.ok.injEq] at hfound
  rw [← hfound, Document.insert, Fields.get?_insert, if_pos rfl]

theorem Records.namesKey_of_numbered {entity : Entity} {n : Nat} {value number : Document}
    (hcodec : settings.codec = .bson) (hkey : encodeKey settings (.number n) = .ok pk)
    (h : numbered entity schema n value = .ok number) : number.NamesKey settings.codec schema pk := by
  intro field hfield id hid
  rw [decodeKey_number hcodec hkey] at hid
  cases hid
  simp only [numbered, hfield] at h
  obtain ⟨doc, -, h⟩ := Except.bind_eq_ok h
  obtain ⟨id, hid, h⟩ := Except.bind_eq_ok h
  have hnumber : id = .int64 (Int64.ofNat n) := by
    simp only [PrimaryKey.toValue] at hid
    split at hid <;> cases hid
    rfl
  rw [Entity.read_ok h, Document.insert, Fields.get?_insert, if_pos rfl, hnumber]

/-- Values are written with their key field as it is. -/
def Entity.WritesKeyField (entity : Entity) : Prop :=
  ∀ field, entity.schema.keyField = some field → ∀ value doc, entity.serialize value = .ok doc →
    doc.fields.get? field = value.fields.get? field

theorem Document.NamesKey.written {entity : Entity} {value : Document}
    (h : value.NamesKey codec entity.schema pk) (hwrites : entity.WritesKeyField)
    (hdoc : entity.serialize value = .ok doc) : doc.NamesKey codec entity.schema pk := by
  intro field hfield id hid
  rw [hwrites field hfield value doc hdoc, h field hfield id hid]

namespace Mutation

/-- Values are given under the key that they name, and updates of all matches leave key fields alone.
An insertion under the next number sets the key field by itself. -/
def KeepsKeyFields (settings : Settings) : Mutation → Prop
  | .insert entity key value | .update entity key value | .upsert entity key value =>
    ∀ pk, Records.encodeKey settings key = .ok pk → value.NamesKey settings.codec entity.schema pk
  | .updateMatching entity _ f => ∀ field, entity.schema.keyField = some field →
    ∀ n old value, f n old = .ok value → value.fields.get? field = old.fields.get? field
  | .insertNext _ _ | .delete _ _ | .deleteMatching _ _ | .removeIndex _ _ => True

variable {m : Mutation}

theorem Puts.namesKey (h : m.Puts settings pk doc) (hcodec : settings.codec = .bson)
    (hwrites : m.entity.WritesKeyField) (hkeeps : m.KeepsKeyFields settings) :
    doc.NamesKey settings.codec m.entity.schema pk := by
  cases m with
  | insert | update | upsert => exact (hkeeps pk h.1).written hwrites h.2
  | insertNext entity value =>
    obtain ⟨n, number, hkey, hnumber, hdoc⟩ := h
    exact (Records.namesKey_of_numbered hcodec hkey hnumber).written hwrites hdoc
  | updateMatching entity q f =>
    obtain ⟨n, bytes, old, value, hold, hvalue, hdoc⟩ := h
    have hnames := Search.namesKey_of_decodeRecord hold
    refine Document.NamesKey.written (fun field hfield id hid => ?_) hwrites hdoc
    rw [hkeeps field hfield n old value hvalue, hnames field hfield id hid]
  | delete | deleteMatching | removeIndex => exact h.elim

/-- Operations that keep key fields settle, whatever the indexes are built on. -/
theorem Admissible.settled_of_keeps (h : m.Admissible settings schemas)
    (hcodec : settings.codec = .bson) (hwrites : m.entity.WritesKeyField)
    (hkeeps : m.KeepsKeyFields settings) : m.Settled settings schemas := by
  refine ⟨h.known, fun pk doc hputs => ?_, h.fits⟩
  have hstored : settings.codec.KeysStored := hcodec ▸ Codec.bson_keysStored
  exact (hputs.namesKey hcodec hwrites hkeeps).settles (h.restored doc hputs.stores) hstored

end Mutation

namespace Turn

open Interleaving

/-- Every entry of every index can be read, and the keys it lists belong to records that are read with
its value. -/
theorem listed_reached (hdirectory : Directory schemas) {turns : List Turn}
    (hturns : ∀ id m, .change id m ∈ turns → m.Settled settings schemas) :
    ∀ schema ∈ schemas, ∀ spec ∈ schema.indexes, ∀ data,
      (data = (reached settings turns).store.current.data ∨
        ∃ id o, (reached settings turns).opened.get? id = some o ∧ data = o.txn.view) →
      ∀ value, data.Readable (Index.entryAt schema spec value) ∧
        ∀ pk ∈ data.keysAt (Index.entryAt schema spec value), ∃ bytes,
          data.get? (Records.recordKey schema pk) = some bytes ∧
            ∀ found, Search.decodeRecord settings.codec schema pk bytes = .ok found →
              settings.codec.encodeKey (found.lookupOrNull spec.field) = .ok value := by
  have hkept : Kept settings.codec schemas (Spare turns) (reached settings turns) :=
    kept_of_settled hdirectory hturns
  rintro schema hschema spec hspec data hdata value
  have hconsistent : data.Consistent settings.codec schema (Spare turns schema) :=
    hkept.consistent hschema hdata
  refine ⟨hconsistent.tidy.readable hspec value, fun pk hpk => ?_⟩
  obtain ⟨stored, ⟨bytes, hget, hdecode⟩, hvalue⟩ := hconsistent.truthful spec hspec value pk hpk
  refine ⟨bytes, hget, fun found hfound => ?_⟩
  obtain ⟨stored', hstored', halike⟩ := hconsistent.readAs hget hfound
  cases hstored'.unique ⟨bytes, hget, hdecode⟩
  rw [halike spec hspec, hvalue]

-- ---------------------------------------------------------------------------
-- Tickets
-- ---------------------------------------------------------------------------

def numberIndex : IndexSpec := ⟨"number", "number", false⟩

def ticketSchema : Schema := ⟨"ticket", some "number", [numberIndex], []⟩

def ticketEntity : Entity := ⟨ticketSchema, [], .ok⟩

def ticket (n : Int64) : Document := ⟨[("number", .int64 n)]⟩

def ticketTurns : List Turn :=
  [.start 1 false, .change 1 (.insert ticketEntity (.number 1) (ticket 1)),
    .change 1 (.upsert ticketEntity (.number 2) (ticket 2)),
    .change 1 (.delete ticketEntity (.number 1)), .commit 1]

theorem namesKey_ticket {n : Nat} (hkey : Records.encodeKey bookSettings (.number n) = .ok pk) :
    (ticket (Int64.ofNat n)).NamesKey .bson ticketSchema pk := by
  rintro _ ⟨⟩ id hid
  have hnumber : bookSettings.codec.decodeKey pk = .ok (.int64 (Int64.ofNat n)) :=
    Records.decodeKey_number rfl hkey
  cases hnumber.symm.trans hid
  rfl

theorem settled_ticketTurns :
    ∀ id m, .change id m ∈ ticketTurns → m.Settled bookSettings [ticketSchema] := by
  have hwrites : ticketEntity.WritesKeyField := by
    rintro _ ⟨⟩ value doc ⟨⟩
    rfl
  have hnumbered (n : Nat) (key : PrimaryKey) (hkey : key = .number n) (pk : Bytes)
      (h : Records.encodeKey bookSettings key = .ok pk) : KeyList.Fits pk := by
    subst hkey
    exact Records.fits_number rfl h
  intro id m hm
  simp only [ticketTurns, List.mem_cons, Turn.change.injEq, reduceCtorEq, List.not_mem_nil, false_or,
    or_false] at hm
  rcases hm with ⟨-, rfl⟩ | ⟨-, rfl⟩ | ⟨-, rfl⟩
  · refine Mutation.Admissible.settled_of_keeps ⟨List.mem_singleton_self _, ?_, hnumbered 1⟩ rfl hwrites
      fun pk hkey => namesKey_ticket hkey
    rintro doc ⟨⟩ bytes ⟨⟩
    rfl
  · refine Mutation.Admissible.settled_of_keeps ⟨List.mem_singleton_self _, ?_, hnumbered 2⟩ rfl hwrites
      fun pk hkey => namesKey_ticket hkey
    rintro doc ⟨⟩ bytes ⟨⟩
    rfl
  · exact ⟨List.mem_singleton_self _, nofun, nofun⟩

/-- Only the second ticket is left, and listed. -/
theorem listed_reached_tickets :
    let data := (reached bookSettings ticketTurns).store.current.data
    let entry := Index.entryIn .bson ticketSchema (ticket 2) numberIndex
    Directory [ticketSchema] ∧
      (∀ id m, .change id m ∈ ticketTurns → m.Settled bookSettings [ticketSchema]) ∧
      data.size = 2 ∧ data.Readable entry ∧ (data.keysAt entry).length = 1 ∧
      ∀ pk ∈ data.keysAt entry,
        ∃ bytes, data.get? (Records.recordKey ticketSchema pk) = some bytes := by
  intro data entry
  have hdirectory : Directory [ticketSchema] := ⟨by decide, by decide⟩
  obtain ⟨hreadable, hlisted⟩ := listed_reached hdirectory settled_ticketTurns ticketSchema
    (List.mem_singleton_self _) numberIndex (List.mem_singleton_self _) data (.inl rfl)
    (Codec.bson.valueKey (ticket 2) numberIndex)
  refine ⟨hdirectory, settled_ticketTurns, by decide +kernel, hreadable, by decide +kernel,
    fun pk hpk => ?_⟩
  obtain ⟨bytes, hget, -⟩ := hlisted pk hpk
  exact ⟨bytes, hget⟩

end Turn

-- ---------------------------------------------------------------------------
-- Documents that name another key
-- ---------------------------------------------------------------------------

/-- A removal takes the key off the lists of the values that were read, and off no others. -/
theorem removeRecord_elsewhere (pk : Bytes) {t : Transaction} {found : Document} (hnamed : schema.Named)
    (htidy : t.view.Tidy schema) (hw : t.readOnly = false)
    (hkeyed : settings.codec.Keyed found schema.indexes) (events : List Event) :
    ∃ t', Records.removeRecord settings schema pk found ⟨t, events⟩ = (.ok (), ⟨t', events⟩) ∧
      t'.view.get? (Records.recordKey schema pk) = none ∧
      ∀ spec ∈ schema.indexes, ∀ value, value ≠ settings.codec.valueKey found spec →
        t'.view.keysAt (Index.entryAt schema spec value) =
          t.view.keysAt (Index.entryAt schema spec value) := by
  let removed := t.assign (Records.recordKey schema pk) none
  have hw' : removed.readOnly = false := hw
  have hsame : ∀ spec ∈ schema.indexes, ∀ value, removed.view.get? (Index.entryAt schema spec value) =
      t.view.get? (Index.entryAt schema spec value) := get?_assign_record t none
  have hdelete : Work.delete (Records.recordKey schema pk) ⟨t, events⟩ = (.ok (), ⟨removed, events⟩) :=
    Index.delete_run hw _ events
  have hdelist : Index.deleteIn settings.codec schema pk found schema.indexes ⟨removed, events⟩ = _ :=
    Index.deleteIn_run hw' hkeyed (Index.nodup_entryIn hnamed settings.codec found)
      fun spec hspec bytes hget => htidy.readable hspec _ bytes (hsame spec hspec _ ▸ hget)
  have hout : ¬ ∃ spec ∈ schema.indexes, Records.recordKey schema pk =
      Index.entryIn settings.codec schema found spec := by
    rintro ⟨spec, -, heq⟩
    exact Records.recordKey_ne_entryAt pk spec _ heq
  refine ⟨removed.relistAll (Index.entryIn settings.codec schema found) (Index.delist pk)
    schema.indexes, ?_, ?_, fun spec hspec value hvalue => ?_⟩
  · simp only [Records.removeRecord, Work.adapt, run_bind, hdelete, Index.delete, hdelist]
    rfl
  · rw [(Transaction.changedWithin_relistAll hw').view _ hout, Transaction.view_assign, if_pos rfl]
  · rw [Data.keysAt_congr (Index.get?_relistAll_of_ne hw' hnamed hspec hvalue),
      Data.keysAt_congr (hsame spec hspec value)]

/-- A record that is read with another value than it was written with stays listed under the latter
when it is deleted. -/
theorem Records.insert_delete_strays {entity : Entity} {key : PrimaryKey} {t : Transaction}
    {kept : IndexSpec → Prop} {bytes : Bytes} {value found : Document} {spec : IndexSpec}
    (hvalid : entity.schema.check = .ok ())
    (hview : t.view.Consistent settings.codec entity.schema kept) (hw : t.readOnly = false)
    (hkey : encodeKey settings key = .ok pk) (hfits : KeyList.Fits pk)
    (hnew : t.view.get? (recordKey entity.schema pk) = none)
    (hdoc : entity.serialize value = .ok doc)
    (hbytes : settings.codec.encode doc.toValue = .ok bytes)
    (hkeyed : settings.codec.Keyed doc entity.schema.indexes)
    (hfree : entity.schema.indexes.find?
      (Index.taken settings.codec entity.schema t.view pk doc) = none)
    (hfound : Search.decodeRecord settings.codec entity.schema pk bytes = .ok found)
    (hkeyed' : settings.codec.Keyed found entity.schema.indexes)
    (hspec : spec ∈ entity.schema.indexes)
    (hother : settings.codec.valueKey doc spec ≠ settings.codec.valueKey found spec)
    (events : List Event) :
    ∃ t', (insert settings entity key value >>= fun _ => delete settings entity key) ⟨t, events⟩ =
        (.ok (), ⟨t', events⟩) ∧
      t'.view.get? (recordKey entity.schema pk) = none ∧
      pk ∈ t'.view.keysAt (Index.entryIn settings.codec entity.schema doc spec) := by
  have hnamed := Schema.named_of_check hvalid
  have hopen := schema_run hvalid
  have hold : t.view.ReadAs settings.codec entity.schema pk none := hnew
  have hreplaceable := hview.replaceable (t := t) hnamed hold rfl
  obtain ⟨t₁, hwrite, hreplaced⟩ := writeRecord_free
    (hreplaceable.recordReads [recordKey entity.schema pk]) hw hfits hkeyed hfree bytes events
  have hrecord : encodeRecord settings entity value = .ok (doc, bytes) :=
    encodeRecord_eq_ok_iff.mpr ⟨hdoc, hbytes⟩
  have hinsert : insert settings entity key value ⟨t, events⟩ = (.ok (), ⟨t₁, events⟩) := by
    simp only [insert, run_bind, hopen, Work.ofExcept, hkey, load_absent hnew, hrecord, hwrite]
  let t₂ := t₁.recordReads [recordKey entity.schema pk]
  obtain ⟨t', hremove, hgone, hlists⟩ := removeRecord_elsewhere pk (t := t₂) hnamed
    hreplaced.relisted.tidy (hreplaced.changed.readOnly.trans hw) hkeyed' events
  have hdelete : delete settings entity key ⟨t₁, events⟩ = (.ok (), ⟨t', events⟩) := by
    simp only [delete, run_bind, hopen, Work.ofExcept, hkey, load_present hreplaced.record, hfound,
      Except.map, hremove, t₂]
  refine ⟨t', by rw [run_bind, hinsert]; exact hdelete, hgone, ?_⟩
  rw [Index.entryIn, hlists spec hspec _ hother]
  exact (hreplaced.relisted.listed spec hspec _ pk).mpr (.inl ⟨rfl, doc, rfl, rfl⟩)

/-- A ticket that names another number is listed under that number even when its record is gone. A
search through the index fails then, where a search without it finds nothing. -/
theorem Records.stray_ticket :
    let start : Session := ⟨(Store.empty.start false).1, []⟩
    let inserted := insert Turn.bookSettings Turn.ticketEntity (.number 1) (Turn.ticket 99) start
    let deleted := delete Turn.bookSettings Turn.ticketEntity (.number 1) inserted.2
    let view := deleted.2.txn.view
    let numbered := Query.and .all "number" (.condition (.eq (.value (.int64 99))))
    inserted.1 = .ok () ∧ deleted.1 = .ok () ∧
      (∃ pk, encodeKey Turn.bookSettings (.number 1) = .ok pk ∧
        view.get? (recordKey Turn.ticketSchema pk) = none ∧
        view.keysAt (Index.entryIn .bson Turn.ticketSchema (Turn.ticket 99) Turn.numberIndex) =
          [pk]) ∧
      (find Turn.bookSettings Turn.ticketEntity numbered deleted.2).1.map (fun _ => ()) =
        .error (.engine (.corruptIndex "ticket" "number" .missingRecord)) ∧
      (find Turn.bookSettings ⟨{ Turn.ticketSchema with indexes := [] }, [], .ok⟩ numbered
        deleted.2).1.map List.length = .ok 0 := by
  refine ⟨by decide +kernel, by decide +kernel, ⟨_, rfl, ?_, ?_⟩, ?_, ?_⟩ <;> decide +kernel

end DocStore
