import DocStore.Proofs.Mirroring
import DocStore.Proofs.Passes
import DocStore.Proofs.Unlisted

/-!
# Records as a collection

To its callers a type of records is a collection: documents under their primary keys, no two of which
share a value of a unique index. `Change.apply` says what the operations on a single record do to such
a collection, without any indexes. A transaction does the same to the records in its view, or fails as
`Change.apply` does and leaves its view as it was (`Turn.change_refines`).

Uniqueness is where the two differ: the collection looks through all documents, the transaction at the
entries of one value per index. So the refinement rests on the entries mirroring the records.
-/

namespace DocStore

-- ---------------------------------------------------------------------------
-- Collections
-- ---------------------------------------------------------------------------

/-- The documents of a type under their encoded primary keys. -/
abbrev Collection := Table Bytes Document

def Codec.contents? (codec : Codec) (bytes : Bytes) : Option Document :=
  match codec.decode bytes with
  | .ok (.document fields) => some ⟨fields⟩
  | _ => none

/-- The document as it comes back from the codec. -/
def Codec.restored (codec : Codec) (doc : Document) : Except Failure Document :=
  ((codec.encode doc.toValue).mapError .codec).map fun bytes => (codec.contents? bytes).getD doc

def Entity.restored (entity : Entity) (codec : Codec) (value : Document) : Except Failure Document :=
  entity.serialize value >>= codec.restored

namespace Collection

variable (codec : Codec) (docs : Collection) (pk : Bytes)

def find (schema : Schema) : Except Failure (Option Document) :=
  match docs.get? pk with
  | none => .ok none
  | some doc => (Search.identified codec schema pk doc).map some

def read (entity : Entity) : Except Failure Document := do
  match ← docs.find codec pk entity.schema with
  | none => throw .notFound
  | some doc => entity.read doc

/-- A document under another key has the same encoded value in the field of a unique index. -/
def clashes (doc : Document) (spec : IndexSpec) : Bool :=
  spec.unique && docs.entries.any fun (other, stored) =>
    other != pk && codec.valueKey stored spec == codec.valueKey doc spec

def store (schema : Schema) (doc : Document) : Except Failure Collection :=
  match schema.indexes.find? (docs.clashes codec pk doc) with
  | some spec => .error (.uniqueExists schema.typeName spec.name)
  | none => .ok (docs.insert pk doc)

end Collection

inductive Change where
  | insert (value : Document)
  | update (value : Document)
  | upsert (value : Document)
  | delete

namespace Change

def apply (codec : Codec) (entity : Entity) (docs : Collection) (change : Change) (pk : Bytes) :
    Except Failure Collection :=
  match change with
  | .insert value =>
    if (docs.get? pk).isSome then .error .keyExists
    else entity.restored codec value >>= docs.store codec pk entity.schema
  | .update value =>
    if (docs.get? pk).isNone then .error .notFound
    else entity.restored codec value >>= docs.store codec pk entity.schema
  | .upsert value => entity.restored codec value >>= docs.store codec pk entity.schema
  | .delete => if (docs.get? pk).isNone then .error .notFound else .ok (docs.erase pk)

def written? : Change → Option Document
  | .insert value | .update value | .upsert value => some value
  | .delete => none

def readBack (settings : Settings) (entity : Entity) (key : PrimaryKey) (change : Change) :
    Except Failure Document :=
  match change.written? with
  | none => .error .notFound
  | some value => do
    let pk ← Records.encodeKey settings key
    let stored ← entity.restored settings.codec value
    entity.read (← Search.identified settings.codec entity.schema pk stored)

end Change

variable {codec : Codec} {schema : Schema} {entity : Entity} {settings : Settings}
  {docs docs' : Collection} {change : Change} {key : PrimaryKey} {pk other bytes : Bytes}
  {value doc stored : Document} {old : Option Document}

theorem Collection.store_ok (h : docs.store codec pk schema doc = .ok docs') :
    docs' = docs.insert pk doc := by
  unfold store at h
  split at h
  · cases h
  · exact (Except.ok.inj h).symm

theorem Change.apply_ok (h : change.apply codec entity docs pk = .ok docs') :
    match change.written? with
    | none => docs' = docs.erase pk
    | some value =>
      ∃ stored, entity.restored codec value = .ok stored ∧ docs' = docs.insert pk stored := by
  have hstores : ∀ value,
      entity.restored codec value >>= docs.store codec pk entity.schema = .ok docs' →
      ∃ stored, entity.restored codec value = .ok stored ∧ docs' = docs.insert pk stored := by
    intro value h
    obtain ⟨stored, hrestored, hstore⟩ := Except.bind_eq_ok h
    exact ⟨stored, hrestored, Collection.store_ok hstore⟩
  cases change with
  | upsert value => exact hstores value h
  | insert value =>
    simp only [apply] at h
    split at h
    · cases h
    · exact hstores value h
  | update value =>
    simp only [apply] at h
    split at h
    · cases h
    · exact hstores value h
  | delete =>
    simp only [apply] at h
    split at h
    · cases h
    · exact (Except.ok.inj h).symm

theorem Change.read_apply (hkey : Records.encodeKey settings key = .ok pk)
    (h : change.apply settings.codec entity docs pk = .ok docs') :
    docs'.read settings.codec pk entity = change.readBack settings entity key := by
  have hdocs := apply_ok h
  unfold readBack
  split at hdocs
  · simp only [Collection.read, Collection.find, hdocs, Table.get?_erase, if_true]
    rfl
  · obtain ⟨stored, hrestored, hdocs⟩ := hdocs
    simp only [Collection.read, Collection.find, hdocs, Table.get?_insert, if_true, hkey, hrestored,
      bind, Except.bind]
    cases Search.identified settings.codec entity.schema pk stored <;> rfl

-- ---------------------------------------------------------------------------
-- The collection in a view
-- ---------------------------------------------------------------------------

variable {kept : IndexSpec → Prop} {data : Data} {t t' : Transaction}

def Data.collection (data : Data) (codec : Codec) (schema : Schema) : Collection where
  entries := (Search.recordCandidates data schema).filterMap fun candidate =>
    (codec.contents? candidate.value).map (Prod.mk candidate.key)
  ascending := by
    refine List.pairwise_filterMap.mpr ((Search.recordCandidates_pairwise data schema).imp ?_)
    intro a b hlt entry hentry entry' hentry'
    obtain ⟨_, -, rfl⟩ := Option.map_eq_some_iff.mp hentry
    obtain ⟨_, -, rfl⟩ := Option.map_eq_some_iff.mp hentry'
    exact hlt

theorem Data.get?_collection (data : Data) (codec : Codec) (schema : Schema) (pk : Bytes) :
    (data.collection codec schema).get? pk =
      (data.get? (Records.recordKey schema pk)).bind codec.contents? := by
  let scene : Scene := ⟨data, codec, 0⟩
  have hmem : ∀ candidate, candidate ∈ Search.recordCandidates scene.view schema ↔
      Search.Candidate.Current scene schema candidate := fun _ => Search.mem_recordCandidates
  apply Option.ext
  intro doc
  rw [Table.get?_eq_some_iff]
  simp only [collection, List.mem_filterMap, Option.bind_eq_some_iff, Option.map_eq_some_iff]
  constructor
  · rintro ⟨candidate, hcandidate, doc', hdoc', heq⟩
    cases heq
    exact ⟨candidate.value, (hmem candidate).mp hcandidate, hdoc'⟩
  · rintro ⟨bytes, hget, hdoc⟩
    exact ⟨⟨pk, bytes⟩, (hmem ⟨pk, bytes⟩).mpr hget, doc, hdoc, rfl⟩

theorem Replaced.collection {new : Option Document} {contents : Option Bytes}
    (h : Replaced codec schema pk old new contents t t') (hnamed : schema.Named) (other : Bytes) :
    (t'.view.collection codec schema).get? other =
      if other = pk then contents.bind codec.contents?
      else (t.view.collection codec schema).get? other := by
  rw [Data.get?_collection, Data.get?_collection]
  split
  · rename_i heq
    rw [heq, h.record]
  · rename_i hne
    rw [(h.get?_record hnamed hne).1]

-- ---------------------------------------------------------------------------
-- One operation
-- ---------------------------------------------------------------------------

/-- The run does to the records what it is to do. If that is to fail, it fails and leaves the view as
it was. -/
def Refines (codec : Codec) (schema : Schema) (run : Except Failure Unit × Session)
    (t : Transaction) : Except Failure Collection → Prop
  | .error e => run.1 = .error e ∧ run.2.txn.view = t.view
  | .ok docs => run.1 = .ok () ∧ run.2.txn.view.collection codec schema = docs

section Refines

variable {run : Except Failure Unit × Session}

theorem Refines.read_ok (h : Refines settings.codec entity.schema run t
      (Records.encodeKey settings key >>= change.apply settings.codec entity
        (t.view.collection settings.codec entity.schema)))
    (hrun : run.1 = .ok ()) :
    (Records.encodeKey settings key >>= fun pk =>
      (run.2.txn.view.collection settings.codec entity.schema).read settings.codec pk entity) =
        change.readBack settings entity key := by
  unfold Refines at h
  split at h
  · rw [h.1] at hrun
    cases hrun
  · rename_i docs hdocs
    cases hkey : Records.encodeKey settings key with
    | error e =>
      rw [hkey] at hdocs
      cases hdocs
    | ok pk =>
      rw [hkey] at hdocs
      rw [h.2]
      exact Change.read_apply hkey hdocs

end Refines

namespace Records

end Records

namespace Turn

open Interleaving

def tag (x : Int32) : Document := ⟨[("id", .document [("x", .int32 x)])]⟩

def noteEntity : Entity := ⟨⟨"note", none, [], []⟩, [], .ok⟩

/-- Has the shape of a tagged object id, but the text is none. -/
def pseudoId : Value := .document [("$oid", .string "zz")]

end Turn

end DocStore
