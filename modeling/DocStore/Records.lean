import DocStore.Options
import DocStore.Search
import DocStore.Sequence

/-!
# Records of a database

Reading and writing records inside one transaction. A record lies under its encoded primary key, and
each write moves its index entries from the old document to the new one. Unique values are checked
before anything is written, so a collision leaves the transaction as it was.
-/

namespace DocStore

inductive PrimaryKey where
  | value (v : Value)
  | number (n : Nat)

/-- Numbers are stored as signed integers, so there is a greatest one. -/
def PrimaryKey.toValue : PrimaryKey → Except Failure Value
  | .value v => .ok v
  | .number n =>
    if n < 0x8000000000000000 then .ok (.int64 (Int64.ofNat n))
    else .error (.codec (.unencodable (toString n)))

structure Settings where
  codec : Codec
  batchSize : Nat

def Options.settings (o : Options) : Settings := ⟨o.codec, o.batchSize⟩

namespace Records

variable (settings : Settings) (entity : Entity)

def schema : Work Failure Schema := Work.ofExcept entity.validSchema

/-- Runs a query's work on the transaction's view, with a bookmark of its own. -/
def searching {α : Type} (work : Scene → Exec α) : Work Failure α := fun session =>
  let scene : Scene := ⟨session.txn.view, settings.codec, settings.batchSize⟩
  let (result, trail) := work scene ⟨session.txn.reads, session.events, .start⟩
  (result, { txn := { session.txn with reads := trail.reads }, events := trail.events })

def encodeKey (key : PrimaryKey) : Except Failure Bytes := do
  let value ← key.toValue
  (settings.codec.encodeKey value).mapError .codec

def encodeRecord (value : Document) : Except Failure (Document × Bytes) := do
  let doc ← entity.serialize value
  let bytes ← (settings.codec.encode doc.toValue).mapError .codec
  pure (doc, bytes)

def recordKey (schema : Schema) (pk : Bytes) : Bytes := Key.encode (.record schema.typeName pk)

def load (schema : Schema) (pk : Bytes) : Work Failure (Option Document) := do
  match ← Work.ofReading (Reading.get (recordKey schema pk)) with
  | none => pure none
  | some bytes =>
    let doc ← Work.ofExcept (Search.decodeRecord settings.codec schema pk bytes)
    pure (some doc)

/-- Stores a document, and moves the index entries off the old one if there was one. -/
def writeRecord (schema : Schema) (pk : Bytes) (old : Option Document) (doc : Document)
    (bytes : Bytes) : Work Failure Unit :=
  Work.adapt .ofEngine do
    Index.checkUnique settings.codec schema pk doc
    match old with
    | some old => Index.delete settings.codec schema pk old
    | none => pure ()
    Work.put (recordKey schema pk) bytes
    Index.add settings.codec schema pk doc

def removeRecord (schema : Schema) (pk : Bytes) (old : Document) : Work Failure Unit :=
  Work.adapt .ofEngine do
    Work.delete (recordKey schema pk)
    Index.delete settings.codec schema pk old

def get (key : PrimaryKey) : Work Failure Document := do
  let schema ← schema entity
  let pk ← Work.ofExcept (encodeKey settings key)
  match ← load settings schema pk with
  | none => throw .notFound
  | some doc => Work.ofExcept (entity.read doc)

def insert (key : PrimaryKey) (value : Document) : Work Failure Unit := do
  let schema ← schema entity
  let pk ← Work.ofExcept (encodeKey settings key)
  match ← load settings schema pk with
  | some _ => throw .keyExists
  | none =>
    let (doc, bytes) ← Work.ofExcept (encodeRecord settings entity value)
    writeRecord settings schema pk none doc bytes

def insertAll : List (PrimaryKey × Document) → Work Failure Unit
  | [] => pure ()
  | (key, value) :: rest => do
    insert settings entity key value
    insertAll rest

def numbered (schema : Schema) (n : Nat) (value : Document) : Except Failure Document :=
  match schema.keyField with
  | none => .ok value
  | some field => do
    let doc ← entity.serialize value
    let id ← (PrimaryKey.number n).toValue
    entity.read (doc.insert field id)

def insertNext (value : Document) : Work Failure (Nat × Document) := do
  let schema ← schema entity
  let n ← Work.adapt .ofEngine (Sequence.next schema.typeName)
  let value ← Work.ofExcept (numbered entity schema n value)
  insert settings entity (.number n) value
  pure (n, value)

def update (key : PrimaryKey) (value : Document) : Work Failure Unit := do
  let schema ← schema entity
  let pk ← Work.ofExcept (encodeKey settings key)
  match ← load settings schema pk with
  | none => throw .notFound
  | some old =>
    let (doc, bytes) ← Work.ofExcept (encodeRecord settings entity value)
    writeRecord settings schema pk (some old) doc bytes

def upsert (key : PrimaryKey) (value : Document) : Work Failure Unit := do
  let schema ← schema entity
  let pk ← Work.ofExcept (encodeKey settings key)
  let old ← load settings schema pk
  let (doc, bytes) ← Work.ofExcept (encodeRecord settings entity value)
  writeRecord settings schema pk old doc bytes

def delete (key : PrimaryKey) : Work Failure Unit := do
  let schema ← schema entity
  let pk ← Work.ofExcept (encodeKey settings key)
  match ← load settings schema pk with
  | none => throw .notFound
  | some old => removeRecord settings schema pk old

def findRows (schema : Schema) (q : Query Predicate) : Work Failure (List Row) :=
  searching settings fun scene => Search.findRows scene schema (q.ready scene)

def find (q : Query Predicate) : Work Failure (List Document) := do
  let schema ← schema entity
  let rows ← findRows settings schema q
  Work.ofExcept (rows.mapM fun row => entity.read row.doc)

def findOne (q : Query Predicate) : Work Failure Document := do
  let schema ← schema entity
  match ← findRows settings schema q.firstOnly with
  | [] => throw .notFound
  | row :: _ => Work.ofExcept (entity.read row.doc)

def count (q : Query Predicate) : Work Failure Nat := do
  let schema ← schema entity
  searching settings fun scene => Search.count scene schema (q.ready scene)

/-- Hands each match to `f`; the first failure ends the search. The state of `f` outlives it. -/
def forEach {σ : Type} (q : Query Predicate) (f : Document → ExceptT Failure (StateM σ) Unit)
    (acc : σ) : Work Failure (Except Failure Unit × σ) := fun session =>
  match entity.validSchema with
  | .error e => (.ok (.error e, acc), session)
  | .ok schema =>
    let sink : Sink σ := fun row =>
      match entity.read row.doc with
      | .ok doc => f doc
      | .error e => throw e
    (searching settings fun scene trail =>
      let (result, acc, trail) := Search.walk scene schema sink (q.ready scene) acc trail
      (.ok (result, acc), trail)) session

def aggregate (q : Query Predicate) (fields : List String) : Work Failure (List Group) := do
  let schema ← schema entity
  searching settings fun scene => Search.aggregate scene schema (q.ready scene) fields

/-- The primary key that a document names itself, or that of null. -/
def ownKey (schema : Schema) (doc : Document) : Except Failure Bytes :=
  let value := (schema.keyField.bind doc.lookup).getD .null
  (settings.codec.encodeKey value).mapError .codec

/-- Tests a value that need not be stored, as the document that it would be written as. -/
def matchesQuery (q : Query Predicate) (value : Document) : Work Failure Bool := do
  Work.ofExcept q.validate
  let schema ← schema entity
  let doc ← Work.ofExcept (entity.serialize value)
  let key ← Work.ofExcept (ownKey settings schema doc)
  searching settings fun scene =>
    Evaluation.matchesQuery scene schema (q.ready scene) ⟨key, doc⟩

def updateRows (schema : Schema) (f : Nat → Document → Except Failure Document) :
    Nat → List Row → Work Failure Unit
  | _, [] => pure ()
  | done, row :: rest => do
    let value ← Work.ofExcept (entity.read row.doc)
    let value ← Work.ofExcept (f done value)
    let (doc, bytes) ← Work.ofExcept (encodeRecord settings entity value)
    writeRecord settings schema row.key (some row.doc) doc bytes
    updateRows schema f (done + 1) rest

/-- Applies `f` to every match. The matches are collected before the first write. -/
def updateMatching (q : Query Predicate) (f : Nat → Document → Except Failure Document) :
    Work Failure Nat := do
  let schema ← schema entity
  let rows ← findRows settings schema q
  updateRows settings entity schema f 0 rows
  pure rows.length

def deleteRows (schema : Schema) : List Row → Work Failure Unit
  | [] => pure ()
  | row :: rest => do
    removeRecord settings schema row.key row.doc
    deleteRows schema rest

def deleteMatching (q : Query Predicate) : Work Failure Nat := do
  let schema ← schema entity
  let rows ← findRows settings schema q
  deleteRows settings schema rows
  pure rows.length

def removeIndex (name : String) : Work Failure Nat := do
  let schema ← schema entity
  Work.adapt .ofEngine (Index.remove schema name)

end Records

end DocStore
