import DocStore.Records

/-!
# Databases

A database runs work in transactions of its own. Reading uses a read-only transaction. Writing
commits, and runs the whole work again in a fresh transaction as long as a conflict ended it and
attempts are left, so its writes take effect once or not at all.
-/

namespace DocStore

structure Database where
  store : Store
  options : Options

structure Journal where
  db : Database
  events : List Event

abbrev Operation (α : Type) := ExceptT Failure (StateM Journal) α

/-- Work in a transaction during which the database may also change by other hands. -/
abbrev Attempt (α : Type) := ExceptT Failure (StateM (Session × Database)) α

namespace Attempt

variable {α : Type}

def ofWork (work : Work Failure α) : Attempt α := fun (session, db) =>
  let (result, session) := work session
  (result, (session, db))

def ofOperation (operation : Operation α) : Attempt α := fun (session, db) =>
  let (result, journal) := operation ⟨db, session.events⟩
  (result, ({ session with events := journal.events }, journal.db))

end Attempt

namespace Database

variable {α : Type}

def start (db : Database) (readOnly : Bool) : Transaction × Database :=
  let (txn, store) := db.store.start readOnly
  (txn, { db with store })

/-- Commits once. A lost conflict counts as one attempt. -/
def commit (txn : Transaction) : Operation Unit := fun journal =>
  let (result, store, events) := journal.db.store.commit txn
  let journal : Journal := ⟨{ journal.db with store }, journal.events ++ events⟩
  match result with
  | .ok _ => (.ok (), journal)
  | .error .conflict => (.error (.conflict 1), journal)
  | .error e => (.error (.store e), journal)

def rollback (txn : Transaction) : Operation Unit := fun journal =>
  (.ok (), { journal with db := { journal.db with store := journal.db.store.release txn } })

def attempt (work : Attempt α) : Operation α := fun journal =>
  let (txn, db) := journal.db.start false
  match work (⟨txn, journal.events⟩, db) with
  | (.ok value, (session, db)) =>
    let (committed, journal) := commit session.txn ⟨db, session.events⟩
    (committed.map fun _ => value, journal)
  | (.error e, (session, db)) =>
    (.error e, ⟨{ db with store := db.store.release session.txn }, session.events⟩)

/-- Makes up to `left` further attempts out of `total`; tells how many were made in all. -/
def writeFrom (work : Nat → Attempt α) (total : Nat) :
    Nat → StateM Journal (Except Failure α × Nat)
  | 0 => fun journal =>
    ((.error (.conflict total), total),
      { journal with events := journal.events ++ [.gaveUp total] })
  | left + 1 => fun journal =>
    let done := total - (left + 1)
    match attempt (work done) journal with
    | (.ok value, journal) => ((.ok value, done + 1), journal)
    | (.error e, journal) =>
      if e.isConflict then
        writeFrom work total left <|
          if left = 0 then journal
          else { journal with events := journal.events ++ [.retrying (done + 1)] }
      else ((.error e, done + 1), journal)

def writeCounted (work : Nat → Attempt α) : StateM Journal (Except Failure α × Nat) :=
  fun journal =>
    let attempts := max journal.db.options.retry.maxAttempts 1
    writeFrom work attempts attempts journal

def write (work : Nat → Attempt α) : Operation α := fun journal =>
  let ((result, _), journal) := writeCounted work journal
  (result, journal)

def read (work : Attempt α) : Operation α := fun journal =>
  let (txn, db) := journal.db.start true
  let (result, (session, db)) := work (⟨txn, journal.events⟩, db)
  (result, ⟨{ db with store := db.store.release session.txn }, session.events⟩)

def writing (work : Settings → Work Failure α) : Operation α := fun journal =>
  write (fun _ => .ofWork (work journal.db.options.settings)) journal

def reading (work : Settings → Work Failure α) : Operation α := fun journal =>
  read (.ofWork (work journal.db.options.settings)) journal

def get (entity : Entity) (key : PrimaryKey) : Operation Document :=
  reading fun settings => Records.get settings entity key

def find (entity : Entity) (q : Query Predicate) : Operation (List Document) :=
  reading fun settings => Records.find settings entity q

def findOne (entity : Entity) (q : Query Predicate) : Operation Document :=
  reading fun settings => Records.findOne settings entity q

def count (entity : Entity) (q : Query Predicate) : Operation Nat :=
  reading fun settings => Records.count settings entity q

def forEach {σ : Type} (entity : Entity) (q : Query Predicate)
    (f : Document → ExceptT Failure (StateM σ) Unit) (acc : σ) :
    Operation (Except Failure Unit × σ) :=
  reading fun settings => Records.forEach settings entity q f acc

def aggregate (entity : Entity) (q : Query Predicate) (fields : List String) :
    Operation (List Group) :=
  reading fun settings => Records.aggregate settings entity q fields

def matchesQuery (entity : Entity) (q : Query Predicate) (value : Document) : Operation Bool :=
  reading fun settings => Records.matchesQuery settings entity q value

def insert (entity : Entity) (key : PrimaryKey) (value : Document) : Operation Unit :=
  writing fun settings => Records.insert settings entity key value

def insertAll (entity : Entity) (rows : List (PrimaryKey × Document)) : Operation Unit :=
  writing fun settings => Records.insertAll settings entity rows

def insertNext (entity : Entity) (value : Document) : Operation (Nat × Document) :=
  writing fun settings => Records.insertNext settings entity value

def update (entity : Entity) (key : PrimaryKey) (value : Document) : Operation Unit :=
  writing fun settings => Records.update settings entity key value

def upsert (entity : Entity) (key : PrimaryKey) (value : Document) : Operation Unit :=
  writing fun settings => Records.upsert settings entity key value

def delete (entity : Entity) (key : PrimaryKey) : Operation Unit :=
  writing fun settings => Records.delete settings entity key

def updateMatching (entity : Entity) (q : Query Predicate)
    (f : Nat → Document → Except Failure Document) : Operation Nat :=
  writing fun settings => Records.updateMatching settings entity q f

def deleteMatching (entity : Entity) (q : Query Predicate) : Operation Nat :=
  writing fun settings => Records.deleteMatching settings entity q

def removeIndex (entity : Entity) (name : String) : Operation Nat :=
  writing fun _ => Records.removeIndex entity name

end Database

end DocStore
