import DocStore.Table

/-!
# The transactional store

A store holds one committed version and counts the snapshots that open write transactions stand on.
A transaction reads its snapshot with its own writes laid over it and records the keys it has read.
Its commit fails if one of them was written by a later commit; `Version.written` remembers who wrote
what, and every 64th commit forgets the records that no open transaction can conflict with.
-/

namespace DocStore

inductive StoreError where
  | readOnly
  | conflict
  deriving DecidableEq, Repr

def StoreError.message : StoreError → String
  | .readOnly => "cannot write in a read-only transaction"
  | .conflict =>
    "transaction conflict: a key read by this transaction was committed concurrently"

inductive Event where
  | queryPass (typeName plan : String)
  | removedIndex (typeName index : String) (entries : Nat)
  | commitConflict (readSeq : Nat)
  | pruned (oldest count : Nat)
  | retrying (attempt : Nat)
  | gaveUp (attempts : Nat)
  deriving DecidableEq, Repr

def Event.text : Event → String
  | .queryPass typeName plan => s!"query pass type_name={typeName} plan={plan}"
  | .removedIndex typeName index entries =>
    s!"removed index type_name={typeName} index={index} entries={entries}"
  | .commitConflict readSeq => s!"commit conflict read_seq={readSeq}"
  | .pruned oldest count => s!"pruned write records oldest={oldest} pruned={count}"
  | .retrying attempt => s!"write conflict, retrying attempt={attempt}"
  | .gaveUp attempts => s!"write conflict persisted, giving up attempts={attempts}"

abbrev Data := Table Bytes Bytes

structure Version where
  data : Data
  /-- The commit that last wrote each key, deletions included, unless it was pruned. -/
  written : Table Bytes Nat
  seq : Nat
  deriving Inhabited

structure Store where
  current : Version
  /-- How many open write transactions stand on each snapshot. -/
  pinned : Table Nat Nat
  deriving Inhabited

structure Transaction where
  /-- The snapshot with this transaction's own writes applied. -/
  view : Data
  readSeq : Nat
  /-- The keys written, with `none` for a deletion. -/
  writes : Table Bytes (Option Bytes)
  /-- The keys read, latest first. -/
  reads : List Bytes
  readOnly : Bool
  deriving Inhabited

namespace Data

def scan (view : Data) (start : Bytes) : List (Bytes × Bytes) :=
  (view.entries.dropWhile fun entry => entry.1 < start).takeWhile fun entry =>
    start.isPrefixOf entry.1

/-- Where a page begins: strictly after `after`, but never before `start`. -/
def pageStart (start : Bytes) (after : Option Bytes) (key : Bytes) : Bool :=
  match after with
  | some after => if after < start then start ≤ key else after < key
  | none => start ≤ key

def page (view : Data) (start : Bytes) (after : Option Bytes) (limit : Nat) :
    List (Bytes × Bytes) :=
  ((view.entries.dropWhile fun entry => !pageStart start after entry.1).takeWhile fun entry =>
    start.isPrefixOf entry.1).take limit

end Data

namespace Transaction

def recordReads (t : Transaction) (keys : List Bytes) : Transaction :=
  { t with reads := keys.reverse ++ t.reads }

def get (t : Transaction) (key : Bytes) : Option Bytes × Transaction :=
  (t.view.get? key, t.recordReads [key])

def multiGet (t : Transaction) (keys : List Bytes) : List (Option Bytes) × Transaction :=
  (keys.map t.view.get?, t.recordReads keys)

def scanPrefix (t : Transaction) (start : Bytes) : List (Bytes × Bytes) × Transaction :=
  let found := t.view.scan start
  (found, t.recordReads (found.map Prod.fst))

def scanBatch (t : Transaction) (start : Bytes) (after : Option Bytes) (limit : Nat) :
    List (Bytes × Bytes) × Transaction :=
  let found := t.view.page start after limit
  (found, t.recordReads (found.map Prod.fst))

def put (t : Transaction) (key value : Bytes) : Except StoreError Transaction :=
  if t.readOnly then .error .readOnly
  else .ok { t with view := t.view.insert key value, writes := t.writes.insert key (some value) }

def delete (t : Transaction) (key : Bytes) : Except StoreError Transaction :=
  if t.readOnly then .error .readOnly
  else .ok { t with view := t.view.erase key, writes := t.writes.insert key none }

end Transaction

namespace Version

def empty : Version := ⟨∅, ∅, 0⟩

def stale (v : Version) (readSeq : Nat) (reads : List Bytes) : Bool :=
  reads.any fun key =>
    match v.written.get? key with
    | some seq => readSeq < seq
    | none => false

def write (v : Version) (seq : Nat) (key : Bytes) (value : Option Bytes) : Version :=
  { v with
    data := match value with
      | some value => v.data.insert key value
      | none => v.data.erase key
    written := v.written.insert key seq }

/-- The next version: all writes at once under the next commit number. -/
def advance (v : Version) (writes : Table Bytes (Option Bytes)) : Version :=
  let seq := v.seq + 1
  writes.entries.foldl (fun v (key, value) => v.write seq key value) { v with seq }

def prune (v : Version) (oldest : Nat) : Version :=
  { v with written := v.written.filter fun entry => oldest < entry.2 }

end Version

namespace Store

def pruneInterval : Nat := 64

def empty : Store := ⟨Version.empty, ∅⟩

def size (s : Store) : Nat := s.current.data.size

def trackedWrites (s : Store) : Nat := s.current.written.size

def pin (s : Store) (seq : Nat) : Store :=
  { s with pinned := s.pinned.insert seq ((s.pinned.get? seq).getD 0 + 1) }

def unpin (s : Store) (seq : Nat) : Store :=
  match s.pinned.get? seq with
  | none => s
  | some count =>
    { s with pinned := if count ≤ 1 then s.pinned.erase seq else s.pinned.insert seq (count - 1) }

/-- Opens a transaction on the committed version. Only write transactions hold their snapshot. -/
def start (s : Store) (readOnly : Bool) : Transaction × Store :=
  let t : Transaction :=
    { view := s.current.data, readSeq := s.current.seq, writes := ∅, reads := [], readOnly }
  (t, if readOnly then s else s.pin s.current.seq)

def release (s : Store) (t : Transaction) : Store :=
  if t.readOnly then s else s.unpin t.readSeq

def oldestPin (s : Store) (otherwise : Nat) : Nat :=
  match s.pinned.entries with
  | (seq, _) :: _ => seq
  | [] => otherwise

def apply (s : Store) (t : Transaction) : Except StoreError Unit × Store × List Event :=
  if s.current.stale t.readSeq t.reads then
    (.error .conflict, s, [.commitConflict t.readSeq])
  else
    let next := s.current.advance t.writes
    if next.seq % pruneInterval = 0 then
      let oldest := s.oldestPin next.seq
      let kept := next.prune oldest
      (.ok (), { s with current := kept }, [.pruned oldest (next.written.size - kept.written.size)])
    else (.ok (), { s with current := next }, [])

/-- Ends a transaction with its writes, if it has any. Its own snapshot is held meanwhile. -/
def commit (s : Store) (t : Transaction) : Except StoreError Unit × Store × List Event :=
  if t.readOnly || t.writes.isEmpty then (.ok (), s.release t, [])
  else
    let (result, s, events) := s.apply t
    (result, s.release t, events)

end Store

end DocStore
