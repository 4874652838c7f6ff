import DocStore.Evaluation
import DocStore.Index
import DocStore.Plan

/-!
# Running queries

A query runs as one pass per branch. A row that an earlier pass has found is passed over, and
skipping and limiting count across all passes. What is done with a row is up to the caller's `sink`,
which has a state of its own and may end the search by failing.

All scans of one search share one bookmark. A scan that is begun inside a predicate puts the place
of the enclosing scan aside and restores it at its end.
-/

namespace DocStore

abbrev Sink (σ : Type) := Row → ExceptT Failure (StateM σ) Unit

structure Sweep (σ : Type) where
  trail : Trail
  /-- The keys of the rows found so far. -/
  seen : List Bytes
  /-- Rows still to be skipped. -/
  skip : Nat
  emitted : Nat
  acc : σ

abbrev Sweeping (σ α : Type) := ExceptT Failure (StateM (Sweep σ)) α

namespace Sweeping

variable {σ α : Type}

def ofExec (work : Exec α) : Sweeping σ α := fun sweep =>
  let (result, trail) := work sweep.trail
  (result, { sweep with trail })

def ofSink (work : ExceptT Failure (StateM σ) α) : Sweeping σ α := fun sweep =>
  let (result, acc) := work sweep.acc
  (result, { sweep with acc })

/-- Runs from a fresh bookmark and puts the old one back, also after a failure. -/
def parked (work : Sweeping σ α) : Sweeping σ α := fun sweep =>
  let bookmark := sweep.trail.bookmark
  let (result, sweep) := work { sweep with trail := { sweep.trail with bookmark := .start } }
  (result, { sweep with trail := { sweep.trail with bookmark } })

def draw (scene : Scene) (cursor : Cursor Failure) : Sweeping σ (Option Candidate) := fun sweep =>
  let (result, bookmark, reads) := cursor.next scene.codec scene.view sweep.trail.bookmark
  (result, { sweep with
    trail := { sweep.trail with bookmark, reads := reads.reverse ++ sweep.trail.reads } })

end Sweeping

/-- At least as many as the candidates of any scan: a key in a list takes up more than one byte. -/
def Data.candidateBound (view : Data) : Nat :=
  view.entries.foldr (fun entry total => entry.2.length + 1 + total) 0

namespace Search

def decodeRecord (codec : Codec) (schema : Schema) (key value : Bytes) :
    Except Failure Document := do
  match ← (codec.decode value).mapError .codec with
  | .document fields =>
    match schema.keyField with
    | some field => do
      let id ← (codec.decodeKey key).mapError .codec
      pure (Document.insert ⟨fields⟩ field id)
    | none => pure ⟨fields⟩
  | other => throw (.codec (.notADocument schema.typeName other.kind))

variable {σ : Type} (scene : Scene) (schema : Schema) (sink : Sink σ) (limit : Option Nat)

def isFull : Sweeping σ Bool := do
  let sweep ← get
  pure (limit.any (· ≤ sweep.emitted))

def accept (row : Row) : Sweeping σ Unit := do
  let sweep ← get
  let sweep := { sweep with seen := row.key :: sweep.seen }
  if sweep.skip = 0 then
    set { sweep with emitted := sweep.emitted + 1 }
    Sweeping.ofSink (sink row)
  else set { sweep with skip := sweep.skip - 1 }

def consider (q : Query Test) (candidate : Candidate) : Sweeping σ Unit := do
  let sweep ← get
  if sweep.seen.contains candidate.key then pure ()
  else
    let doc ← Sweeping.ofExec <| Exec.ofExcept <|
      decodeRecord scene.codec schema candidate.key candidate.value
    let row : Row := ⟨candidate.key, doc⟩
    if ← Sweeping.ofExec (Evaluation.clausesHold scene schema row q.clauses) then accept sink row

def considerEach (q : Query Test) (spec : IndexSpec) :
    List (Bytes × Option Bytes) → Sweeping σ Unit
  | [] => pure ()
  | (key, value) :: rest => do
    if ← isFull limit then pure ()
    else
      match value with
      | none => throw (.engine (.corruptIndex schema.typeName spec.name .missingRecord))
      | some value =>
        consider scene schema sink q ⟨key, value⟩
        considerEach q spec rest

def considerDrawn (q : Query Test) (cursor : Cursor Failure) : Nat → Sweeping σ Unit
  | 0 => pure ()
  | fuel + 1 => do
    if ← isFull limit then pure ()
    else
      match ← Sweeping.draw scene cursor with
      | none => pure ()
      | some candidate =>
        consider scene schema sink q candidate
        considerDrawn q cursor fuel

def scan (q : Query Test) (source : Source) (filter : Option (Value → Except Failure Bool)) :
    Sweeping σ Unit :=
  let cursor : Cursor Failure :=
    { source, batchSize := scene.batchSize, filter, raise := .ofEngine }
  Sweeping.parked <|
    considerDrawn scene schema sink limit q cursor (scene.view.candidateBound + 1)

def pass (q : Query Test) : Sweeping σ Unit := do
  let plan ← Sweeping.ofExec <| Exec.ofExcept <| Plan.make scene.codec schema q
  Sweeping.ofExec <| Exec.report <| .queryPass schema.typeName plan.text
  match plan with
  | .lookup spec values =>
    let keys ← Sweeping.ofExec <| Exec.ofReading scene.view <|
      Index.lookup scene.codec schema spec values
    let found ← Sweeping.ofExec <| Exec.ofReading scene.view <| Reading.multiGet <|
      keys.map fun key => Key.encode (.record schema.typeName key)
    considerEach scene schema sink limit q spec (keys.zip found)
  | .indexScan spec filtered =>
    scan scene schema sink limit q (.index schema.typeName spec.name) <|
      if filtered then some (Evaluation.indexFilter schema q spec.field) else none
  | .recordScan => scan scene schema sink limit q (.records schema.typeName) none

def passEach : List (Query Test) → Sweeping σ Unit
  | [] => pure ()
  | q :: rest => do
    if ← isFull limit then pure ()
    else
      pass scene schema sink limit q
      passEach rest

/-- The first pass is made even if no row is wanted. -/
def passAll : List (Query Test) → Sweeping σ Unit
  | [] => pure ()
  | q :: rest => do
    pass scene schema sink limit q
    passEach scene schema sink limit rest

def sweep (q : Query Test) (acc : σ) (trail : Trail) : Except Failure Unit × σ × Trail :=
  let (result, last) := passAll scene schema sink q.limit q.branches
    { trail, seen := [], skip := q.skipCount, emitted := 0, acc }
  (result, last.acc, last.trail)

/-- Collects rows, the last one first. -/
def collector : Sink (List Row) := fun row rows => (.ok (), row :: rows)

def sweepRows (q : Query Test) : Exec (List Row) := fun trail =>
  let (result, rows, trail) := sweep scene schema collector q [] trail
  (result.map fun _ => rows.reverse, trail)

def feed (rows : List Row) : ExceptT Failure (StateM σ) Unit := rows.forM sink

def checkSortFields (fields : List String) (rows : List Row) : Except Failure Unit :=
  rows.forM fun row => fields.forM fun field =>
    match row.doc.lookup field with
    | some _ => .ok ()
    | none => .error (.unknownField schema.typeName field)

def compareBy (a b : Document) : List String → Ordering
  | [] => .eq
  | field :: rest =>
    let order := match a.lookup field, b.lookup field with
      | some x, some y => x.compareOrText y
      | _, _ => .eq
    order.then (compareBy a b rest)

/-- Rows that tie keep their order in both directions. -/
def sortRows (fields : List String) (reversed : Bool) (rows : List Row) : List Row :=
  stableSort (fun a b =>
    let order := compareBy a.doc b.doc fields
    (if reversed then order.swap else order) == .lt) rows

def slice (q : Query Test) (rows : List Row) : List Row :=
  let rest := rows.drop q.skipCount
  match q.limit with
  | some limit => rest.take limit
  | none => rest

def sortedRows (q : Query Test) : Exec (List Row) := do
  let rows ← sweepRows scene schema q.unpaged
  Exec.ofExcept (checkSortFields schema q.sortFields rows)
  pure (sortRows q.sortFields q.reversed rows)

def walk (q : Query Test) (acc : σ) (trail : Trail) : Except Failure Unit × σ × Trail :=
  match q.validate with
  | .error e => (.error e, acc, trail)
  | .ok _ =>
    if q.sortFields.isEmpty then sweep scene schema sink q acc trail
    else
      match sortedRows scene schema q trail with
      | (.error e, trail) => (.error e, acc, trail)
      | (.ok rows, trail) =>
        let (result, acc) := feed sink (slice q rows) acc
        (result, acc, trail)

def findRows (q : Query Test) : Exec (List Row) := fun trail =>
  let (result, rows, trail) := walk scene schema collector q [] trail
  (result.map fun _ => rows.reverse, trail)

def counter : Sink Nat := fun _ count => (.ok (), count + 1)

def count (q : Query Test) : Exec Nat := fun trail =>
  let (result, count, trail) := walk scene schema counter q 0 trail
  (result.map fun _ => count, trail)

def grouper (typeName : String) (fields : List String) : Sink (List Group) := fun row groups =>
  match Group.push typeName fields groups row.doc with
  | .ok groups => (.ok (), groups)
  | .error e => (.error e, groups)

/-- Records cannot be grouped by the primary key. -/
def aggregate (q : Query Test) (fields : List String) : Exec (List Group) := fun trail =>
  if fields.contains keyName then (.error (.invalidQuery (.invalidField keyName)), trail)
  else
    let (result, groups, trail) := walk scene schema (grouper schema.typeName fields) q
      (Group.initial schema.typeName fields) trail
    (result.map fun _ => groups, trail)

def findDocuments (entity : Entity) (q : Query Test) : Exec (List Document) := do
  let schema ← Exec.ofExcept entity.validSchema
  let rows ← findRows scene schema q
  Exec.ofExcept (rows.mapM fun row => entity.read row.doc)

def aggregateEntity (entity : Entity) (q : Query Test) (fields : List String) :
    Exec (List Group) := do
  let schema ← Exec.ofExcept entity.validSchema
  aggregate scene schema q fields

end Search

section Ready

variable (scene : Scene)

mutual
def Inquiry.run : Inquiry → Exec Bool
  | .answer holds => pure holds
  | .fail failure => throw failure
  | .find entity query next => fun trail =>
    let (outcome, trail) := Search.findDocuments scene entity query.ready trail
    (next outcome).run trail
  | .aggregate entity query fields next => fun trail =>
    let (outcome, trail) := Search.aggregateEntity scene entity query.ready fields trail
    (next outcome).run trail
def Query.ready : Query (Value → Document → Inquiry) → Query Test
  | ⟨clauses, ors, indexName, sortFields, reversed, skip, limit, error⟩ =>
    ⟨readyClauses clauses, readyOrs ors, indexName, sortFields, reversed, skip, limit, error⟩
def readyOrs : List (Query (Value → Document → Inquiry)) → List (Query Test)
  | [] => []
  | q :: rest => q.ready :: readyOrs rest
def readyClauses : List (Clause (Value → Document → Inquiry)) → List (Clause Test)
  | [] => []
  | c :: rest => readyClause c :: readyClauses rest
def readyClause : Clause (Value → Document → Inquiry) → Clause Test
  | ⟨field, criterion⟩ => ⟨field, readyCriterion criterion⟩
def readyCriterion : Criterion (Value → Document → Inquiry) → Criterion Test
  | .condition c => .condition c
  | .predicate p => .predicate fun value doc => (p value doc).run
end

end Ready

end DocStore
