import DocStore.Key
import DocStore.EngineError
import DocStore.Value

/-!
# Cursors

A cursor draws candidates from the records of a type or from the entries of an index, a page at a
time. Its place is a bookmark: the candidates fetched and not yet handed out, the last store key
fetched, and whether the end was reached. A page that fails leaves the bookmark where it was, so the
failure shows again and nothing is skipped.
-/

namespace DocStore

inductive Source where
  | records (typeName : String)
  | index (typeName indexName : String)
  deriving DecidableEq, Repr

namespace Source

def typeName : Source → String
  | .records typeName => typeName
  | .index typeName _ => typeName

def start : Source → Bytes
  | .records typeName => Key.recordPrefix typeName
  | .index typeName indexName => Key.indexPrefix typeName indexName

end Source

structure Candidate where
  key : Bytes
  value : Bytes
  deriving DecidableEq, Repr

structure Bookmark where
  batch : List Candidate
  seek : Option Bytes
  exhausted : Bool
  deriving DecidableEq, Repr

def Bookmark.start : Bookmark := ⟨[], none, false⟩

instance : Inhabited Bookmark := ⟨Bookmark.start⟩

/-- `raise` embeds the failures of the storage layer, `filter` tests decoded index values. -/
structure Cursor (ε : Type) where
  source : Source
  batchSize : Nat
  filter : Option (Value → Except ε Bool)
  raise : EngineError → ε

namespace Cursor

variable {ε : Type} (codec : Codec) (view : Data) (c : Cursor ε)

/-- A page has at least one pair. -/
def pageSize : Nat := max c.batchSize 1

def corrupt (fault : IndexFault) : ε :=
  match c.source with
  | .records typeName => c.raise (.corruptIndex typeName "" fault)
  | .index typeName indexName => c.raise (.corruptIndex typeName indexName fault)

/-- Whether the filter lets an index entry pass. Without a filter its value is not decoded. -/
def passes (entry : Bytes) : Except ε Bool :=
  match c.filter with
  | none => .ok true
  | some filter => do
    let value ← (codec.decodeKey (entry.drop c.source.start.length)).mapError (c.raise <| .codec ·)
    filter value

def listedKeys : List (Bytes × Bytes) → Except ε (List Bytes)
  | [] => .ok []
  | (entry, list) :: rest => do
    if ← c.passes codec entry then
      match KeyList.decode? list with
      | none => throw (c.corrupt .truncatedKeyList)
      | some keys => pure (keys ++ (← listedKeys rest))
    else listedKeys rest

def recordKey (key : Bytes) : Bytes := Key.recordPrefix c.source.typeName ++ key

def withRecords : List Bytes → Except ε (List Candidate)
  | [] => .ok []
  | key :: rest =>
    match view.get? (c.recordKey key) with
    | none => .error (c.corrupt .missingRecord)
    | some value => (withRecords rest).map (⟨key, value⟩ :: ·)

def candidates (page : List (Bytes × Bytes)) : Except ε (List Candidate) × List Bytes :=
  match c.source with
  | .records _ => (.ok (page.map fun (key, value) => ⟨key.drop c.source.start.length, value⟩), [])
  | .index _ _ =>
    match c.listedKeys codec page with
    | .error e => (.error e, [])
    | .ok keys => (c.withRecords view keys, keys.map c.recordKey)

def fill (b : Bookmark) : Except ε Bookmark × List Bytes :=
  let page := view.page c.source.start b.seek c.pageSize
  let (found, reads) := c.candidates codec view page
  let result := found.map fun more =>
    { batch := b.batch ++ more
      seek := (page.getLast?.map Prod.fst).or b.seek
      exhausted := decide (page.length < c.pageSize) : Bookmark }
  (result, page.map Prod.fst ++ reads)

/-- Draws with at most `fuel` looks at the bookmark. -/
def nextWith : Nat → Bookmark → Except ε (Option Candidate) × Bookmark × List Bytes
  | 0, b => (.ok none, b, [])
  | fuel + 1, b =>
    match b.batch with
    | candidate :: rest => (.ok (some candidate), { b with batch := rest }, [])
    | [] =>
      if b.exhausted then (.ok none, b, [])
      else
        match c.fill codec view b with
        | (.error e, reads) => (.error e, b, reads)
        | (.ok filled, reads) =>
          let (result, last, more) := nextWith fuel filled
          (result, last, reads ++ more)

/-- The next candidate, or none at the end; with the bookmark after it and the store keys read. A
page that is not the last one takes an entry of the view, so there are enough looks. -/
def next (b : Bookmark) : Except ε (Option Candidate) × Bookmark × List Bytes :=
  c.nextWith codec view (view.size + 2) b

end Cursor

end DocStore
