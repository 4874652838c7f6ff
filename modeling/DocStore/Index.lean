import DocStore.Key
import DocStore.Path
import DocStore.Value.Order
import DocStore.Work

/-!
# Secondary indexes

An index has one entry per value, which lists the primary keys of the records holding that value.
Whoever writes a record takes its key out of the entries of the old document and puts it into those
of the new one, in the same transaction. A lookup of a whole number tries its integer and its double
form, since both are equal to a query.
-/

namespace DocStore.Index

variable (codec : Codec) (schema : Schema)

def entryKey (spec : IndexSpec) (value : Value) : Except EngineError Bytes := do
  let encoded ← (codec.encodeKey value).mapError .codec
  pure (Key.encode (.index schema.typeName spec.name encoded))

def readEntry (spec : IndexSpec) (entry : Bytes) : Reading EngineError (List Bytes) := do
  match ← Reading.get entry with
  | none => pure []
  | some bytes =>
    match KeyList.decode? bytes with
    | some keys => pure keys
    | none => throw (EngineError.corruptIndex schema.typeName spec.name .truncatedKeyList)

def entryOf (spec : IndexSpec) (record : Document) : Except EngineError Bytes :=
  entryKey codec schema spec (record.lookupOrNull spec.field)

def readEntryOf (spec : IndexSpec) (record : Document) : Work EngineError (Bytes × List Bytes) := do
  let entry ← Work.ofExcept (entryOf codec schema spec record)
  let keys ← Work.ofReading (readEntry schema spec entry)
  pure (entry, keys)

def checkUniqueIn (key : Bytes) (record : Document) : List IndexSpec → Work EngineError Unit
  | [] => pure ()
  | spec :: rest => do
    if spec.unique then
      let (_, keys) ← readEntryOf codec schema spec record
      if keys.any (· != key) then throw (.uniqueExists schema.typeName spec.name)
    checkUniqueIn key record rest

/-- Fails if a unique value of `record` is held by another key. Writes nothing. -/
def checkUnique (key : Bytes) (record : Document) : Work EngineError Unit :=
  checkUniqueIn codec schema key record schema.indexes

def addIn (key : Bytes) (record : Document) : List IndexSpec → Work EngineError Unit
  | [] => pure ()
  | spec :: rest => do
    let (entry, keys) ← readEntryOf codec schema spec record
    if spec.unique then
      if keys.any (· != key) then throw (.uniqueExists schema.typeName spec.name)
      Work.put entry (KeyList.encode [key])
    else
      Work.put entry (KeyList.encode (if keys.contains key then keys else keys ++ [key]))
    addIn key record rest

def add (key : Bytes) (record : Document) : Work EngineError Unit :=
  addIn codec schema key record schema.indexes

def deleteIn (key : Bytes) (record : Document) : List IndexSpec → Work EngineError Unit
  | [] => pure ()
  | spec :: rest => do
    let (entry, keys) ← readEntryOf codec schema spec record
    let kept := keys.filter (· != key)
    if kept.isEmpty then Work.delete entry else Work.put entry (KeyList.encode kept)
    deleteIn key record rest

/-- Takes `key` out of the entries of `record`'s values. An entry left empty is deleted. -/
def delete (key : Bytes) (record : Document) : Work EngineError Unit :=
  deleteIn codec schema key record schema.indexes

def deleteAll : List Bytes → Work EngineError Unit
  | [] => pure ()
  | key :: rest => do
    Work.delete key
    deleteAll rest

def remove (name : String) : Work EngineError Nat := do
  match schema.findIndex name with
  | none => throw (.indexNotFound schema.typeName name)
  | some spec =>
    let found ← Work.ofReading (Reading.scan (Key.indexPrefix schema.typeName spec.name))
    deleteAll (found.map Prod.fst)
    Work.report (.removedIndex schema.typeName name found.length)
    pure found.length

/-- Doubles of this size and more are looked up in their own form only. -/
def wholeBound : Nat := 9000000000000000

def variants : Value → List Value
  | .int32 n => [.int64 n.toInt64, .double (.ofInt n.toInt)]
  | .int64 n => [.int64 n, .double (.ofInt n.toInt)]
  | .double x =>
    match x.wholeBelow? wholeBound with
    | some n => [.double x, .int64 (Int64.ofInt n)]
    | none => [.double x]
  | other => [other]

def collect (spec : IndexSpec) : List Value → Reading EngineError (List Bytes)
  | [] => pure []
  | value :: rest => do
    let entry ← Reading.ofExcept (entryKey codec schema spec value)
    let keys ← readEntry schema spec entry
    let more ← collect spec rest
    pure (keys ++ more)

def sortKeys (keys : List Bytes) : List Bytes :=
  (keys.foldl (fun (t : Table Bytes Unit) key => t.insert key ()) ∅).keys

theorem ascending_sortKeys (keys : List Bytes) : (sortKeys keys).Pairwise (· < ·) :=
  Table.ascending_keys _

def lookup (spec : IndexSpec) (values : List Value) :
    Reading EngineError (List Bytes) := do
  let found ← collect codec schema spec (values.flatMap variants)
  pure (sortKeys found)

end DocStore.Index
