import DocStore.EngineError

/-!
# Failures of database operations

`QueryError` is a misuse noticed while a query is built; the query carries it and it is returned
before anything is read. `Failure` is what an operation of the database may end with.
-/

namespace DocStore

inductive QueryError where
  | invalidField (name : String)
  | skipAlreadySet
  | limitAlreadySet
  | pagingInOr
  | nestedIndex (name : String)
  | predicateOnKey
  | sortByKey
  | unknownIndex (typeName indexName : String)
  deriving DecidableEq, Repr

def QueryError.message : QueryError → String
  | .invalidField name =>
    s!"invalid field name {Text.quoted name}: every path segment must start with a letter or " ++
      "underscore"
  | .skipAlreadySet => "skip has already been set"
  | .limitAlreadySet => "limit has already been set"
  | .pagingInOr => "or-queries cannot contain skip or limit"
  | .nestedIndex name =>
    s!"index {Text.quoted name} is a nested path; only top-level indexes can be named"
  | .predicateOnKey => "predicate criteria cannot be applied to the key field"
  | .sortByKey => "cannot sort by the key field"
  | .unknownIndex typeName indexName => EngineError.unknownIndexMessage typeName indexName

inductive Misuse where
  | referenceOutsideRecord
  | keysOfNonDocument (kind : String)
  | neverNull (kind : String)
  | groupLength (count : Nat)
  deriving DecidableEq, Repr

def Misuse.message : Misuse → String
  | .referenceOutsideRecord => "field reference outside a record"
  | .keysOfNonDocument kind => s!"has_key needs a document, found {kind}"
  | .neverNull kind => s!"{kind} values are never null"
  | .groupLength count => s!"group has {count} value(s)"

inductive Failure where
  | notFound
  | keyExists
  | uniqueExists (typeName indexName : String)
  | typeMismatch (field left right : String)
  | invalidOperation (field : String) (misuse : Misuse)
  | invalidQuery (e : QueryError)
  | unknownField (typeName field : String)
  | conflict (attempts : Nat)
  /-- What a caller's own code reports. -/
  | callback (text : String)
  | codec (e : CodecError)
  | store (e : StoreError)
  | engine (e : EngineError)
  deriving DecidableEq, Repr

namespace Failure

def message : Failure → String
  | .notFound => "no data found for this key"
  | .keyExists => "this key already exists"
  | .uniqueExists typeName indexName => EngineError.uniqueMessage typeName indexName
  | .typeMismatch field left right =>
    s!"cannot compare {left} with {right} on field {Text.quoted field}"
  | .invalidOperation field misuse =>
    s!"invalid operation on field {Text.quoted field}: {misuse.message}"
  | .invalidQuery e => "invalid query: " ++ e.message
  | .unknownField typeName field => s!"field {Text.quoted field} does not exist in {typeName}"
  | .conflict attempts => s!"transaction conflict persisted after {attempts} attempt(s)"
  | .callback text => "callback failed: " ++ text
  | .codec e => "codec error: " ++ e.message
  | .store e => "store error: " ++ e.message
  | .engine e => "engine error: " ++ e.message

def isConflict : Failure → Bool
  | .conflict _ => true
  | .store .conflict => true
  | _ => false

/-- Failures of the storage layer that have a meaning of their own keep it. -/
def ofEngine : EngineError → Failure
  | .store e => .store e
  | .codec e => .codec e
  | .uniqueExists typeName indexName => .uniqueExists typeName indexName
  | .indexNotFound typeName indexName => .invalidQuery (.unknownIndex typeName indexName)
  | other => .engine other

end Failure

end DocStore
