import DocStore.Codec
import DocStore.Schema
import DocStore.Store

/-!
# Errors of the storage layer

What can go wrong between the store and the database: a failure of the store or the codec, a unique
value that is taken, and stored bytes or schemas that make no sense.
-/

namespace DocStore

inductive IndexFault where
  | truncatedKeyList
  | missingRecord
  deriving DecidableEq, Repr

def IndexFault.message : IndexFault → String
  | .truncatedKeyList => "truncated key list"
  | .missingRecord => "entry points at a missing record"

inductive EngineError where
  | store (e : StoreError)
  | codec (e : CodecError)
  | uniqueExists (typeName indexName : String)
  | corruptIndex (typeName indexName : String) (fault : IndexFault)
  | invalidSchema (typeName : String) (fault : SchemaFault)
  | corruptSequence (typeName : String)
  | indexNotFound (typeName indexName : String)
  deriving DecidableEq, Repr

namespace EngineError

def uniqueMessage (typeName indexName : String) : String :=
  s!"unique index {indexName} on {typeName} already holds this value"

def unknownIndexMessage (typeName indexName : String) : String :=
  s!"no index named {indexName} on {typeName}"

def message : EngineError → String
  | .store e => "store error: " ++ e.message
  | .codec e => "codec error: " ++ e.message
  | .uniqueExists typeName indexName => uniqueMessage typeName indexName
  | .corruptIndex typeName indexName fault =>
    s!"index {indexName} on {typeName} is corrupt: {fault.message}"
  | .invalidSchema typeName fault => s!"invalid schema for {typeName}: {fault.message}"
  | .corruptSequence typeName => s!"sequence for {typeName} is corrupt"
  | .indexNotFound typeName indexName => unknownIndexMessage typeName indexName

end EngineError

def Schema.validate (s : Schema) : Except EngineError Unit :=
  s.check.mapError (.invalidSchema s.typeName)

end DocStore
