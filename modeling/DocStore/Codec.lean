import DocStore.Text.Utf8
import DocStore.Value

/-!
# Codecs

A codec turns values into bytes and back, once for stored records and once for keys and index
values. `orderedKeys` promises that key bytes sort like the values they stand for and decode to the
kind they came from, so that index entries can be filtered before their records are read.
-/

namespace DocStore

inductive KeyKind where
  | boolean
  | integer
  | double
  | datetime
  | objectId
  deriving DecidableEq, Repr

namespace KeyKind

def name : KeyKind → String
  | .boolean => "boolean"
  | .integer => "integer"
  | .double => "double"
  | .datetime => "datetime"
  | .objectId => "object id"

def width : KeyKind → Nat
  | .boolean => 1
  | .integer | .double | .datetime => 8
  | .objectId => 12

end KeyKind

inductive CodecError where
  | emptyKey
  | malformedKey (what : KeyKind) (length : Nat)
  | malformedBinaryKey
  | unknownKeyTag (tag : UInt8)
  | missingPayload
  | invalidText (fault : Text.Utf8.Fault)
  | notADocument (typeName kind : String)
  /-- Bytes that are no value of the format. -/
  | malformedValue (reason : String)
  /-- A value that the format cannot hold. -/
  | unencodable (reason : String)
  /-- A document that lacks a field its entity requires. -/
  | missingField (name : String)
  /-- A value of another kind than the one asked for. -/
  | wrongKind (expected found : String)
  /-- A failure that a caller's own code reports. -/
  | custom (text : String)
  deriving DecidableEq, Repr

namespace CodecError

def hexByte (b : UInt8) : String := Bytes.hex [b]

def message : CodecError → String
  | .emptyKey => "empty key"
  | .malformedKey what length =>
    s!"malformed {what.name} key: expected {what.width} bytes, got {length}"
  | .malformedBinaryKey => "malformed binary key"
  | .unknownKeyTag tag => "unknown key tag 0x" ++ hexByte tag
  | .missingPayload => "encoded value is missing its payload"
  | .invalidText fault => fault.message
  | .notADocument typeName kind => s!"{typeName} record decoded to {kind}, not a document"
  | .malformedValue reason => "malformed value: " ++ reason
  | .unencodable reason => "value cannot be encoded: " ++ reason
  | .missingField name => "missing field " ++ name
  | .wrongKind expected found => s!"expected {expected}, found {found}"
  | .custom text => text

end CodecError

structure Codec where
  name : String
  orderedKeys : Bool
  encode : Value → Except CodecError Bytes
  decode : Bytes → Except CodecError Value
  encodeKey : Value → Except CodecError Bytes
  decodeKey : Bytes → Except CodecError Value

end DocStore
