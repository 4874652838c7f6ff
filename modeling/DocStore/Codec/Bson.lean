import DocStore.Codec
import DocStore.Codec.Tagged

/-!
# BSON

The binary form of documents. A document is its length, its fields and a closing NUL; a field is a
tag, a NUL-terminated name and the value. Reading accepts exactly the declared lengths, and a
repeated name takes its last value. A document whose fields spell a tagged map is read as the value
that the tag makes. What comes after the tag is not looked at, so there the NUL that closes a
document may be the end of the last value. A stored value is the document with the one field `v`.
-/

namespace DocStore.Bson

def tag : Value → UInt8
  | .double _ => 0x01
  | .string _ => 0x02
  | .document _ => 0x03
  | .array _ => 0x04
  | .binary _ _ => 0x05
  | .undefined => 0x06
  | .objectId _ => 0x07
  | .boolean _ => 0x08
  | .date _ => 0x09
  | .null => 0x0a
  | .regex _ _ => 0x0b
  | .pointer _ _ => 0x0c
  | .code _ => 0x0d
  | .symbol _ => 0x0e
  | .scopedCode _ _ => 0x0f
  | .int32 _ => 0x10
  | .timestamp _ _ => 0x11
  | .int64 _ => 0x12
  | .decimal _ => 0x13
  | .minKey => 0xff
  | .maxKey => 0x7f

def terminated (s : String) : Bytes := Bytes.ofString s ++ [0]

def sized (s : String) : Bytes :=
  let bytes := terminated s
  Bytes.le 4 bytes.length ++ bytes

def enclose (fields : Bytes) : Bytes := Bytes.le 4 (fields.length + 5) ++ fields ++ [0]

def int64Bytes (n : Int64) : Bytes := Bytes.le 8 n.toUInt64.toNat

/-- The old binary subtype repeats the length before the data. -/
def oldBinary : UInt8 := 2

def binaryBytes (subtype : UInt8) (data : Bytes) : Bytes :=
  if subtype = oldBinary then
    Bytes.le 4 (data.length + 4) ++ subtype :: (Bytes.le 4 data.length ++ data)
  else Bytes.le 4 data.length ++ subtype :: data

mutual
def payload : Value → Bytes
  | .double x => Bytes.le 8 x.bits.toNat
  | .string s => sized s
  | .document fields => enclose (fieldBytes fields)
  | .array items => enclose (itemBytes 0 items)
  | .binary subtype data => binaryBytes subtype data
  | .objectId id => id.bytes
  | .boolean b => [if b then 1 else 0]
  | .date millis => int64Bytes millis
  | .regex pattern options => terminated pattern ++ terminated (sortedOptions options)
  | .pointer collection id => sized collection ++ id.bytes
  | .code source => sized source
  | .symbol s => sized s
  | .scopedCode source scope =>
    let body := sized source ++ enclose (fieldBytes scope)
    Bytes.le 4 (body.length + 4) ++ body
  | .int32 n => Bytes.le 4 n.toUInt32.toNat
  | .timestamp time increment => Bytes.le 4 increment.toNat ++ Bytes.le 4 time.toNat
  | .int64 n => int64Bytes n
  | .decimal d => d.bytes
  | .undefined | .null | .minKey | .maxKey => []
def fieldBytes : List (String × Value) → Bytes
  | [] => []
  | (name, value) :: rest => tag value :: (terminated name ++ payload value) ++ fieldBytes rest
def itemBytes (position : Nat) : List Value → Bytes
  | [] => []
  | value :: rest =>
    tag value :: (terminated (toString position) ++ payload value) ++ itemBytes (position + 1) rest
end

mutual
/-- The first text that would have to be ended by NUL and holds one itself. -/
def unencodable? : Value → Option String
  | .document fields => unencodableField? fields
  | .array items => unencodableItem? items
  | .regex pattern options =>
    if hasNul pattern then some pattern else if hasNul options then some options else none
  | .scopedCode _ scope => unencodableField? scope
  | _ => none
def unencodableField? : List (String × Value) → Option String
  | [] => none
  | (name, value) :: rest =>
    if hasNul name then some name
    else
      match unencodable? value with
      | some text => some text
      | none => unencodableField? rest
def unencodableItem? : List Value → Option String
  | [] => none
  | value :: rest =>
    match unencodable? value with
    | some text => some text
    | none => unencodableItem? rest
end

def payloadName : String := "v"

def encode (value : Value) : Except CodecError Bytes :=
  match unencodable? value with
  | some text => .error (.unencodable text)
  | none => .ok (enclose (fieldBytes [(payloadName, value)]))

def readNat? (width : Nat) (b : Bytes) : Option (Nat × Bytes) := do
  let (digits, rest) ← Bytes.split? width b
  pure (Bytes.ofLe digits, rest)

def splitNul : Bytes → Option (Bytes × Bytes)
  | [] => none
  | b :: rest => if b = 0 then some ([], rest) else (splitNul rest).map fun (s, t) => (b :: s, t)

def readTerminated? (b : Bytes) : Option (String × Bytes) := do
  let (text, rest) ← splitNul b
  pure (← text.toString?, rest)

def readSized? (b : Bytes) : Option (String × Bytes) := do
  let (length, b) ← readNat? 4 b
  guard (length ≠ 0)
  let (text, b) ← Bytes.split? (length - 1) b
  let (last, b) ← Bytes.split? 1 b
  guard (last = [0])
  pure (← text.toString?, b)

def readEnclosed? (b : Bytes) : Option (Bytes × Bytes) := do
  let (length, b) ← readNat? 4 b
  guard (5 ≤ length)
  let (fields, b) ← Bytes.split? (length - 4) b
  guard (fields.getLast? = some 0)
  pure (fields, b)

def readInt64? (b : Bytes) : Option (Int64 × Bytes) := do
  let (n, b) ← readNat? 8 b
  pure ((UInt64.ofNat n).toInt64, b)

def readFixed? (width : Nat) (b : Bytes) : Option (FixedBytes width × Bytes) := do
  let (bytes, b) ← Bytes.split? width b
  pure (← FixedBytes.ofBytes? width bytes, b)

def readBinary? (b : Bytes) : Option (Value × Bytes) := do
  let (length, b) ← readNat? 4 b
  let (subtype, b) ← readNat? 1 b
  let subtype := UInt8.ofNat subtype
  let (data, b) ← Bytes.split? length b
  if subtype = oldBinary then
    let (inner, data) ← readNat? 4 data
    guard (inner = data.length)
    pure (.binary subtype data, b)
  else pure (.binary subtype data, b)

def readScalar? (tag : UInt8) (b : Bytes) : Option (Value × Bytes) :=
  match tag with
  | 0x01 => do let (n, b) ← readNat? 8 b; pure (.double ⟨UInt64.ofNat n⟩, b)
  | 0x02 => do let (s, b) ← readSized? b; pure (.string s, b)
  | 0x05 => readBinary? b
  | 0x06 => some (.undefined, b)
  | 0x07 => do let (id, b) ← readFixed? 12 b; pure (.objectId id, b)
  | 0x08 => do
    let (n, b) ← readNat? 1 b
    guard (n < 2)
    pure (.boolean (n = 1), b)
  | 0x09 => do let (n, b) ← readInt64? b; pure (.date n, b)
  | 0x0a => some (.null, b)
  | 0x0b => do
    let (pattern, b) ← readTerminated? b
    let (options, b) ← readTerminated? b
    pure (.regex pattern (sortedOptions options), b)
  | 0x0c => do
    let (collection, b) ← readSized? b
    let (id, b) ← readFixed? 12 b
    pure (.pointer collection id, b)
  | 0x0d => do let (s, b) ← readSized? b; pure (.code s, b)
  | 0x0e => do let (s, b) ← readSized? b; pure (.symbol s, b)
  | 0x10 => do let (n, b) ← readNat? 4 b; pure (.int32 (UInt32.ofNat n).toInt32, b)
  | 0x11 => do
    let (increment, b) ← readNat? 4 b
    let (time, b) ← readNat? 4 b
    pure (.timestamp (UInt32.ofNat time) (UInt32.ofNat increment), b)
  | 0x12 => do let (n, b) ← readInt64? b; pure (.int64 n, b)
  | 0x13 => do let (d, b) ← readFixed? 16 b; pure (.decimal d, b)
  | 0xff => some (.minKey, b)
  | 0x7f => some (.maxKey, b)
  | _ => none

/-- What stands for the rest of a document that cannot be read on. -/
def brokenField : FieldName × Item := (.text "", .broken)

mutual
def readItem? : Nat → UInt8 → Bytes → Option (Item × Bytes)
  | 0, _, _ => none
  | fuel + 1, tag, b =>
    match tag with
    | 0x03 => do
      let (inner, b) ← readEnclosed? b
      pure (.map (readFields fuel inner), b)
    | 0x04 => do
      let (inner, b) ← readEnclosed? b
      pure (.list ((readFields fuel inner).map Prod.snd), b)
    | 0x0f => do
      let (length, rest) ← readNat? 4 b
      let (source, rest) ← readSized? rest
      let (inner, rest) ← readEnclosed? rest
      guard (b.length = length + rest.length)
      pure (.map [(.text Tag.code, .value (.string source)),
        (.text Tag.scope, .map (readFields fuel inner))], rest)
    | _ => do
      let (value, b) ← readScalar? tag b
      pure (.value value, b)
/-- Reads fields up to a NUL that is the last byte, or up to a field that is broken. -/
def readFields : Nat → Bytes → List (FieldName × Item)
  | 0, _ => [brokenField]
  | _, [] => [brokenField]
  | fuel + 1, tag :: b =>
    if tag = 0 ∧ b.isEmpty then []
    else
      match readTerminated? b with
      | none => [brokenField]
      | some (name, b) =>
        match readItem? fuel tag b with
        | none => [brokenField]
        | some (item, b) => (.text name, item) :: readFields fuel b
end

/-- Reads one document that takes up all the bytes. -/
def readDocument? (b : Bytes) : Option Fields := do
  let (inner, rest) ← readEnclosed? b
  guard rest.isEmpty
  (Item.map (readFields (inner.length + 1) inner)).value? false >>= Value.fields?

def decode (b : Bytes) : Except CodecError Value :=
  match readDocument? b with
  | none => .error (.malformedValue "no BSON document")
  | some fields =>
    match fields.get? payloadName with
    | some value => .ok value
    | none => .error .missingPayload

end DocStore.Bson
