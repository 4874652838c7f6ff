import DocStore.Codec.Bson

/-!
# Ordered keys

Key bytes that compare like the values they encode. A tag comes first, the one BSON gives the kind;
an integer follows with its sign turned and its most significant byte first, a double so that
negative numbers count backwards. Both integer kinds share one form. Values without a natural byte
order follow in their stored form under the document tag.
-/

namespace DocStore.OrderedKey

def nullTag : UInt8 := 0x0a

def booleanTag : UInt8 := 0x08

def integerTag : UInt8 := 0x12

def doubleTag : UInt8 := 0x01

def stringTag : UInt8 := 0x02

def dateTag : UInt8 := 0x09

def objectIdTag : UInt8 := 0x07

def binaryTag : UInt8 := 0x05

def compositeTag : UInt8 := 0x03

/-- Counts from the least integer upwards. -/
def integerBytes (n : Int64) : Bytes := Bytes.be 8 (n.toInt - Int64.minValue.toInt).toNat

def integerOfBytes (b : Bytes) : Int64 := Int64.ofInt (Bytes.ofBe b + Int64.minValue.toInt)

def doubleBytes (x : Double) : Bytes :=
  let bits := x.bits.toNat
  Bytes.be 8 (if x.isNegative then UInt64.size - 1 - bits else bits + Double.signBit)

def doubleOfBytes (b : Bytes) : Double :=
  let n := Bytes.ofBe b
  ⟨UInt64.ofNat (if Double.signBit ≤ n then n - Double.signBit else UInt64.size - 1 - n)⟩

def encode : Value → Except CodecError Bytes
  | .null => .ok [nullTag]
  | .boolean b => .ok [booleanTag, if b then 1 else 0]
  | .int32 n => .ok (integerTag :: integerBytes n.toInt64)
  | .int64 n => .ok (integerTag :: integerBytes n)
  | .double x => .ok (doubleTag :: doubleBytes x)
  | .string s => .ok (stringTag :: Bytes.ofString s)
  | .date millis => .ok (dateTag :: integerBytes millis)
  | .objectId id => .ok (objectIdTag :: id.bytes)
  | .binary subtype data => .ok (binaryTag :: subtype :: data)
  | other => do
    let bytes ← Bson.encode other
    pure (compositeTag :: bytes)

def fixed (what : KeyKind) (b : Bytes) : Except CodecError Bytes :=
  if b.length = what.width then .ok b else .error (.malformedKey what b.length)

def decodeText (b : Bytes) : Except CodecError Value :=
  match b.toString?, Text.Utf8.fault? b with
  | some s, _ => .ok (.string s)
  | none, some fault => .error (.invalidText fault)
  | none, none => .error (.malformedValue "text is not UTF-8")

def decodeObjectId (b : Bytes) : Except CodecError Value :=
  match FixedBytes.ofBytes? 12 b with
  | some id => .ok (.objectId id)
  | none => .error (.malformedKey .objectId b.length)

def decode : Bytes → Except CodecError Value
  | [] => .error .emptyKey
  | tag :: rest =>
    if tag = nullTag then .ok .null
    else if tag = booleanTag then do
      let b ← fixed .boolean rest
      pure (.boolean (b != [0]))
    else if tag = integerTag then do
      let b ← fixed .integer rest
      pure (.int64 (integerOfBytes b))
    else if tag = doubleTag then do
      let b ← fixed .double rest
      pure (.double (doubleOfBytes b))
    else if tag = stringTag then decodeText rest
    else if tag = dateTag then do
      let b ← fixed .datetime rest
      pure (.date (integerOfBytes b))
    else if tag = objectIdTag then decodeObjectId rest
    else if tag = binaryTag then
      match rest with
      | [] => .error .malformedBinaryKey
      | subtype :: data => .ok (.binary subtype data)
    else if tag = compositeTag then Bson.decode rest
    else .error (.unknownKeyTag tag)

end DocStore.OrderedKey

namespace DocStore.Codec

def bson : Codec where
  name := "bson"
  orderedKeys := true
  encode := Bson.encode
  decode := Bson.decode
  encodeKey := OrderedKey.encode
  decodeKey := OrderedKey.decode

end DocStore.Codec
