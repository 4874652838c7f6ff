import DocStore.Codec
import DocStore.Codec.Tagged

/-!
# MessagePack

A compact binary form for stored values, used for keys as well, so index entries follow its byte
order and not the order of values. Integers take their shortest form, whatever their kind, and read
back in the smallest kind that a number of that form may need. Kinds that MessagePack does not know
are tagged maps. A map must end with its tag, and containers nest no deeper than `maxDepth`.
-/

namespace DocStore.MessagePack

def natBytes (n : Nat) : Bytes :=
  if n < 0x80 then [UInt8.ofNat n]
  else if n < 0x100 then 0xcc :: Bytes.be 1 n
  else if n < 0x10000 then 0xcd :: Bytes.be 2 n
  else if n < 0x100000000 then 0xce :: Bytes.be 4 n
  else 0xcf :: Bytes.be 8 n

def signedBytes (width : Nat) (n : Int) : Bytes := Bytes.be width (n + Bytes.span width).toNat

def intBytes (n : Int) : Bytes :=
  if 0 ≤ n then natBytes n.toNat
  else if -32 ≤ n then signedBytes 1 n
  else if -0x80 ≤ n then 0xd0 :: signedBytes 1 n
  else if -0x8000 ≤ n then 0xd1 :: signedBytes 2 n
  else if -0x80000000 ≤ n then 0xd2 :: signedBytes 4 n
  else 0xd3 :: signedBytes 8 n

def textBytes (s : String) : Bytes :=
  let bytes := Bytes.ofString s
  let n := bytes.length
  (if n < 32 then [UInt8.ofNat (0xa0 + n)]
    else if n < 0x100 then 0xd9 :: Bytes.be 1 n
    else if n < 0x10000 then 0xda :: Bytes.be 2 n
    else 0xdb :: Bytes.be 4 n) ++ bytes

def dataBytes (data : Bytes) : Bytes :=
  let n := data.length
  (if n < 0x100 then 0xc4 :: Bytes.be 1 n
    else if n < 0x10000 then 0xc5 :: Bytes.be 2 n
    else 0xc6 :: Bytes.be 4 n) ++ data

def arrayHeader (n : Nat) : Bytes :=
  if n < 16 then [UInt8.ofNat (0x90 + n)]
  else if n < 0x10000 then 0xdc :: Bytes.be 2 n
  else 0xdd :: Bytes.be 4 n

def mapHeader (n : Nat) : Bytes :=
  if n < 16 then [UInt8.ofNat (0x80 + n)]
  else if n < 0x10000 then 0xde :: Bytes.be 2 n
  else 0xdf :: Bytes.be 4 n

def tagged (name : String) (content : Bytes) : Bytes := mapHeader 1 ++ textBytes name ++ content

def pair (first : String) (a : Bytes) (second : String) (b : Bytes) : Bytes :=
  mapHeader 2 ++ textBytes first ++ a ++ textBytes second ++ b

mutual
def bytes : Value → Bytes
  | .null => [0xc0]
  | .boolean b => [if b then 0xc3 else 0xc2]
  | .int32 n => intBytes n.toInt
  | .int64 n => intBytes n.toInt
  | .double x => 0xcb :: Bytes.be 8 x.bits.toNat
  | .string s => textBytes s
  | .array items => arrayHeader items.length ++ itemBytes items
  | .document fields => mapHeader fields.length ++ fieldBytes fields
  | .binary 0 data => dataBytes data
  | .binary subtype data =>
    tagged "$binary" (pair "base64" (textBytes (Text.Base64.encode data)) "subType"
      (textBytes (Bytes.hex [subtype])))
  | .date millis =>
    tagged "$date" (tagged "$numberLong" (textBytes (toString millis.toInt)))
  | .objectId id => tagged "$oid" (textBytes id.bytes.hex)
  | .pointer collection id =>
    tagged "$dbPointer" (pair "$ref" (textBytes collection) "$id"
      (tagged "$oid" (textBytes id.bytes.hex)))
  | .timestamp time increment =>
    tagged "$timestamp" (pair "t" (natBytes time.toNat) "i" (natBytes increment.toNat))
  | .regex pattern options =>
    tagged "$regularExpression" (pair "pattern" (textBytes pattern) "options" (textBytes options))
  | .code source => tagged "$code" (textBytes source)
  | .scopedCode source scope =>
    pair "$code" (textBytes source) "$scope" (mapHeader scope.length ++ fieldBytes scope)
  | .symbol s => tagged "$symbol" (textBytes s)
  | .decimal d => tagged "$numberDecimalBytes" (dataBytes d.bytes)
  | .undefined => tagged "$undefined" [0xc3]
  | .minKey => tagged "$minKey" [1]
  | .maxKey => tagged "$maxKey" [1]
def itemBytes : List Value → Bytes
  | [] => []
  | value :: rest => bytes value ++ itemBytes rest
def fieldBytes : List (String × Value) → Bytes
  | [] => []
  | (name, value) :: rest => textBytes name ++ bytes value ++ fieldBytes rest
end

def readNat? (width : Nat) (b : Bytes) : Option (Nat × Bytes) := do
  let (digits, rest) ← Bytes.split? width b
  pure (Bytes.ofBe digits, rest)

def readSigned? (width : Nat) (b : Bytes) : Option (Int × Bytes) := do
  let (n, rest) ← readNat? width b
  pure (if 2 * n < Bytes.span width then (n : Int) else n - Bytes.span width, rest)

/-- A number without sign: the small kind if it fits, else the large one. -/
def natValue? (n : Nat) : Option Value :=
  if n < 0x80000000 then some (.int32 (Int32.ofNat n))
  else if n < 0x8000000000000000 then some (.int64 (Int64.ofNat n))
  else none

/-- A text that is not UTF-8 is taken for data. -/
def readText? (count : Nat) (b : Bytes) : Option (Value × Bytes) := do
  let (text, rest) ← Bytes.split? count b
  match text.toString? with
  | some s => pure (.string s, rest)
  | none => pure (.binary 0 text, rest)

/-- What a first byte announces; a `width` is that of the number or count that follows. -/
inductive Header where
  | value (v : Value)
  | nat (width : Nat)
  | signed (width : Nat)
  | single
  | double
  | text (width : Nat)
  | data (width : Nat)
  | array (width : Nat)
  | map (width : Nat)
  /-- Data of a kind of its own. -/
  | extended (width : Nat)
  | shortText (count : Nat)
  | shortArray (count : Nat)
  | shortMap (count : Nat)
  | shortExtended (count : Nat)
  | unknown

def header (tag : UInt8) : Header :=
  let n := tag.toNat
  if n < 0x80 then .value (.int32 (Int32.ofNat n))
  else if n < 0x90 then .shortMap (n - 0x80)
  else if n < 0xa0 then .shortArray (n - 0x90)
  else if n < 0xc0 then .shortText (n - 0xa0)
  else if n = 0xc0 then .value .null
  else if n = 0xc1 then .unknown
  else if n = 0xc2 then .value (.boolean false)
  else if n = 0xc3 then .value (.boolean true)
  else if n ≤ 0xc6 then .data (1 <<< (n - 0xc4))
  else if n ≤ 0xc9 then .extended (1 <<< (n - 0xc7))
  else if n = 0xca then .single
  else if n = 0xcb then .double
  else if n ≤ 0xcf then .nat (1 <<< (n - 0xcc))
  else if n ≤ 0xd3 then .signed (1 <<< (n - 0xd0))
  else if n ≤ 0xd8 then .shortExtended (1 <<< (n - 0xd4))
  else if n ≤ 0xdb then .text (1 <<< (n - 0xd9))
  else if n ≤ 0xdd then .array (1 <<< (n - 0xdb))
  else if n ≤ 0xdf then .map (1 <<< (n - 0xdd))
  else .value (.int32 (Int32.ofInt ((n : Int) - 256)))

def readScalar? (header : Header) (b : Bytes) : Option (Value × Bytes) :=
  match header with
  | .value v => some (v, b)
  | .nat width => do
    let (n, b) ← readNat? width b
    pure (← natValue? n, b)
  | .signed width => do
    let (n, b) ← readSigned? width b
    pure (if width = 8 then .int64 (Int64.ofInt n) else .int32 (Int32.ofInt n), b)
  | .single => do
    let (n, b) ← readNat? 4 b
    pure (.double (Double.ofSingle (UInt32.ofNat n)), b)
  | .double => do
    let (n, b) ← readNat? 8 b
    pure (.double ⟨UInt64.ofNat n⟩, b)
  | .text width => do
    let (count, b) ← readNat? width b
    readText? count b
  | .shortText count => readText? count b
  | _ => none

def readData? (width : Nat) (b : Bytes) : Option (Bytes × Bytes) := do
  let (count, b) ← readNat? width b
  Bytes.split? count b

def readLeaf? (header : Header) (b : Bytes) : Option (Item × Bytes) :=
  match header with
  | .data width => do
    let (data, b) ← readData? width b
    pure (.data data, b)
  | _ => do
    let (value, b) ← readScalar? header b
    pure (.value value, b)

/-- What names a field of a map: a text, data that is UTF-8, or a number without sign. -/
def readName? : Bytes → Option (FieldName × Bytes)
  | [] => none
  | tag :: b =>
    match header tag with
    | .value (.int32 n) => if 0 ≤ n then some (.place 1 n.toNatClampNeg, b) else none
    | .nat width => do
      let (n, b) ← readNat? width b
      pure (.place width n, b)
    | .data width => do
      let (data, b) ← readData? width b
      pure (.text (← data.toString?), b)
    | other => do
      let (name, b) ← readScalar? other b
      match name with
      | .string s => pure (.text s, b)
      | _ => none

def readMany? {α : Type} (read : Bytes → Option (α × Bytes)) : Nat → Bytes → Option (List α × Bytes)
  | 0, b => some ([], b)
  | count + 1, b => do
    let (a, b) ← read b
    let (rest, b) ← readMany? read count b
    pure (a :: rest, b)

/-- The kind of its own is a number, and number and data make a list. -/
def readExtended? (count : Nat) (b : Bytes) : Option (Item × Bytes) := do
  let (kind, b) ← readSigned? 1 b
  let (data, b) ← Bytes.split? count b
  pure (.list [.value (.int32 (Int32.ofInt kind)), .value (.binary 0 data)], b)

/-- Reads an item in which containers nest no deeper than `depth`. -/
def readItem? : Nat → Bytes → Option (Item × Bytes)
  | _, [] => none
  | 0, tag :: b => readLeaf? (header tag) b
  | depth + 1, tag :: b =>
    let list (count : Nat) (b : Bytes) : Option (Item × Bytes) := do
      let (items, b) ← readMany? (readItem? depth) count b
      pure (.list items, b)
    let field (b : Bytes) : Option ((FieldName × Item) × Bytes) := do
      let (name, b) ← readName? b
      let (item, b) ← readItem? depth b
      pure ((name, item), b)
    let map (count : Nat) (b : Bytes) : Option (Item × Bytes) := do
      let (fields, b) ← readMany? field count b
      pure (.map fields, b)
    match header tag with
    | .shortArray count => list count b
    | .shortMap count => map count b
    | .shortExtended count => readExtended? count b
    | .array width => do
      let (count, b) ← readNat? width b
      list count b
    | .map width => do
      let (count, b) ← readNat? width b
      map count b
    | .extended width => do
      let (count, b) ← readNat? width b
      readExtended? count b
    | leaf => readLeaf? leaf b

def maxDepth : Nat := 1023

def read? (b : Bytes) : Option Value := do
  let (item, _) ← readItem? maxDepth b
  item.value? true

/-- Reads one value; what follows it is ignored. -/
def decode (b : Bytes) : Except CodecError Value :=
  match read? b with
  | some value => .ok value
  | none => .error (.malformedValue "no MessagePack value")

end DocStore.MessagePack

namespace DocStore.Codec

def messagePack : Codec where
  name := "msgpack"
  orderedKeys := false
  encode value := .ok (MessagePack.bytes value)
  decode := MessagePack.decode
  encodeKey value := .ok (MessagePack.bytes value)
  decodeKey := MessagePack.decode

end DocStore.Codec
