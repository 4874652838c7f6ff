import DocStore.Calendar.Timestamp
import DocStore.Double.Literal
import DocStore.StableSort
import DocStore.Text.Base64
import DocStore.Text.Uuid
import DocStore.Value.Decimal128

/-!
# Tagged maps

The formats share one way to spell kinds that they lack: a map whose field name is a tag, a word
behind a dollar sign, stands for the value that the tag makes of the field's content. `Item` is a
value as the bytes spell it, and `Item.value?` is the value it stands for.

A map is read from left to right. A tag ends it at once, also after other fields, and a tag with a
content that it does not take spoils the whole value. A reader is `whole` if it refuses a map with
fields that are still to come when its value is known; other readers do not look at them.
-/

namespace DocStore

/-- Fields of a known body may be named by their place in it, a number of `width` bytes. -/
inductive FieldName where
  | text (s : String)
  | place (width n : Nat)
  deriving DecidableEq

inductive Item where
  | value (v : Value)
  /-- Plain data that passes for the list of its bytes as well. -/
  | data (bytes : Bytes)
  | list (items : List Item)
  | map (fields : List (FieldName × Item))
  /-- Bytes that spell nothing. -/
  | broken

namespace Item

def mayStop {α : Type} (whole : Bool) (rest : List α) : Bool := !whole || rest.isEmpty

/-- Plain data passes for a text if it is UTF-8. -/
def text? : Item → Option String
  | .value (.string s) => some s
  | .value (.binary 0 bytes) | .data bytes => bytes.toString?
  | _ => none

def int? : Item → Option Int
  | .value (.int32 n) => some n.toInt
  | .value (.int64 n) => some n.toInt
  | _ => none

def natBelow? (bound : Nat) (item : Item) : Option Nat := do
  let n ← item.int?
  guard (0 ≤ n ∧ n < bound)
  pure n.toNat

def uint32? (item : Item) : Option UInt32 := UInt32.ofNat <$> item.natBelow? UInt32.size

def data? : Item → Option Bytes
  | .value (.string s) => some (Bytes.ofString s)
  | .value (.binary 0 bytes) | .data bytes => some bytes
  | .list items => items.mapM fun item => UInt8.ofNat <$> item.natBelow? UInt8.size
  | _ => none

def ofByte (b : UInt8) : Item := .value (.int32 (Int32.ofNat b.toNat))

/-- The two parts of a body, which are named in any order or listed in theirs. -/
def body? (whole : Bool) (first second : String) : Item → Option (Item × Item)
  | .list (a :: b :: rest) => if mayStop whole rest then some (a, b) else none
  | .data (a :: b :: _) => some (ofByte a, ofByte b)
  | .map [(m, a), (n, b)] =>
    if names 0 first m && names 1 second n then some (a, b)
    else if names 1 second m && names 0 first n then some (b, a)
    else none
  | _ => none
where
  names (place : Nat) (name : String) : FieldName → Bool
    | .text s => s == name
    | .place _ n => n == place

end Item

/-- A regular expression's options have one order, that of their letters. -/
def sortedOptions (options : String) : String :=
  String.ofList (stableSort (fun a b => a < b) options.toList)

def hasNul (s : String) : Bool := s.toList.contains '\x00'

inductive Tag where
  | objectId
  | pointer
  | symbol
  | int32
  | int64
  | double
  | decimal
  | decimalBytes
  | binary
  | uuid
  | timestamp
  | regex
  | date
  | undefined
  | minKey
  | maxKey
  deriving DecidableEq, Repr

namespace Tag

def ofName? : String → Option Tag
  | "$oid" => some .objectId
  | "$dbPointer" => some .pointer
  | "$symbol" => some .symbol
  | "$numberInt" => some .int32
  | "$numberLong" => some .int64
  | "$numberDouble" => some .double
  | "$numberDecimal" => some .decimal
  | "$numberDecimalBytes" => some .decimalBytes
  | "$binary" => some .binary
  | "$uuid" => some .uuid
  | "$timestamp" => some .timestamp
  | "$regularExpression" => some .regex
  | "$date" => some .date
  | "$undefined" => some .undefined
  | "$minKey" => some .minKey
  | "$maxKey" => some .maxKey
  | _ => none

def code : String := "$code"

def scope : String := "$scope"

def uuidSubtype : UInt8 := 4

def int32? (n : Int) : Option Int32 :=
  if Int32.minValue.toInt ≤ n ∧ n ≤ Int32.maxValue.toInt then some (Int32.ofInt n) else none

def int64? (n : Int) : Option Int64 :=
  if Int64.minValue.toInt ≤ n ∧ n ≤ Int64.maxValue.toInt then some (Int64.ofInt n) else none

def int64OfText? (s : String) : Option Int64 := Text.Numeral.int? s.toList >>= int64?

def objectIdOfText? (s : String) : Option ObjectId := Bytes.ofHex? s >>= FixedBytes.ofBytes? 12

def objectId? : Item → Option ObjectId
  | .value (.string s) => objectIdOfText? s
  | .value (.binary 0 bytes) | .data bytes => FixedBytes.ofBytes? 12 bytes
  | _ => none

def namesObjectId : FieldName → Bool
  | .text s => s == "$oid"
  | .place _ n => n == 0

def pointedId? (whole : Bool) : Item → Option ObjectId
  | .value (.objectId id) => some id
  | .map [(name, id)] => do
    guard (namesObjectId name)
    objectIdOfText? (← id.text?)
  | .list (id :: rest) => do
    guard (Item.mayStop whole rest)
    objectIdOfText? (← id.text?)
  | _ => none

def binary? (base64 subtype : String) : Option Value := do
  let data ← Text.Base64.decode? base64
  match ← Bytes.ofHex? subtype with
  | [subtype] => pure (.binary subtype data)
  | _ => none

def regex? (pattern options : String) : Option Value := do
  guard (!hasNul pattern && !hasNul options)
  pure (.regex pattern (sortedOptions options))

/-- The name of milliseconds in a body of their own. A place has one byte there, or eight. -/
def namesMillis (name : FieldName) : Bool :=
  name == .text "$numberLong" || name == .place 1 0 || name == .place 8 0

/-- A date is the text of its milliseconds in a body of their own, a timestamp, or a number. -/
def date? : Item → Option Int64
  | .map [(name, millis)] => do
    guard (namesMillis name)
    int64OfText? (← millis.text?)
  | .list [millis] => millis.text? >>= int64OfText?
  | item =>
    match item.text? with
    | some s => Timestamp.millis? s >>= int64?
    | none => item.int? >>= int64?

def value? (whole : Bool) (tag : Tag) (content : Item) : Option Value :=
  match tag with
  | .objectId => .objectId <$> objectId? content
  | .pointer => do
    let (collection, id) ← content.body? whole "$ref" "$id"
    pure (.pointer (← collection.text?) (← pointedId? whole id))
  | .symbol => .symbol <$> content.text?
  | .int32 => do
    let n ← Text.Numeral.int? (← content.text?).toList
    .int32 <$> int32? n
  | .int64 => .int64 <$> (content.text? >>= int64OfText?)
  | .double => .double <$> (content.text? >>= Double.ofText?)
  | .decimal => .decimal <$> (content.text? >>= Decimal128.ofText?)
  | .decimalBytes => .decimal <$> (content.data? >>= FixedBytes.ofBytes? 16)
  | .binary => do
    let (base64, subtype) ← content.body? whole "base64" "subType"
    binary? (← base64.text?) (← subtype.text?)
  | .uuid => .binary uuidSubtype <$> (content.text? >>= Text.Uuid.parse?)
  | .timestamp => do
    let (time, increment) ← content.body? whole "t" "i"
    pure (.timestamp (← time.uint32?) (← increment.uint32?))
  | .regex => do
    let (pattern, options) ← content.body? whole "pattern" "options"
    regex? (← pattern.text?) (← options.text?)
  | .date => .date <$> date? content
  | .undefined =>
    match content with
    | .value (.boolean true) => some .undefined
    | _ => none
  | .minKey => if content.int? = some 1 then some .minKey else none
  | .maxKey => if content.int? = some 1 then some .maxKey else none

end Tag

def Value.fields? : Value → Option Fields
  | .document fields => some fields
  | _ => none

namespace Item

mutual
def value? (whole : Bool) : Item → Option Value
  | .value v => some v
  | .data bytes => some (.binary 0 bytes)
  | .list items => .array <$> itemValues? whole items
  | .map fields => fieldsValue? whole [] fields
  | .broken => none
def itemValues? (whole : Bool) : List Item → Option (List Value)
  | [] => some []
  | item :: rest => do
    let value ← item.value? whole
    let values ← itemValues? whole rest
    pure (value :: values)
def fieldsValue? (whole : Bool) (before : Fields) : List (FieldName × Item) → Option Value
  | [] => some (.document before)
  | (.place _ _, _) :: _ => none
  | (.text name, content) :: rest =>
    if name = Tag.code then
      match rest with
      | [] => .code <$> content.text?
      | (next, scope) :: rest => do
        guard (next = .text Tag.scope ∧ mayStop whole rest)
        let fields ← scope.value? whole >>= Value.fields?
        pure (.scopedCode (← content.text?) fields)
    else if name = Tag.scope then
      match rest with
      | [] => none
      | (next, source) :: rest => do
        guard (next = .text Tag.code ∧ mayStop whole rest)
        let fields ← content.value? whole >>= Value.fields?
        pure (.scopedCode (← source.text?) fields)
    else
      match Tag.ofName? name with
      | some tag => if mayStop whole rest then tag.value? whole content else none
      | none => do
        let value ← content.value? whole
        fieldsValue? whole (before.insert name value) rest
end

end Item

end DocStore
