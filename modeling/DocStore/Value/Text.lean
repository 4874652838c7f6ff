import DocStore.Calendar
import DocStore.Text.Base64
import DocStore.Value.Decimal128
import DocStore.Value.Order

/-!
# Text of values

`Value.display` is how a value is shown inside a query's text. `Value.text` is what pattern, prefix
and suffix criteria test: a string as it is, an object id as bare digits, a date as a timestamp, and
anything else as it is displayed.
-/

namespace DocStore

namespace Value

/-- Dates beyond the calendar's years are shown by their milliseconds. -/
def dateText (millis : Int64) : String :=
  if Moment.isInYears millis.toInt then (Moment.ofMillis millis.toInt).text
  else toString millis.toInt

mutual
def display : Value → String
  | .null => "null"
  | .boolean b => if b then "true" else "false"
  | .int32 n => toString n.toInt
  | .int64 n => toString n.toInt
  | .double x => x.text
  | .string s => "\"" ++ s ++ "\""
  | .array items => "[" ++ displayItems items ++ "]"
  | .document [] => "\x7b\x7d"
  | .document ((name, value) :: rest) =>
    "\x7b \"" ++ name ++ "\": " ++ value.display ++ displayFields rest ++ " \x7d"
  | .date millis => "DateTime(\"" ++ dateText millis ++ "\")"
  | .timestamp time increment => s!"Timestamp({time.toNat}, {increment.toNat})"
  | .objectId id => "ObjectId(\"" ++ id.bytes.hex ++ "\")"
  | .pointer collection id => "DbPointer(" ++ collection ++ ", " ++ id.bytes.hex ++ ")"
  | .binary subtype data =>
    "Binary(0x" ++ String.ofList (Nat.toDigits 16 subtype.toNat) ++ ", " ++
      Text.Base64.encode data ++ ")"
  | .decimal d => Decimal128.text d
  | .regex pattern options => "/" ++ pattern ++ "/" ++ options
  | .code source => source
  | .scopedCode source _ => source
  | .symbol s => "Symbol(\"" ++ s ++ "\")"
  | .undefined => "undefined"
  | .minKey => "MinKey"
  | .maxKey => "MaxKey"
def displayItems : List Value → String
  | [] => ""
  | [item] => item.display
  | item :: rest => item.display ++ ", " ++ displayItems rest
def displayFields : List (String × Value) → String
  | [] => ""
  | (name, value) :: rest =>
    ", \"" ++ name ++ "\": " ++ value.display ++ displayFields rest
end

def text : Value → String
  | .string s => s
  | .objectId id => id.bytes.hex
  | .date millis => (Moment.ofMillis millis.toInt).timestampText?.getD (toString millis.toInt)
  | other => other.display

/-- The order of sorting, which never fails: values that cannot be compared go by their text. -/
def compareOrText (a b : Value) : Ordering :=
  (a.compare b).getD (Ord.compare a.text b.text)

end Value

end DocStore
