import DocStore.Bytes
import DocStore.Double

/-!
# Document values

The values a record may hold, and documents: lists of named values in the order of their first
writing. `Document.insert` keeps the position of a name that is already there, `Document.erase`
keeps the order of the rest. `Value.eqv` is structural equality, which ignores the order of fields
and never holds between NaNs.
-/

namespace DocStore

structure FixedBytes (width : Nat) where
  bytes : Bytes
  length_eq : bytes.length = width
  deriving DecidableEq, Repr

namespace FixedBytes

def ofBytes? (width : Nat) (bytes : Bytes) : Option (FixedBytes width) :=
  if h : bytes.length = width then some ⟨bytes, h⟩ else none

instance (width : Nat) : Inhabited (FixedBytes width) :=
  ⟨⟨List.replicate width 0, List.length_replicate⟩⟩

end FixedBytes

abbrev ObjectId := FixedBytes 12

abbrev Decimal128 := FixedBytes 16

inductive Value where
  | null
  | boolean (b : Bool)
  | int32 (n : Int32)
  | int64 (n : Int64)
  | double (x : Double)
  | string (s : String)
  | array (items : List Value)
  | document (fields : List (String × Value))
  | date (millis : Int64)
  | timestamp (time increment : UInt32)
  | objectId (id : ObjectId)
  /-- Refers to a document of a collection. -/
  | pointer (collection : String) (id : ObjectId)
  | binary (subtype : UInt8) (data : Bytes)
  | decimal (d : Decimal128)
  | regex (pattern options : String)
  | code (source : String)
  | scopedCode (source : String) (scope : List (String × Value))
  | symbol (s : String)
  | undefined
  | minKey
  | maxKey
  deriving Inhabited

namespace Value

def kind : Value → String
  | .double _ => "double"
  | .string _ => "string"
  | .array _ => "array"
  | .document _ => "document"
  | .boolean _ => "bool"
  | .null => "null"
  | .regex _ _ => "regex"
  | .int32 _ => "int32"
  | .int64 _ => "int64"
  | .timestamp _ _ => "timestamp"
  | .binary _ _ => "binary"
  | .objectId _ => "objectId"
  | .date _ => "date"
  | .decimal _ => "decimal"
  | .pointer _ _ | .code _ | .scopedCode _ _ | .symbol _ | .undefined | .minKey | .maxKey => "other"

end Value

abbrev Fields := List (String × Value)

namespace Fields

def get? (name : String) : Fields → Option Value
  | [] => none
  | (n, v) :: rest => if n = name then some v else get? name rest

/-- Sets `name`, in place if it is there and at the end if not. -/
def insert (name : String) (value : Value) : Fields → Fields
  | [] => [(name, value)]
  | (n, v) :: rest =>
    if n = name then (name, value) :: rest else (n, v) :: insert name value rest

def erase (name : String) : Fields → Fields
  | [] => []
  | (n, v) :: rest => if n = name then rest else (n, v) :: erase name rest

theorem get?_insert (name other : String) (value : Value) (fields : Fields) :
    get? other (insert name value fields) =
      if other = name then some value else get? other fields := by
  induction fields with
  | nil => grind [insert, get?]
  | cons head rest ih => grind [insert, get?]

/-- Sets names one after the other, so a repeated name takes its last value. -/
def insertAll (pairs : List (String × Value)) (fields : Fields) : Fields :=
  pairs.foldl (fun fields (name, value) => insert name value fields) fields

def ofPairs (pairs : List (String × Value)) : Fields := insertAll pairs []

end Fields

structure Document where
  fields : Fields
  deriving Inhabited

namespace Document

def get? (d : Document) (name : String) : Option Value := d.fields.get? name

def contains (d : Document) (name : String) : Bool := (d.get? name).isSome

def insert (d : Document) (name : String) (value : Value) : Document :=
  ⟨d.fields.insert name value⟩

def erase (d : Document) (name : String) : Document := ⟨d.fields.erase name⟩

def insertAll (d : Document) (pairs : List (String × Value)) : Document :=
  ⟨d.fields.insertAll pairs⟩

def eraseAll (d : Document) (names : List String) : Document := names.foldl erase d

def ofPairs (pairs : List (String × Value)) : Document := ⟨Fields.ofPairs pairs⟩

def toValue (d : Document) : Value := .document d.fields

theorem get?_insert (d : Document) (name other : String) (value : Value) :
    (d.insert name value).get? other = if other = name then some value else d.get? other :=
  Fields.get?_insert name other value d.fields

end Document

mutual
def Value.eqv : Value → Value → Bool
  | .null, .null => true
  | .boolean a, .boolean b => a == b
  | .int32 a, .int32 b => a == b
  | .int64 a, .int64 b => a == b
  | .double a, .double b => a.eqv b
  | .string a, .string b => a == b
  | .array a, .array b => eqvItems a b
  | .document a, .document b => a.length == b.length && eqvFields a b
  | .date a, .date b => a == b
  | .timestamp t i, .timestamp u j => t == u && i == j
  | .objectId a, .objectId b => a == b
  | .pointer c a, .pointer d b => c == d && a == b
  | .binary s a, .binary t b => s == t && a == b
  | .decimal a, .decimal b => a == b
  | .regex p o, .regex q r => p == q && o == r
  | .code a, .code b => a == b
  | .scopedCode a s, .scopedCode b t => a == b && s.length == t.length && eqvFields s t
  | .symbol a, .symbol b => a == b
  | .undefined, .undefined => true
  | .minKey, .minKey => true
  | .maxKey, .maxKey => true
  | _, _ => false
def eqvItems : List Value → List Value → Bool
  | [], [] => true
  | a :: as, b :: bs => a.eqv b && eqvItems as bs
  | _, _ => false
/-- Every field on the left has an equal one of its name on the right. -/
def eqvFields : List (String × Value) → Fields → Bool
  | [], _ => true
  | (name, a) :: rest, other =>
    match other.get? name with
    | some b => a.eqv b && eqvFields rest other
    | none => false
end

end DocStore
