import DocStore.Value

/-!
# Order of values

`Value.compare` orders two values of compatible kinds: the number kinds against each other, strings
by code point, dates and timestamps by time, binary data and object ids byte by byte, arrays item
by item. `none` means that the kinds cannot be ordered. `Value.same` is the equality of queries:
equal in that order, or structurally equal where there is none.
-/

namespace DocStore

namespace Value

def asInt? : Value → Option Int
  | .int32 n => some n.toInt
  | .int64 n => some n.toInt
  | _ => none

def asDouble? : Value → Option Double
  | .int32 n => some (.ofInt n.toInt)
  | .int64 n => some (.ofInt n.toInt)
  | .double x => some x
  | _ => none

/-- Two integers compare exactly; once a double is involved both sides are doubles. -/
def compareNumbers (a b : Value) : Option Ordering :=
  match a.asInt?, b.asInt? with
  | some m, some n => some (Ord.compare m n)
  | _, _ =>
    match a.asDouble?, b.asDouble? with
    | some x, some y => some (x.compare y)
    | _, _ => none

mutual
def compare : Value → Value → Option Ordering
  | .null, .null => some .eq
  | .string a, .string b => some (Ord.compare a b)
  | .boolean a, .boolean b => some (Ord.compare a b)
  | .date a, .date b => some (Ord.compare a.toInt b.toInt)
  | .timestamp t i, .timestamp u j =>
    some ((Ord.compare t.toNat u.toNat).then (Ord.compare i.toNat j.toNat))
  | .objectId a, .objectId b => some (Ord.compare a.bytes b.bytes)
  | .binary _ a, .binary _ b => some (Ord.compare a b)
  | .array a, .array b => compareItems a b
  | a, b => compareNumbers a b
def compareItems : List Value → List Value → Option Ordering
  | [], [] => some .eq
  | [], _ :: _ => some .lt
  | _ :: _, [] => some .gt
  | a :: as, b :: bs =>
    match a.compare b with
    | some .eq => compareItems as bs
    | decided => decided
end

/-- Equality as queries see it: numbers are equal across their kinds. -/
def same (a b : Value) : Bool :=
  match a.compare b with
  | some order => order == .eq
  | none => a.eqv b

end Value

end DocStore
