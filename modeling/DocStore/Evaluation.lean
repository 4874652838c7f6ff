import DocStore.Cursor
import DocStore.Query
import DocStore.Work

/-!
# Testing records

Whether a record meets the criteria of a query. Literal conditions can also be tested on a bare
value, as an index holds it. Tests run inside a query: besides an answer they leave behind the keys
that were read, the events reported, and the place of the enclosing scan.
-/

namespace DocStore

/-- What a query works on: a view that does not change meanwhile. -/
structure Scene where
  view : Data
  codec : Codec
  batchSize : Nat

/-- What a query leaves behind. Keys are listed latest first, events in order. -/
structure Trail where
  reads : List Bytes
  events : List Event
  bookmark : Bookmark

abbrev Exec (α : Type) := ExceptT Failure (StateM Trail) α

namespace Exec

def ofExcept {α : Type} (result : Except Failure α) : Exec α := fun trail => (result, trail)

def ofReading {α : Type} (view : Data) (reading : Reading EngineError α) : Exec α := fun trail =>
  let (result, reads) := reading view trail.reads
  (result.mapError .ofEngine, { trail with reads })

def report (event : Event) : Exec Unit := fun trail =>
  (.ok (), { trail with events := trail.events ++ [event] })

end Exec

abbrev Test := Value → Document → Exec Bool

namespace Condition

/-- The items of a field: a lone value counts as one item, and null as none. -/
def elements : Value → List Value
  | .array items => items
  | .null => []
  | other => [other]

def ordered (field : String) (left right : Value) : Except Failure Ordering :=
  match left.compare right with
  | some order => .ok order
  | none => .error (.typeMismatch field left.kind right.kind)

def isNullHolds (schema : Schema) (field : String) : Value → Except Failure Bool
  | .null => .ok true
  | .array _ | .document _ | .binary _ _ => .ok false
  | other =>
    if schema.isNullable field then .ok false
    else .error (.invalidOperation field (.neverNull other.kind))

/-- Some operand is the same as some item. Later operands are not resolved. -/
def anyIn (resolve : Operand → Except Failure Value) (items : List Value) :
    List Operand → Except Failure Bool
  | [] => .ok false
  | x :: rest => do
    let needle ← resolve x
    if items.any (·.same needle) then pure true else anyIn resolve items rest

def allIn (resolve : Operand → Except Failure Value) (items : List Value) :
    List Operand → Except Failure Bool
  | [] => .ok true
  | x :: rest => do
    let needle ← resolve x
    if items.any (·.same needle) then allIn resolve items rest else pure false

def hasPrefix (s start : String) : Bool := start.toList.isPrefixOf s.toList

def hasSuffix (s ending : String) : Bool := ending.toList.isSuffixOf s.toList

def holds (schema : Schema) (resolve : Operand → Except Failure Value) (field : String)
    (value : Value) : Condition → Except Failure Bool
  | .eq x => do pure (value.same (← resolve x))
  | .ne x => do pure (!value.same (← resolve x))
  | .gt x => do pure ((← ordered field value (← resolve x)) == .gt)
  | .lt x => do pure ((← ordered field value (← resolve x)) == .lt)
  | .ge x => do pure ((← ordered field value (← resolve x)) != .lt)
  | .le x => do pure ((← ordered field value (← resolve x)) != .gt)
  | .oneOf xs => anyIn resolve [value] xs
  | .pattern p => .ok (p.occursIn value.text)
  | .startsWith s => .ok (hasPrefix value.text s)
  | .endsWith s => .ok (hasSuffix value.text s)
  | .isNull => isNullHolds schema field value
  | .hasKey name =>
    match value with
    | .document fields => .ok (Fields.get? name fields).isSome
    | other => .error (.invalidOperation field (.keysOfNonDocument other.kind))
  | .contains x => do
    let needle ← resolve x
    pure ((elements value).any (·.same needle))
  | .containsAny xs => anyIn resolve (elements value) xs
  | .containsAll xs => allIn resolve (elements value) xs

end Condition

def Operand.resolveAlone : Operand → Except Failure Value
  | .value v => .ok v
  | .field name => .error (.invalidOperation name .referenceOutsideRecord)

/-- A matched record: its primary key and its document, key field included. -/
structure Row where
  key : Bytes
  doc : Document

namespace Evaluation

variable (scene : Scene) (schema : Schema)

def resolveField (row : Row) (field : String) : Except Failure Value :=
  if field == keyName then (scene.codec.decodeKey row.key).mapError .codec
  else
    match row.doc.lookup field with
    | some value => .ok value
    | none => .error (.unknownField schema.typeName field)

def resolve (row : Row) : Operand → Except Failure Value
  | .value v => .ok v
  | .field name => resolveField scene schema row name

def criterionHolds (row : Row) (field : String) (value : Value) : Criterion Test → Exec Bool
  | .condition c => Exec.ofExcept (c.holds schema (resolve scene schema row) field value)
  | .predicate test => test value row.doc

def clausesHold (row : Row) : List (Clause Test) → Exec Bool
  | [] => pure true
  | c :: rest => do
    let value ← Exec.ofExcept (resolveField scene schema row c.field)
    if ← criterionHolds scene schema row c.field value c.criterion then clausesHold row rest
    else pure false

def anyBranchHolds (row : Row) : List (Query Test) → Exec Bool
  | [] => pure false
  | q :: rest => do
    if ← clausesHold scene schema row q.clauses then pure true else anyBranchHolds row rest

def matchesQuery (q : Query Test) (row : Row) : Exec Bool :=
  anyBranchHolds scene schema row q.branches

def allHold (field : String) (value : Value) : List Condition → Except Failure Bool
  | [] => .ok true
  | c :: rest => do
    if ← c.holds schema Operand.resolveAlone field value then allHold field value rest
    else pure false

def indexFilter (q : Query Test) (field : String) (value : Value) : Except Failure Bool :=
  allHold schema field value ((q.criteriaFor field).filterMap Criterion.literal?)

end Evaluation

end DocStore
