import DocStore.Cursor
import DocStore.Query

/-!
# Plans

How the candidates for one branch of a query are found: by looking up literal values in an index, by
going through an index in the order of its entries, or by going through all records.
-/

namespace DocStore

inductive Plan where
  | lookup (spec : IndexSpec) (values : List Value)
  /-- With `filtered`, index values are tested before their records are read. -/
  | indexScan (spec : IndexSpec) (filtered : Bool)
  | recordScan

namespace Plan

def text : Plan → String
  | .lookup spec values => s!"lookup {spec.name} x{values.length}"
  | .indexScan spec filtered =>
    s!"index scan {spec.name} (filtered: " ++ (if filtered then "true" else "false") ++ ")"
  | .recordScan => "record scan"

variable {π : Type}

/-- The index a query names, or the one on the only field it has criteria on. -/
def indexFor (schema : Schema) (q : Query π) : Except Failure (Option IndexSpec) :=
  match q.indexName with
  | some name =>
    match schema.findIndex name with
    | some spec => .ok (some spec)
    | none => .error (.invalidQuery (.unknownIndex schema.typeName name))
  | none =>
    match q.onlyField? with
    | some field => .ok (if field == keyName then none else schema.indexOn field)
    | none => .ok none

def lookupValues? (spec : IndexSpec) (q : Query π) : Option (List Value) :=
  match q.ors, q.criteriaFor spec.field with
  | [], [criterion] => criterion.lookupValues?
  | _, _ => none

def make (codec : Codec) (schema : Schema) (q : Query π) : Except Failure Plan := do
  match ← indexFor schema q with
  | none => pure .recordScan
  | some spec =>
    match lookupValues? spec q with
    | some values => pure (.lookup spec values)
    | none => pure (.indexScan spec (!(q.criteriaFor spec.field).isEmpty && codec.orderedKeys))

end Plan

end DocStore
