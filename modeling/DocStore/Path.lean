import DocStore.Value

/-!
# Field paths

A dotted path names a field of a document, or a field of a document inside it. Arrays are not
descended into. Indexes treat a missing field as null, so each record has one value per index.
-/

namespace DocStore

namespace Path

/-- The parts between the dots; the empty path has one empty part. -/
def segments (path : String) : List String := (path.toList.splitOn '.').map String.ofList

def follow : Fields → List String → Option Value
  | _, [] => none
  | fields, [name] => fields.get? name
  | fields, name :: rest =>
    match fields.get? name with
    | some (.document inner) => follow inner rest
    | _ => none

end Path

namespace Document

def lookup (d : Document) (path : String) : Option Value :=
  Path.follow d.fields (Path.segments path)

def lookupOrNull (d : Document) (path : String) : Value := (d.lookup path).getD .null

end Document

end DocStore
