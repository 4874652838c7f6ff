import DocStore.Path
import DocStore.Text.Quoted

/-!
# Schemas

What the store knows about a type of record: the name under which its records lie, the field that
repeats the primary key, its secondary indexes, and the scalar fields that may be asked whether they
are null. `Schema.check` refuses names that keys could not hold.
-/

namespace DocStore

structure IndexSpec where
  name : String
  field : String
  unique : Bool
  deriving DecidableEq, Repr

structure Schema where
  typeName : String
  keyField : Option String
  indexes : List IndexSpec
  nullable : List String
  deriving DecidableEq, Repr

inductive SchemaFault where
  | typeName
  | keyField (name : String)
  | indexName (name : String)
  | indexWithoutField (name : String)
  | indexTwice (name : String)
  deriving DecidableEq, Repr

def SchemaFault.message : SchemaFault → String
  | .typeName => "type name must be non-empty and free of NUL"
  | .keyField name => s!"key field {Text.quoted name} must be a top-level field"
  | .indexName name => s!"index name {Text.quoted name} is not allowed"
  | .indexWithoutField name => s!"index {name} has no field"
  | .indexTwice name => s!"index {name} declared twice"

namespace Schema

def findIndex (s : Schema) (name : String) : Option IndexSpec :=
  s.indexes.find? fun spec => spec.name == name

def indexOn (s : Schema) (field : String) : Option IndexSpec :=
  s.indexes.find? fun spec => spec.field == field

def isNullable (s : Schema) (field : String) : Bool := s.nullable.contains field

def hasChar (name : String) (c : Char) : Bool := name.toList.contains c

def checkIndexes (seen : List String) : List IndexSpec → Except SchemaFault Unit
  | [] => .ok ()
  | spec :: rest =>
    if spec.name.isEmpty || hasChar spec.name '.' || hasChar spec.name '\x00' then
      .error (.indexName spec.name)
    else if spec.field.isEmpty then .error (.indexWithoutField spec.name)
    else if seen.contains spec.name then .error (.indexTwice spec.name)
    else checkIndexes (spec.name :: seen) rest

/-- The first fault of a schema: its type name, its key field, then its indexes. -/
def check (s : Schema) : Except SchemaFault Unit :=
  if s.typeName.isEmpty || hasChar s.typeName '\x00' then .error .typeName
  else
    match s.keyField with
    | some field =>
      if field.isEmpty || hasChar field '.' then .error (.keyField field)
      else checkIndexes [] s.indexes
    | none => checkIndexes [] s.indexes

end Schema

end DocStore
