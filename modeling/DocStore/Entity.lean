import DocStore.Failure

/-!
# Entities

A kind of record as callers see it: how it is stored, which fields a document must have to be one, and
how one is written as a document again. A schema is checked whenever an entity is used.
-/

namespace DocStore

/-- A value of the kind is given by a document that it is read from. It need not be written as that
document: a kind may leave out fields, such as the one that repeats the key. -/
structure Entity where
  schema : Schema
  required : List String
  serialize : Document → Except Failure Document

namespace Entity

def validSchema (e : Entity) : Except Failure Schema :=
  match e.schema.validate with
  | .ok _ => .ok e.schema
  | .error fault => .error (.ofEngine fault)

def read (e : Entity) (doc : Document) : Except Failure Document :=
  match e.required.find? fun name => !doc.contains name with
  | some name => .error (.codec (.missingField name))
  | none => .ok doc

end Entity

end DocStore
