import DocStore.Aggregate
import DocStore.Entity
import DocStore.Pattern
import DocStore.Text.Alphabetic

/-!
# Queries

A query is a list of criteria on fields that must all hold, with alternatives tried in order for the
records that fail them. It is built step by step; a misuse does not stop the building but is kept,
the first one only, and returned when the query runs.

A predicate is a caller's own test. It may ask further queries, and what it does with their answers
is an `Inquiry`: a tree whose branches are the answers. The type of queries leaves open what its
predicates are, so that a query can carry them as trees or as ready tests.
-/

namespace DocStore

inductive Operand where
  | value (v : Value)
  | field (name : String)

namespace Operand

/-- A number without sign. One beyond the stored integers becomes a double, which still orders above
all of them. -/
def ofNat (n : Nat) : Operand :=
  .value (if n < 0x8000000000000000 then .int64 (Int64.ofNat n) else .double (.ofInt n))

def literal? : Operand → Option Value
  | .value v => some v
  | .field _ => none

end Operand

/-- A test that needs nothing but the value, the record it is in, and the schema. -/
inductive Condition where
  | eq (x : Operand)
  | ne (x : Operand)
  | gt (x : Operand)
  | lt (x : Operand)
  | ge (x : Operand)
  | le (x : Operand)
  | oneOf (xs : List Operand)
  | pattern (p : Pattern)
  | isNull
  | startsWith (s : String)
  | endsWith (s : String)
  | hasKey (name : String)
  | contains (x : Operand)
  | containsAny (xs : List Operand)
  | containsAll (xs : List Operand)

namespace Condition

def operands : Condition → List Operand
  | .eq x | .ne x | .gt x | .lt x | .ge x | .le x | .contains x => [x]
  | .oneOf xs | .containsAny xs | .containsAll xs => xs
  | .pattern _ | .isNull | .startsWith _ | .endsWith _ | .hasKey _ => []

def isLiteral (c : Condition) : Bool := c.operands.all fun x => x.literal?.isSome

/-- The literals one of which the value must equal, for an equality without field references. -/
def lookupValues? : Condition → Option (List Value)
  | .eq x => x.literal?.map fun v => [v]
  | .oneOf xs => xs.mapM Operand.literal?
  | _ => none

end Condition

inductive Criterion (π : Type) where
  | condition (c : Condition)
  | predicate (p : π)

namespace Criterion

variable {π : Type}

def isPredicate : Criterion π → Bool
  | .predicate _ => true
  | .condition _ => false

def literal? : Criterion π → Option Condition
  | .condition c => if c.isLiteral then some c else none
  | .predicate _ => none

def lookupValues? : Criterion π → Option (List Value)
  | .condition c => c.lookupValues?
  | .predicate _ => none

end Criterion

structure Clause (π : Type) where
  field : String
  criterion : Criterion π

/-- Clauses on one field stand together, at the place of the first of them. -/
structure Query (π : Type) where
  clauses : List (Clause π)
  ors : List (Query π)
  indexName : Option String
  sortFields : List String
  reversed : Bool
  skip : Option Nat
  limit : Option Nat
  error : Option QueryError

/-- The field name that stands for the primary key. -/
def keyName : String := ""

namespace Query

variable {π : Type}

def all : Query π := ⟨[], [], none, [], false, none, none, none⟩

/-- Keeps a misuse, unless there was one before. -/
def fail (q : Query π) (e : QueryError) : Query π := { q with error := q.error.or (some e) }

def startsSegment (c : Char) : Bool := Text.isAlphabetic c || c = '_'

def isFieldPath (path : String) : Bool :=
  (path.toList.splitOn '.').all fun segment => segment.head?.any startsSegment

def place (clause : Clause π) : List (Clause π) → List (Clause π)
  | [] => [clause]
  | c :: rest =>
    if c.field = clause.field ∧ rest.all (·.field != clause.field) then c :: clause :: rest
    else c :: place clause rest

def and (q : Query π) (field : String) (criterion : Criterion π) : Query π :=
  let q := if field != keyName && !isFieldPath field then q.fail (.invalidField field) else q
  let q := if field == keyName && criterion.isPredicate then q.fail .predicateOnKey else q
  { q with clauses := place ⟨field, criterion⟩ q.clauses }

def or (q other : Query π) : Query π :=
  let q := if other.skip.isSome || other.limit.isSome then q.fail .pagingInOr else q
  let q := match other.error with
    | some e => q.fail e
    | none => q
  { q with ors := q.ors ++ [other] }

def index (q : Query π) (name : String) : Query π :=
  let q := if name.toList.contains '.' then q.fail (.nestedIndex name) else q
  { q with indexName := some name }

def sortField (q : Query π) (field : String) : Query π :=
  if field == keyName then q.fail .sortByKey
  else if !isFieldPath field then q.fail (.invalidField field)
  else if q.sortFields.contains field then q
  else { q with sortFields := q.sortFields ++ [field] }

def sortBy (q : Query π) (fields : List String) : Query π := fields.foldl sortField q

def reverse (q : Query π) : Query π := { q with reversed := !q.reversed }

def skipping (q : Query π) (count : Nat) : Query π :=
  if q.skip.isSome then q.fail .skipAlreadySet else { q with skip := some count }

def limitTo (q : Query π) (count : Nat) : Query π :=
  if q.limit.isSome then q.fail .limitAlreadySet else { q with limit := some count }

def isEmpty (q : Query π) : Bool := q.indexName.isNone && q.clauses.isEmpty && q.ors.isEmpty

def validate (q : Query π) : Except Failure Unit :=
  match q.error with
  | some e => .error (.invalidQuery e)
  | none => .ok ()

def skipCount (q : Query π) : Nat := q.skip.getD 0

def criteriaFor (q : Query π) (field : String) : List (Criterion π) :=
  (q.clauses.filter (·.field == field)).map (·.criterion)

def onlyField? (q : Query π) : Option String :=
  match q.clauses with
  | [] => none
  | c :: rest => if rest.all (·.field == c.field) then some c.field else none

def unpaged (q : Query π) : Query π :=
  { q with sortFields := [], reversed := false, skip := none, limit := none }

def firstOnly (q : Query π) : Query π := { q with limit := some 1 }

mutual
def branches : Query π → List (Query π)
  | ⟨clauses, ors, indexName, sortFields, reversed, skip, limit, error⟩ =>
    ⟨clauses, ors, indexName, sortFields, reversed, skip, limit, error⟩ :: branchesOf ors
def branchesOf : List (Query π) → List (Query π)
  | [] => []
  | q :: rest => q.branches ++ branchesOf rest
end

end Query

/-- What a predicate does: it answers, fails, or asks a query and goes on from its outcome. -/
inductive Inquiry where
  | answer (holds : Bool)
  | fail (failure : Failure)
  | find (entity : Entity) (query : Query (Value → Document → Inquiry))
      (next : Except Failure (List Document) → Inquiry)
  | aggregate (entity : Entity) (query : Query (Value → Document → Inquiry))
      (fields : List String) (next : Except Failure (List Group) → Inquiry)

abbrev Predicate := Value → Document → Inquiry

namespace Inquiry

def ofExcept : Except Failure Bool → Inquiry
  | .ok holds => .answer holds
  | .error failure => .fail failure

def andThen (next : Bool → Inquiry) : Inquiry → Inquiry
  | .answer holds => next holds
  | .fail failure => .fail failure
  | .find entity query after => .find entity query fun outcome => (after outcome).andThen next
  | .aggregate entity query fields after =>
    .aggregate entity query fields fun outcome => (after outcome).andThen next

end Inquiry

namespace Predicate

def negate (p : Predicate) : Predicate := fun value doc =>
  (p value doc).andThen fun holds => .answer !holds

def all : List Predicate → Predicate
  | [] => fun _ _ => .answer true
  | p :: rest => fun value doc =>
    (p value doc).andThen fun holds => if holds then all rest value doc else .answer false

def any : List Predicate → Predicate
  | [] => fun _ _ => .answer false
  | p :: rest => fun value doc =>
    (p value doc).andThen fun holds => if holds then .answer true else any rest value doc

end Predicate

end DocStore
