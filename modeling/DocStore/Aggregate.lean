import DocStore.Failure
import DocStore.StableSort
import DocStore.Value.Text

/-!
# Groups of records

Records that agree in the group-by fields form a group. Groups are kept in ascending order of their
values, and a record finds its group by halving. Over the members of a group run the reductions:
least and greatest, sum and mean, sorting.
-/

namespace DocStore

structure Group where
  typeName : String
  /-- The values of the group-by fields. -/
  key : List Value
  members : List Document

namespace Group

def compareKeys : List String → List Value → List Value → Except Failure Ordering
  | field :: fields, a :: as, b :: bs =>
    match a.compare b with
    | some .eq => compareKeys fields as bs
    | some order => .ok order
    | none => .error (.typeMismatch field a.kind b.kind)
  | _, _, _ => .ok .eq

/-- The last place from `base` on, among `size` places, that is not greater than what is sought.
Each step asks for the middle place. -/
def halve (probe : Nat → Except Failure Ordering) (base : Nat) : Nat → Except Failure Nat
  | 0 | 1 => .ok base
  | size + 2 => do
    let half := (size + 2) / 2
    let order ← probe (base + half)
    halve probe (if order = .gt then base else base + half) (size + 2 - half)
termination_by size => size

/-- The place of the group with this key, or the place where such a group belongs. -/
def locate (fields : List String) (key : List Value) (groups : List Group) :
    Except Failure (Bool × Nat) :=
  if groups.isEmpty then .ok (false, 0)
  else do
    let probe (i : Nat) : Except Failure Ordering :=
      match groups[i]? with
      | some group => compareKeys fields group.key key
      | none => .ok .gt
    let base ← halve probe 0 groups.length
    match ← probe base with
    | .eq => pure (true, base)
    | .lt => pure (false, base + 1)
    | .gt => pure (false, base)

def keyOf (typeName : String) (fields : List String) (doc : Document) :
    Except Failure (List Value) :=
  fields.mapM fun field =>
    match doc.lookup field with
    | some value => .ok value
    | none => .error (.unknownField typeName field)

/-- Before any record: no groups, or the one group of everything if no field is given. -/
def initial (typeName : String) (fields : List String) : List Group :=
  if fields.isEmpty then [⟨typeName, [], []⟩] else []

def join (doc : Document) (group : Group) : Group :=
  { group with members := group.members ++ [doc] }

def push (typeName : String) (fields : List String) (groups : List Group) (doc : Document) :
    Except Failure (List Group) :=
  if fields.isEmpty then .ok (groups.modify 0 (join doc))
  else do
    let key ← keyOf typeName fields doc
    let (found, place) ← locate fields key groups
    if found then pure (groups.modify place (join doc))
    else pure (groups.insertIdx place ⟨typeName, key, [doc]⟩)

def valueOf (g : Group) (field : String) (doc : Document) : Except Failure Value :=
  match doc.lookup field with
  | some value => .ok value
  | none => .error (.unknownField g.typeName field)

def count (g : Group) : Nat := g.members.length

def keyAt (g : Group) (position : Nat) : Except Failure Value :=
  match g.key[position]? with
  | some value => .ok value
  | none => .error (.invalidOperation (toString position) (.groupLength g.key.length))

def extremeFrom (g : Group) (wanted : Ordering) (field : String) :
    Option (Document × Value) → List Document → Except Failure (Option Document)
  | best, [] => .ok (best.map Prod.fst)
  | best, doc :: rest => do
    let value ← g.valueOf field doc
    match best with
    | none => extremeFrom g wanted field (some (doc, value)) rest
    | some (kept, current) =>
      match value.compare current with
      | none => throw (.typeMismatch field value.kind current.kind)
      | some order =>
        extremeFrom g wanted field (some (if order = wanted then (doc, value) else (kept, current)))
          rest

def least (g : Group) (field : String) : Except Failure (Option Document) :=
  g.extremeFrom .lt field none g.members

def greatest (g : Group) (field : String) : Except Failure (Option Document) :=
  g.extremeFrom .gt field none g.members

def sumFrom (g : Group) (field : String) : Double → List Document → Except Failure Double
  | total, [] => .ok total
  | total, doc :: rest => do
    let value ← g.valueOf field doc
    match value.asDouble? with
    | some x => sumFrom g field (total.add x) rest
    | none => throw (.typeMismatch field value.kind "double")

/-- Adds from the first member to the last, rounding each time. -/
def sum (g : Group) (field : String) : Except Failure Double := g.sumFrom field .zero g.members

/-- The mean, which is 0 for an empty group. -/
def mean (g : Group) (field : String) : Except Failure Double :=
  if g.members.isEmpty then .ok .zero
  else (g.sum field).map fun total => total.divNat g.members.length

def comesBefore (field : String) (a b : Document) : Bool :=
  match a.lookup field, b.lookup field with
  | some x, some y => x.compareOrText y == .lt
  | _, _ => false

def sort (g : Group) (field : String) : Except Failure Group := do
  g.members.forM fun doc => do discard (g.valueOf field doc)
  pure { g with members := stableSort (comesBefore field) g.members }

end Group

end DocStore
