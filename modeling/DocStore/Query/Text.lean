import DocStore.Query

/-!
# Text of queries

A query in a readable form, such as `Using Index [Category] Where Category == "animal"`.
-/

namespace DocStore

def Operand.text : Operand → String
  | .value v => v.display
  | .field name => "field " ++ name

def Operand.listText (xs : List Operand) : String :=
  "[" ++ String.intercalate ", " (xs.map text) ++ "]"

def Condition.text : Condition → String
  | .eq x => "== " ++ x.text
  | .ne x => "!= " ++ x.text
  | .gt x => "> " ++ x.text
  | .lt x => "< " ++ x.text
  | .ge x => ">= " ++ x.text
  | .le x => "<= " ++ x.text
  | .oneOf xs => "in " ++ Operand.listText xs
  | .pattern p => "matches the regular expression " ++ p.source
  | .isNull => "is nil"
  | .startsWith s => "starts with " ++ s
  | .endsWith s => "ends with " ++ s
  | .hasKey name => "has key " ++ name
  | .contains x => "contains " ++ x.text
  | .containsAny xs => "contains any of " ++ Operand.listText xs
  | .containsAll xs => "contains all of " ++ Operand.listText xs

namespace Query

variable {π : Type}

def clauseText (c : Clause π) : String :=
  " " ++ (if c.field == keyName then "Key" else c.field) ++ " " ++
    match c.criterion with
    | .condition condition => condition.text
    | .predicate _ => "matches the function"

mutual
def text : Query π → String
  | ⟨clauses, ors, indexName, _, _, _, _, _⟩ =>
    (match indexName with
      | some name => "Using Index [" ++ name ++ "] "
      | none => "") ++
    "Where" ++
    (if clauses.isEmpty then " all"
      else String.intercalate "\n\tAND" (clauses.map clauseText)) ++
    orsText ors
def orsText : List (Query π) → String
  | [] => ""
  | q :: rest => "\nOr " ++ q.text ++ orsText rest
end

end Query

end DocStore
