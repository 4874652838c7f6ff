import DocStore.Proofs.Steady

/-!
# Query trees

A query is a tree: its alternatives are queries with alternatives of their own. Both testing a record
and searching go down this tree, a query first and then its alternatives one by one. To go through the
list of its branches comes to the same, however deep the tree is (`holdsTree_eq`, `passTree_eq`).
-/

namespace DocStore

theorem Query.branches_eq {π : Type} (q : Query π) : q.branches = q :: branchesOf q.ors := by
  cases q
  rfl

-- ---------------------------------------------------------------------------
-- Testing
-- ---------------------------------------------------------------------------

namespace Evaluation

section Holds

variable (scene : Scene) (schema : Schema) (row : Row)

mutual
def holdsTree : Query Test → Exec Bool
  | ⟨clauses, ors, _, _, _, _, _, _⟩ => do
    if ← clausesHold scene schema row clauses then pure true else holdsTrees ors
def holdsTrees : List (Query Test) → Exec Bool
  | [] => pure false
  | q :: rest => do
    if ← holdsTree q then pure true else holdsTrees rest
end

theorem anyBranchHolds_append (branches others : List (Query Test)) :
    anyBranchHolds scene schema row (branches ++ others) = (do
      if ← anyBranchHolds scene schema row branches then pure true
      else anyBranchHolds scene schema row others) := by
  induction branches with
  | nil => simp only [List.nil_append, anyBranchHolds, pure_bind, Bool.false_eq_true, if_false]
  | cons b rest ih =>
    simp only [List.cons_append, anyBranchHolds, ih, bind_assoc]
    refine bind_congr fun holds => ?_
    cases holds with
    | false => simp only [Bool.false_eq_true, if_false]
    | true => simp only [if_true, pure_bind]

mutual
theorem holdsTree_eq (q : Query Test) :
    holdsTree scene schema row q = matchesQuery scene schema q row := by
  obtain ⟨clauses, ors, indexName, sortFields, reversed, skip, limit, error⟩ := q
  simp only [holdsTree, matchesQuery, Query.branches, anyBranchHolds, holdsTrees_eq ors]
theorem holdsTrees_eq (qs : List (Query Test)) :
    holdsTrees scene schema row qs =
      anyBranchHolds scene schema row (Query.branchesOf qs) := by
  cases qs with
  | nil => rfl
  | cons q rest =>
    simp only [holdsTrees, Query.branchesOf, anyBranchHolds_append, holdsTree_eq q, matchesQuery,
      holdsTrees_eq rest]
end

end Holds

end Evaluation

-- ---------------------------------------------------------------------------
-- Searching
-- ---------------------------------------------------------------------------

namespace Search

variable {σ : Type} (scene : Scene) (schema : Schema) (sink : Sink σ) (limit : Option Nat)

mutual
/-- A pass for the query, then as long as more rows are wanted those for its alternatives. -/
def passTree : Query Test → Sweeping σ Unit
  | ⟨clauses, ors, indexName, sortFields, reversed, skip, count, error⟩ => do
    pass scene schema sink limit ⟨clauses, ors, indexName, sortFields, reversed, skip, count, error⟩
    passTrees ors
def passTrees : List (Query Test) → Sweeping σ Unit
  | [] => pure ()
  | q :: rest => do
    if ← isFull limit then pure ()
    else
      passTree q
      passTrees rest
end

/-- No further pass is made once all rows that are wanted have been found. -/
theorem passEach_full {s : Sweep σ} (hfull : limit.any (· ≤ s.emitted) = true)
    (branches : List (Query Test)) :
    passEach scene schema sink limit branches s = (.ok (), s) := by
  cases branches with
  | nil => rfl
  | cons b rest => simp only [passEach, run_bind, isFull_run, hfull, if_true, run_pure]

theorem passEach_append (branches others : List (Query Test)) :
    passEach scene schema sink limit (branches ++ others) = (do
      passEach scene schema sink limit branches
      passEach scene schema sink limit others) := by
  induction branches with
  | nil => simp only [List.nil_append, passEach, pure_bind]
  | cons b rest ih =>
    funext s
    simp only [List.cons_append, passEach, bind_assoc]
    rw [run_bind, run_bind, isFull_run]
    cases hfull : limit.any (· ≤ s.emitted) with
    | true => simp only [if_true, pure_bind, run_pure, passEach_full scene schema sink limit hfull]
    | false => simp only [Bool.false_eq_true, if_false, ih, bind_assoc]

mutual
theorem passTree_eq (q : Query Test) :
    passTree scene schema sink limit q = passAll scene schema sink limit q.branches := by
  obtain ⟨clauses, ors, indexName, sortFields, reversed, skip, count, error⟩ := q
  simp only [passTree, Query.branches, passAll, passTrees_eq ors]
theorem passTrees_eq (qs : List (Query Test)) :
    passTrees scene schema sink limit qs =
      passEach scene schema sink limit (Query.branchesOf qs) := by
  cases qs with
  | nil => rfl
  | cons q rest =>
    rw [Query.branchesOf, Query.branches_eq, List.cons_append]
    simp only [passTrees, passEach, passTree_eq q, passTrees_eq rest, Query.branches_eq q, passAll,
      passEach_append, bind_assoc]
end

end Search

end DocStore
