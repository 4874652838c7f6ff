import Mathlib.Data.List.Induction
import Mathlib.Data.List.Pairwise
import DocStore.Proofs.Paging
import DocStore.Proofs.SortOrder

/-!
# Sorted searches

A search that sorts finds the rows of the unsorted search, in a stable order. Inserting an item keeps a
list sorted and does not carry the item past one that is equal to it (`insertRight_sorted`,
`cons_sublist_insertRight`), so this holds for any comparison that is a total preorder of the items.
Sorting by fields is one for documents that compare by each of the fields
(`Document.Sortable`), and its reverse is one too: ties are told apart from neither side. All rows must
have the fields before any is skipped, so a row without one of them fails the search wherever it would
have come (`Records.find_sorted`).
-/

namespace DocStore

-- ---------------------------------------------------------------------------
-- Stable sorting
-- ---------------------------------------------------------------------------

section StableSort

variable {α : Type} {before : α → α → Bool} {x : α} {xs sorted tied : List α}

theorem stableSort_concat (xs : List α) (x : α) :
    stableSort before (xs ++ [x]) = (insertRight before x (stableSort before xs).reverse).reverse := by
  rw [stableSort, stableSort, List.foldl_concat, List.reverse_reverse]

theorem sublist_insertRight : sorted.Sublist (insertRight before x sorted) := by
  induction sorted with
  | nil => exact List.nil_sublist _
  | cons y rest ih =>
    rw [insertRight]
    split
    · exact ih.cons_cons y
    · exact List.sublist_cons_self x _

theorem cons_sublist_insertRight (htied : tied.Sublist sorted) (hx : ∀ y ∈ tied, before x y = false) :
    (x :: tied).Sublist (insertRight before x sorted) := by
  induction sorted with
  | nil =>
    rw [List.sublist_nil.mp htied]
    exact List.Sublist.refl [x]
  | cons y rest ih =>
    rw [insertRight]
    split
    · rename_i hbefore
      cases htied with
      | cons _ htied => exact (ih htied).cons y
      | cons_cons _ htied =>
        rw [hx y List.mem_cons_self] at hbefore
        cases hbefore
    · exact htied.cons_cons x

theorem stableSort_stable (htied : tied.Sublist xs)
    (hpairs : tied.Pairwise fun a b => before b a = false) : tied.Sublist (stableSort before xs) := by
  induction xs using List.reverseRecOn generalizing tied with
  | nil => exact htied
  | append_singleton xs x ih =>
    rw [stableSort_concat, ← List.reverse_sublist, List.reverse_reverse]
    obtain ⟨first, last, rfl, hfirst, hlast⟩ := List.sublist_append_iff.mp htied
    obtain ⟨hpairs, -, hcross⟩ := List.pairwise_append.mp hpairs
    have hsorted := List.reverse_sublist.mpr (ih hfirst hpairs)
    rcases List.sublist_singleton.mp hlast with rfl | rfl
    · rw [List.append_nil]
      exact hsorted.trans sublist_insertRight
    · rw [List.reverse_concat]
      refine cons_sublist_insertRight hsorted fun y hy => ?_
      exact hcross y (List.mem_reverse.mp hy) x List.mem_cons_self

theorem map_insertRight {β : Type} (f : α → β) (before : β → β → Bool) (x : α) (sorted : List α) :
    (insertRight (fun a b => before (f a) (f b)) x sorted).map f =
      insertRight before (f x) (sorted.map f) := by
  induction sorted with
  | nil => rfl
  | cons y rest ih =>
    rw [insertRight, List.map_cons, insertRight]
    split
    · rw [List.map_cons, ih]
    · rfl

theorem map_stableSort {β : Type} (f : α → β) (before : β → β → Bool) (xs : List α) :
    (stableSort (fun a b => before (f a) (f b)) xs).map f = stableSort before (xs.map f) := by
  induction xs using List.reverseRecOn with
  | nil => rfl
  | append_singleton xs x ih =>
    rw [List.map_append, List.map_singleton, stableSort_concat, stableSort_concat, List.map_reverse,
      map_insertRight, List.map_reverse, ih]

variable {cmp : α → α → Ordering} {s : α → Prop} (hswap : ∀ a b, cmp b a = (cmp a b).swap)
  (htrans : ∀ a b c, s a → s b → s c → (cmp a b).isLE → (cmp b c).isLE → (cmp a c).isLE)
include hswap htrans

theorem insertRight_sorted (hx : s x) (hs : ∀ y ∈ sorted, s y)
    (h : sorted.Pairwise fun later earlier => (cmp earlier later).isLE) :
    (insertRight (fun a b => cmp a b == .lt) x sorted).Pairwise
      fun later earlier => (cmp earlier later).isLE := by
  induction sorted with
  | nil => exact List.pairwise_singleton _ x
  | cons y rest ih =>
    obtain ⟨hy, hs⟩ := List.forall_mem_cons.mp hs
    obtain ⟨hfirst, hrest⟩ := List.pairwise_cons.mp h
    rw [insertRight]
    split
    · rename_i hbefore
      refine List.pairwise_cons.mpr ⟨fun z hz => ?_, ih hs hrest⟩
      rcases List.mem_cons.mp ((insertRight_perm _ x rest).subset hz) with rfl | hz
      · rw [beq_iff_eq.mp hbefore]
        rfl
      · exact hfirst z hz
    · rename_i hbefore
      have hyx : (cmp y x).isLE := by
        rw [hswap x y]
        cases hxy : cmp x y with
        | lt => exact absurd (beq_iff_eq.mpr hxy) hbefore
        | eq => rfl
        | gt => rfl
      refine List.pairwise_cons.mpr ⟨fun z hz => ?_, h⟩
      rcases List.mem_cons.mp hz with rfl | hz
      · exact hyx
      · exact htrans z y x (hs z hz) hy hx (hfirst z hz) hyx

theorem stableSort_sorted (hs : ∀ x ∈ xs, s x) :
    (stableSort (fun a b => cmp a b == .lt) xs).Pairwise fun a b => (cmp a b).isLE := by
  induction xs using List.reverseRecOn with
  | nil => exact .nil
  | append_singleton xs x ih =>
    obtain ⟨hs, hx⟩ := List.forall_mem_append.mp hs
    rw [stableSort_concat, List.pairwise_reverse]
    refine insertRight_sorted hswap htrans (hx x List.mem_cons_self) (fun y hy => ?_)
      (List.pairwise_reverse.mpr (ih hs))
    exact hs y ((stableSort_perm _ xs).subset (List.mem_reverse.mp hy))

end StableSort

-- ---------------------------------------------------------------------------
-- Sorting by fields
-- ---------------------------------------------------------------------------

namespace Document

variable {docs : List Document} {fields : List String} {field : String} {reversed : Bool}

/-- All documents have the field, any two of them compare by it, and no double there equals two
integers. -/
structure Sortable (docs : List Document) (field : String) : Prop where
  present : ∀ doc ∈ docs, (doc.lookup field).isSome
  comparable : docs.Pairwise fun a b => ((a.lookupOrNull field).compare (b.lookupOrNull field)).isSome
  sharp : Value.Sharp (docs.map (·.lookupOrNull field))

/-- How two documents stand to each other by several fields, the first of which counts most. -/
def compareOn (fields : List String) (a b : Document) : Option Ordering :=
  Value.compareItems (a.values fields) (b.values fields)

/-- The documents sorted by the fields: they do not go down, or not up if they are reversed, and those
that are equal in all the fields keep their order. -/
structure SortedBy (fields : List String) (reversed : Bool) (docs sorted : List Document) : Prop where
  perm : sorted.Perm docs
  ordered : sorted.Pairwise fun a b =>
    ∃ o, compareOn fields a b = some o ∧ if reversed then o.isGE else o.isLE
  stable : ∀ tied : List Document, tied.Sublist docs →
    tied.Pairwise (fun a b => compareOn fields a b = some .eq) → tied.Sublist sorted

def sortOrder (fields : List String) (reversed : Bool) (a b : Document) : Ordering :=
  let order := Search.compareBy a b fields
  if reversed then order.swap else order

theorem compareBy_swap (a b : Document) (fields : List String) :
    Search.compareBy b a fields = (Search.compareBy a b fields).swap := by
  induction fields with
  | nil => rfl
  | cons field rest ih =>
    rw [Search.compareBy, Search.compareBy, Ordering.swap_then, ih]
    cases a.lookup field with
    | none => cases b.lookup field <;> rfl
    | some x =>
      cases b.lookup field with
      | none => rfl
      | some y => exact congrArg (Ordering.then · _) (Value.compareOrText_swap x y)

theorem sortOrder_swap (fields : List String) (reversed : Bool) (a b : Document) :
    sortOrder fields reversed b a = (sortOrder fields reversed a b).swap := by
  rw [sortOrder, sortOrder, compareBy_swap]
  cases reversed <;> rfl

theorem compareBy_self (a : Document) (fields : List String) : Search.compareBy a a fields = .eq := by
  have hswap := compareBy_swap a a fields
  cases h : Search.compareBy a a fields <;> rw [h] at hswap <;> first | rfl | cases hswap

/-- Sorting compares documents by all fields, if each of them can be compared. -/
theorem compareOn_eq {a b : Document} (h : ∀ field ∈ fields, (a.lookup field).isSome ∧
    (b.lookup field).isSome ∧ ((a.lookupOrNull field).compare (b.lookupOrNull field)).isSome) :
    compareOn fields a b = some (Search.compareBy a b fields) := by
  unfold compareOn values
  induction fields with
  | nil => rfl
  | cons field rest ih =>
    obtain ⟨⟨hfirst, hsecond, hcompare⟩, hrest⟩ := List.forall_mem_cons.mp h
    obtain ⟨x, hx⟩ := Option.isSome_iff_exists.mp hfirst
    obtain ⟨y, hy⟩ := Option.isSome_iff_exists.mp hsecond
    simp only [lookupOrNull, hx, hy, Option.getD_some] at hcompare
    obtain ⟨o, ho⟩ := Option.isSome_iff_exists.mp hcompare
    rw [List.map_cons, List.map_cons, Value.compareItems, Search.compareBy, ih hrest]
    simp only [lookupOrNull, hx, hy, Option.getD_some, ho, Value.compareOrText_of_some ho]
    cases o <;> rfl

theorem Sortable.compareOn_eq (h : ∀ field ∈ fields, Sortable docs field) :
    docs.Pairwise fun a b => compareOn fields a b = some (Search.compareBy a b fields) := by
  rw [List.pairwise_iff_forall_sublist]
  intro a b hab
  refine Document.compareOn_eq fun field hfield => ⟨?_, ?_, ?_⟩
  · exact (h field hfield).present a (hab.subset (by simp))
  · exact (h field hfield).present b (hab.subset (by simp))
  · exact List.pairwise_iff_forall_sublist.mp (h field hfield).comparable hab

theorem compareOn_symm {a b : Document}
    (hab : compareOn fields a b = some (Search.compareBy a b fields)) :
    compareOn fields b a = some (Search.compareBy b a fields) := by
  have hswap : compareOn fields b a = (compareOn fields a b).map Ordering.swap :=
    Value.compareItems_swap _ _
  rw [hswap, hab, Option.map_some, ← compareBy_swap]

theorem Sortable.compareOn_of_ne (h : ∀ field ∈ fields, Sortable docs field) {a b : Document}
    (ha : a ∈ docs) (hb : b ∈ docs) (hne : a ≠ b) :
    compareOn fields a b = some (Search.compareBy a b fields) := by
  have hsymm : Std.Symm fun a b => compareOn fields a b = some (Search.compareBy a b fields) :=
    ⟨fun _ _ => compareOn_symm⟩
  exact (Sortable.compareOn_eq h).forall ha hb hne

theorem compareBy_isLE_trans (h : ∀ field ∈ fields, Sortable docs field) {a b c : Document}
    (ha : a ∈ docs) (hb : b ∈ docs) (hc : c ∈ docs) (hab : (Search.compareBy a b fields).isLE)
    (hbc : (Search.compareBy b c fields).isLE) : (Search.compareBy a c fields).isLE := by
  have hsharp : ∀ field ∈ fields, Value.Sharp (docs.map (·.lookupOrNull field)) :=
    fun field hfield => (h field hfield).sharp
  have hcoherent := values_coherent hsharp
  -- A document need not compare with itself, so those that occur twice are set aside.
  by_cases heqab : a = b
  · exact heqab ▸ hbc
  by_cases heqbc : b = c
  · exact heqbc ▸ hab
  by_cases heqac : a = c
  · rw [heqac, compareBy_self]
    rfl
  have hboth := hcoherent.transits _ _ _ (List.mem_map_of_mem ha) (List.mem_map_of_mem hb)
    (List.mem_map_of_mem hc) _ _ (Sortable.compareOn_of_ne h ha hb heqab)
    (Sortable.compareOn_of_ne h hb hc heqbc) hab hbc
  have hac := (Sortable.compareOn_of_ne h ha hc heqac).symm.trans hboth
  rw [Option.some.inj hac]
  revert hab hbc
  cases Search.compareBy a b fields <;> cases Search.compareBy b c fields <;> simp

theorem sortOrder_isLE_trans (h : ∀ field ∈ fields, Sortable docs field) (reversed : Bool)
    (a b c : Document) (ha : a ∈ docs) (hb : b ∈ docs) (hc : c ∈ docs)
    (hab : (sortOrder fields reversed a b).isLE) (hbc : (sortOrder fields reversed b c).isLE) :
    (sortOrder fields reversed a c).isLE := by
  cases reversed with
  | false => exact compareBy_isLE_trans h ha hb hc hab hbc
  | true =>
    simp only [sortOrder, if_true, ← compareBy_swap] at hab hbc ⊢
    exact compareBy_isLE_trans h hc hb ha hbc hab

theorem sortedBy_stableSort (h : ∀ field ∈ fields, Sortable docs field) (reversed : Bool) :
    SortedBy fields reversed docs (stableSort (fun a b => sortOrder fields reversed a b == .lt) docs) := by
  have hperm := stableSort_perm (fun a b => sortOrder fields reversed a b == .lt) docs
  refine ⟨hperm, ?_, fun tied htied hpairs => stableSort_stable htied ?_⟩
  · have hcompare : (stableSort (fun a b => sortOrder fields reversed a b == .lt) docs).Pairwise
        fun a b => compareOn fields a b = some (Search.compareBy a b fields) :=
      (hperm.pairwise_iff compareOn_symm).mpr (Sortable.compareOn_eq h)
    have hsorted := stableSort_sorted (sortOrder_swap fields reversed)
      (sortOrder_isLE_trans h reversed) fun doc hdoc => hdoc
    refine (hcompare.and hsorted).imp fun ⟨hab, hle⟩ => ⟨_, hab, ?_⟩
    cases reversed with
    | false => exact hle
    | true => simpa [sortOrder, Ordering.isLE_swap] using hle
  · -- Ties compare as equal from both sides, in either direction.
    refine ((Sortable.compareOn_eq h).sublist htied |>.and hpairs).imp fun {a b} ⟨hab, htie⟩ => ?_
    have hequal := Option.some.inj (hab.symm.trans htie)
    rw [sortOrder, compareBy_swap a b, hequal]
    cases reversed <;> rfl

end Document

-- ---------------------------------------------------------------------------
-- Searches
-- ---------------------------------------------------------------------------

namespace Search

variable {scene : Scene} {schema : Schema} {q : Query Test} {rows : List Row} {trail : Trail}

theorem forM_cases {α ε : Type} (f : α → Except ε Unit) (items : List α) :
    (items.forM f = .ok () ∧ ∀ item ∈ items, f item = .ok ()) ∨
      ∃ item ∈ items, ∃ e, f item = .error e ∧ items.forM f = .error e := by
  induction items with
  | nil => exact .inl ⟨rfl, nofun⟩
  | cons item rest ih =>
    have hrun : (item :: rest).forM f = (f item >>= fun _ => rest.forM f) := rfl
    cases hitem : f item with
    | error e => exact .inr ⟨item, List.mem_cons_self, e, hitem, by rw [hrun, hitem]; rfl⟩
    | ok _ =>
      have hrest : (item :: rest).forM f = rest.forM f := by rw [hrun, hitem]; rfl
      rw [hrest]
      refine ih.imp (And.imp_right fun h => List.forall_mem_cons.mpr ⟨hitem, h⟩) ?_
      exact fun ⟨other, hother, h⟩ => ⟨other, List.mem_cons_of_mem _ hother, h⟩

def requireField (schema : Schema) (row : Row) (field : String) : Except Failure Unit :=
  match row.doc.lookup field with
  | some _ => .ok ()
  | none => .error (.unknownField schema.typeName field)

theorem requireField_ok {row : Row} {field : String} (h : requireField schema row field = .ok ()) :
    (row.doc.lookup field).isSome := by
  unfold requireField at h
  cases hlookup : row.doc.lookup field with
  | some _ => rfl
  | none =>
    rw [hlookup] at h
    cases h

theorem requireField_error {row : Row} {field : String} {e : Failure}
    (h : requireField schema row field = .error e) :
    row.doc.lookup field = none ∧ e = .unknownField schema.typeName field := by
  unfold requireField at h
  cases hlookup : row.doc.lookup field with
  | some _ =>
    rw [hlookup] at h
    cases h
  | none =>
    rw [hlookup] at h
    exact ⟨rfl, (Except.error.inj h).symm⟩

theorem checkSortFields_cases (schema : Schema) (fields : List String) (rows : List Row) :
    (checkSortFields schema fields rows = .ok () ∧
        ∀ row ∈ rows, ∀ field ∈ fields, (row.doc.lookup field).isSome) ∨
      ∃ row ∈ rows, ∃ field ∈ fields, row.doc.lookup field = none ∧
        checkSortFields schema fields rows = .error (.unknownField schema.typeName field) := by
  have hfields (row : Row) := forM_cases (requireField schema row) fields
  have hrows : checkSortFields schema fields rows =
      rows.forM fun row => fields.forM (requireField schema row) := rfl
  rw [hrows]
  rcases forM_cases (fun row => fields.forM (requireField schema row)) rows with
    ⟨hok, hall⟩ | ⟨row, hrow, e, hfails, herror⟩
  · refine .inl ⟨hok, fun row hrow field hfield => ?_⟩
    rcases hfields row with ⟨-, hrequired⟩ | ⟨_, _, e, -, hfails⟩
    · exact requireField_ok (hrequired field hfield)
    · exact absurd (hfails.symm.trans (hall row hrow)) nofun
  · rcases hfields row with ⟨hok, -⟩ | ⟨field, hfield, e', hrequired, hfails'⟩
    · exact absurd (hfails.symm.trans hok) nofun
    · obtain ⟨hmissing, rfl⟩ := requireField_error hrequired
      cases hfails.symm.trans hfails'
      exact .inr ⟨row, hrow, field, hfield, hmissing, herror⟩

/-- A search that sorts checks the rows of the unsorted search, sorts them and hands on a stretch. -/
theorem findRows_sorting (hsteady : q.Steady) (hsort : q.sortFields ≠ [])
    (hrows : (findRows scene schema q.unpaged trail).1 = .ok rows) (trail' : Trail) :
    (findRows scene schema q trail').1 = (checkSortFields schema q.sortFields rows).map fun _ =>
      slice q (sortRows q.sortFields q.reversed rows) := by
  have hvalid' : q.unpaged.validate = .ok () := validate_of_findRows hrows
  have hvalid : q.validate = .ok () := hvalid'
  simp only [findRows, walk_unsorted hvalid' rfl] at hrows
  have hswept : (sweepRows scene schema q.unpaged trail').1 = .ok rows :=
    ((sweepRows_steady hsteady.unpaged).answer trail' trail).trans hrows
  have hsorted : (sortedRows scene schema q trail').1 =
      (checkSortFields schema q.sortFields rows).map fun _ =>
        sortRows q.sortFields q.reversed rows := by
    rcases hrun : sweepRows scene schema q.unpaged trail' with ⟨result, last⟩
    rw [hrun] at hswept
    cases hswept
    simp only [sortedRows, run_bind, hrun, Exec.ofExcept]
    cases checkSortFields schema q.sortFields rows <;> rfl
  simp only [findRows, walk_sorted hvalid (List.isEmpty_eq_false_iff.mpr hsort), hsorted]
  cases checkSortFields schema q.sortFields rows with
  | error e => rfl
  | ok _ =>
    simp only [Except.map, feedSorted, feed_collector, List.append_nil, List.reverse_reverse]

theorem map_sortRows (fields : List String) (reversed : Bool) (rows : List Row) :
    (sortRows fields reversed rows).map Row.doc =
      stableSort (fun a b => Document.sortOrder fields reversed a b == .lt) (rows.map Row.doc) :=
  map_stableSort Row.doc (fun a b => Document.sortOrder fields reversed a b == .lt) rows

end Search

namespace Records

open Search

variable {settings : Settings} {entity : Entity} {session session' : Session} {q : Query Predicate}

theorem findRows_sorting {schema : Schema} {rows : List Row} (hsort : q.sortFields ≠ [])
    (hview : session'.txn.view = session.txn.view)
    (hrows : (findRows settings schema q.unpaged session).1 = .ok rows) :
    (findRows settings schema q session').1 =
      (checkSortFields schema q.sortFields rows).map fun _ =>
        slice (q.ready (scene settings session)) (sortRows q.sortFields q.reversed rows) := by
  have hscene : scene settings session' = scene settings session := by rw [scene, hview, scene]
  have hready : q.unpaged.ready (scene settings session) =
      (q.ready (scene settings session)).unpaged := by
    rw [Query.ready_eq_map, Query.ready_eq_map, Query.unpaged_map]
  have hfields : (q.ready (scene settings session)).sortFields = q.sortFields := by
    rw [Query.ready_eq_map, Query.sortFields_map]
  have hreversed : (q.ready (scene settings session)).reversed = q.reversed := by
    rw [Query.ready_eq_map, Query.reversed_map]
  simp only [findRows, searching_run, hready] at hrows
  simp only [findRows, searching_run, hscene]
  rw [Search.findRows_sorting (Query.ready_steady _ _) (hfields ▸ hsort) hrows, hfields, hreversed]

section Search

variable (hsort : q.sortFields ≠ []) (hview : session'.txn.view = session.txn.view)
include hsort hview

theorem find_sortable {docs : List Document} (hfind : (find settings entity q.unpaged session).1 = .ok docs)
    (hsortable : ∀ field ∈ q.sortFields, Document.Sortable docs field) :
    ∃ sorted, (find settings entity (q.paged none none) session').1 = .ok sorted ∧
      Document.SortedBy q.sortFields q.reversed docs sorted := by
  obtain ⟨schema, rows, hschema, hrows, hread⟩ := find_eq_ok_iff.mp hfind
  obtain ⟨hdocs, hdoc⟩ := docs_of_read hread
  have hsorted : (findRows settings schema (q.paged none none) session').1 =
      .ok (sortRows q.sortFields q.reversed rows) := by
    rcases checkSortFields_cases schema q.sortFields rows with
      ⟨hok, -⟩ | ⟨row, hrow, field, hfield, hmissing, -⟩
    · have hall (sorted : List Row) :
          slice ((q.paged none none).ready (scene settings session)) sorted = sorted := by
        cases q
        rfl
      rw [findRows_sorting (q := q.paged none none) hsort hview hrows, hall]
      exact congrArg (Except.map _) hok
    · have hpresent := (hsortable field hfield).present row.doc (hdocs ▸ List.mem_map_of_mem hrow)
      rw [hmissing] at hpresent
      cases hpresent
  have hperm : (sortRows q.sortFields q.reversed rows).Perm rows := stableSort_perm _ _
  refine ⟨(sortRows q.sortFields q.reversed rows).map Row.doc,
    find_eq_ok_iff.mpr ⟨schema, _, hschema, hsorted, ?_⟩, ?_⟩
  · rw [List.map_map]
    exact List.map_congr_left fun row hrow => hdoc row (hperm.subset hrow)
  · rw [map_sortRows, ← hdocs]
    exact Document.sortedBy_stableSort hsortable q.reversed

theorem find_unsortable {schema : Schema} {rows : List Row} (hschema : entity.validSchema = .ok schema)
    (hrows : (findRows settings schema q.unpaged session).1 = .ok rows)
    (hmissing : ∃ row ∈ rows, ∃ field ∈ q.sortFields, row.doc.lookup field = none) :
    ∃ field ∈ q.sortFields, (∃ row ∈ rows, row.doc.lookup field = none) ∧
      (find settings entity q session').1 = .error (.unknownField schema.typeName field) := by
  rcases checkSortFields_cases schema q.sortFields rows with
    ⟨-, hpresent⟩ | ⟨row, hrow, field, hfield, hlacking, hcheck⟩
  · obtain ⟨row, hrow, field, hfield, hlacking⟩ := hmissing
    have hsome := hpresent row hrow field hfield
    rw [hlacking] at hsome
    cases hsome
  · have hsearch := findRows_sorting hsort hview hrows
    rw [hcheck, Except.map] at hsearch
    refine ⟨field, hfield, ⟨row, hrow, hlacking⟩, ?_⟩
    simp only [find, Records.schema, run_bind, Work.ofExcept, hschema]
    rcases hrun : findRows settings schema q session' with ⟨result, last⟩
    rw [hrun] at hsearch
    cases hsearch
    rfl

end Search

/-- A search that sorts finds what the unsorted search finds, sorted by the fields. If a match lacks
one of them the search fails for that, also if it would have skipped the match. -/
theorem find_sorted (hsort : q.sortFields ≠ []) (hview : session'.txn.view = session.txn.view) :
    (∀ docs, (find settings entity q.unpaged session).1 = .ok docs →
      (∀ field ∈ q.sortFields, Document.Sortable docs field) →
        ∃ sorted, (find settings entity (q.paged none none) session').1 = .ok sorted ∧
          Document.SortedBy q.sortFields q.reversed docs sorted) ∧
      ∀ schema rows, entity.validSchema = .ok schema →
        (findRows settings schema q.unpaged session).1 = .ok rows →
        (∃ row ∈ rows, ∃ field ∈ q.sortFields, row.doc.lookup field = none) →
          ∃ field ∈ q.sortFields, (∃ row ∈ rows, row.doc.lookup field = none) ∧
            (find settings entity q session').1 = .error (.unknownField schema.typeName field) :=
  ⟨fun _ hfind hsortable => find_sortable hsort hview hfind hsortable,
    fun _ _ hschema hrows hmissing => find_unsortable hsort hview hschema hrows hmissing⟩

def someBooks : Session :=
  (insertAll Turn.bookSettings Turn.bookEntity
    [(.number 1, Turn.book 1 "a"), (.number 2, Turn.book 2 "b"), (.number 3, Turn.book 1 "c")]
    ⟨((Turn.reached Turn.bookSettings []).store.start false).1, []⟩).2

theorem exists_ok_of_any {α ε : Type} {result : Except ε α} {p : α → Bool}
    (h : result.toOption.any p = true) : ∃ a, result = .ok a ∧ p a = true := by
  cases result with
  | error e => cases h
  | ok a => exact ⟨a, rfl, h⟩

/-- The books from the last shelf to the first; those of one shelf stay in the order of their numbers.
None of them has a title, and that is found out although none is asked for. -/
theorem find_sorted_shelves :
    let q : Query Predicate := (Query.sortBy .all ["place.shelf"]).reverse
    let titled : Query Predicate := (Query.sortBy .all ["title"]).limitTo 0
    let code (doc : Document) := (doc.lookup "code").map Value.text
    (∃ docs sorted, (find Turn.bookSettings Turn.bookEntity q.unpaged someBooks).1 = .ok docs ∧
        (find Turn.bookSettings Turn.bookEntity (q.paged none none) someBooks).1 = .ok sorted ∧
        Document.SortedBy ["place.shelf"] true docs sorted ∧
        sorted.map code = [some "b", some "a", some "c"]) ∧
      (find Turn.bookSettings Turn.bookEntity titled someBooks).1 =
        .error (.unknownField "book" "title") := by
  intro q titled code
  constructor
  · let numbersOf (docs : List Document) := Value.numbersIn (docs.map (·.lookupOrNull "place.shelf"))
    obtain ⟨docs, hdocs, hchecked⟩ := exists_ok_of_any
      (by decide +kernel : (find Turn.bookSettings Turn.bookEntity q.unpaged someBooks).1.toOption.any
        fun docs => docs.all (fun doc => (doc.lookup "place.shelf").isSome) &&
          decide (docs.Pairwise fun a b =>
            ((a.lookupOrNull "place.shelf").compare (b.lookupOrNull "place.shelf")).isSome) &&
          (numbersOf docs).all Number.isInteger)
    simp only [Bool.and_eq_true, List.all_eq_true, decide_eq_true_eq] at hchecked
    obtain ⟨⟨hpresent, hcomparable⟩, hintegers⟩ := hchecked
    have hsharp : Value.Sharp (docs.map (·.lookupOrNull "place.shelf")) :=
      Value.sharp_of_integers hintegers
    obtain ⟨sorted, hsorted, hsortedBy⟩ := (find_sorted (q := q) (by decide +kernel) rfl).1 docs hdocs
      fun field hfield => List.mem_singleton.mp hfield ▸ ⟨hpresent, hcomparable, hsharp⟩
    have hcodes : (find Turn.bookSettings Turn.bookEntity (q.paged none none) someBooks).1.toOption.map
        (List.map code) = some [some "b", some "a", some "c"] := by
      decide +kernel
    rw [hsorted] at hcodes
    exact ⟨docs, sorted, hdocs, hsorted, hsortedBy, Option.some.inj hcodes⟩
  · obtain ⟨rows, hrows, huntitled⟩ := exists_ok_of_any
      (by decide +kernel : (findRows Turn.bookSettings Turn.bookSchema titled.unpaged
        someBooks).1.toOption.any fun rows => rows.any fun row => (row.doc.lookup "title").isNone)
    obtain ⟨row, hrow, hmissing⟩ := List.any_eq_true.mp huntitled
    have hschema : Turn.bookEntity.validSchema = .ok Turn.bookSchema := rfl
    obtain ⟨field, hfield, -, herror⟩ := (find_sorted (q := titled) (by decide +kernel) rfl).2
      Turn.bookSchema rows hschema hrows
      ⟨row, hrow, "title", List.mem_singleton_self _, Option.isNone_iff_eq_none.mp hmissing⟩
    rw [List.mem_singleton.mp hfield] at herror
    exact herror

end Records

end DocStore
