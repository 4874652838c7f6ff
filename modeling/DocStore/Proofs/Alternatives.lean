import DocStore.Proofs.IndexFailures
import DocStore.Proofs.Reordering
import DocStore.Proofs.Sorting

/-!
# The order of alternatives

A search makes one pass for each branch of a query, and leaves out what earlier passes have found. The
order of the branches decides where a row stands in the result, but not whether it is there: the rows
are those that some branch hits (`findRows_hits`). So a search that succeeds finds the same rows if the
branches come in another order (`findRows_matched`).
-/

namespace DocStore

variable {σ : Type} {scene : Scene} {schema : Schema}

theorem Reading.run_bind_ok {ε α β : Type} {r : Reading ε α} {f : α → Reading ε β} {view : Data}
    {reads last : List Bytes} {b : β} (h : (r >>= f) view reads = (.ok b, last)) :
    ∃ a mid, r view reads = (.ok a, mid) ∧ f a view mid = (.ok b, last) :=
  DocStore.run_bind_ok h

theorem Index.collect_ok {codec : Codec} {spec : IndexSpec} {view : Data} {values : List Value}
    {reads last keys : List Bytes}
    (h : collect codec schema spec values view reads = (.ok keys, last)) :
    ∀ value ∈ values, ∃ key, codec.encodeKey value = .ok key := by
  induction values generalizing reads keys with
  | nil => exact nofun
  | cons value rest ih =>
    obtain ⟨entry, _, hentry, h⟩ := Reading.run_bind_ok h
    obtain ⟨_, _, -, h⟩ := Reading.run_bind_ok h
    obtain ⟨more, _, hmore, h⟩ := Reading.run_bind_ok h
    cases h
    refine List.forall_mem_cons.mpr ⟨?_, ih hmore⟩
    have hentry : entryKey codec schema spec value = .ok entry := (Prod.mk.inj hentry).1
    unfold entryKey at hentry
    cases hkey : codec.encodeKey value with
    | error e =>
      rw [hkey] at hentry
      cases hentry
    | ok key => exact ⟨key, rfl⟩

namespace Search

open Evaluation

variable {b : Query Test} {branches : List (Query Test)}

-- ---------------------------------------------------------------------------
-- Passes that succeed
-- ---------------------------------------------------------------------------

section Succeeding

variable (hcodec : scene.codec = .bson) (hfields : ∀ spec ∈ schema.indexes, spec.field ≠ keyName)
  (hmirrored : scene.Mirrored schema) (hrestores : Restores scene schema)

include hmirrored in
theorem lookup_finds_of_ok {spec : IndexSpec} (hspec : spec ∈ schema.indexes) {values : List Value}
    {reads last keys : List Bytes}
    (h : Index.lookup scene.codec schema spec values scene.view reads = (.ok keys, last)) :
    LookupFinds scene schema spec values keys := by
  obtain ⟨_, _, hcollect, -⟩ := Reading.run_bind_ok h
  obtain ⟨found, hfinds, -⟩ := lookup_listed hmirrored hspec (Index.collect_ok hcollect)
  obtain ⟨_, hsame⟩ := hfinds.1 reads
  cases h.symm.trans hsame
  exact hfinds

include hcodec hfields hmirrored hrestores

theorem visits_of_pass {sink : Sink σ} {limit : Option Nat} (hdecided : b.Decided scene schema)
    {s s' : Sweep σ} (hrun : pass scene schema sink limit b s = (.ok (), s')) :
    ∃ keys, Visits scene schema b keys := by
  obtain ⟨plan, _, hmake, hrun⟩ := run_bind_ok hrun
  obtain ⟨_, mid, -, hrun⟩ := run_bind_ok hrun
  have hplan : Plan.make scene.codec schema b = .ok plan := (Prod.mk.inj hmake).1
  cases plan with
  | lookup spec values =>
    obtain ⟨keys, _, hkeys, -⟩ := run_bind_ok hrun
    rcases hlookup : Index.lookup scene.codec schema spec values scene.view mid.trail.reads with
      ⟨_ | found, last⟩
    · simp only [Sweeping.ofExec, Exec.ofReading, hlookup, Except.mapError] at hkeys
      cases hkeys
    · exact ⟨found, _, hplan, lookup_finds_of_ok hmirrored (Plan.mem_indexes hplan rfl) hlookup⟩
  | indexScan spec filtered =>
    have hspec : spec ∈ schema.indexes := Plan.mem_indexes hplan rfl
    obtain ⟨keys, hkeys, -⟩ :=
      (indexPlan_covers hcodec hfields hmirrored hrestores hspec hdecided filtered).finds
    exact ⟨keys, _, hplan, hkeys⟩
  | recordScan =>
    have hcovers : Covers scene schema b .recordScan := recordScan_covers
    obtain ⟨keys, hkeys, -⟩ := hcovers.finds
    exact ⟨keys, _, hplan, hkeys⟩

omit hcodec hfields hmirrored hrestores in
theorem passEach_ok {sink : Sink σ} {s s' : Sweep σ}
    (hrun : passEach scene schema sink none branches s = (.ok (), s')) :
    ∀ b ∈ branches, ∃ mid mid', pass scene schema sink none b mid = (.ok (), mid') := by
  induction branches generalizing s with
  | nil => exact nofun
  | cons b rest ih =>
    obtain ⟨_, _, hfull, hrun⟩ := run_bind_ok hrun
    cases hfull
    obtain ⟨_, _, hfirst, hrest⟩ := run_bind_ok hrun
    exact List.forall_mem_cons.mpr ⟨⟨_, _, hfirst⟩, ih hrest⟩

theorem visits_matched {branches' : List (Query Test)} (h : Query.Matched branches branches')
    (hdecided : ∀ b ∈ branches, b.Decided scene schema)
    (hvisits : ∀ b ∈ branches, ∃ keys, Visits scene schema b keys) :
    ∀ b ∈ branches', ∃ keys, Visits scene schema b keys := by
  intro b' hb'
  obtain ⟨b, hb, halike⟩ := h.right b' hb'
  obtain ⟨keys, hkeys⟩ := hvisits b hb
  exact ⟨keys, visits_alike hcodec hfields hmirrored hrestores halike.symm (hdecided b hb) hkeys⟩

variable {q : Query Test} {trail : Trail} {rows : List Row}

theorem visits_of_unsorted (hdecided : ∀ b ∈ q.branches, b.Decided scene schema)
    (hlimit : q.limit = none) (hsort : q.sortFields = [])
    (hrows : (findRows scene schema q trail).1 = .ok rows) :
    ∀ b ∈ q.branches, ∃ keys, Visits scene schema b keys := by
  simp only [findRows, walk_unsorted (validate_of_findRows hrows) (List.isEmpty_iff.mpr hsort), sweep,
    hlimit, passAll_eq] at hrows
  rcases hrun : passEach scene schema collector none q.branches ⟨trail, [], q.skipCount, 0, []⟩ with
    ⟨_ | _, last⟩
  · rw [hrun] at hrows
    cases hrows
  · intro b hb
    obtain ⟨_, _, hpass⟩ := passEach_ok hrun b hb
    exact visits_of_pass hcodec hfields hmirrored hrestores (hdecided b hb) hpass

omit hcodec hfields hmirrored hrestores in
theorem unpaged_of_sorted (hsort : q.sortFields ≠ [])
    (hrows : (findRows scene schema q trail).1 = .ok rows) :
    ∃ found, (findRows scene schema q.unpaged trail).1 = .ok found := by
  have hvalid := validate_of_findRows hrows
  have hvalid' : q.unpaged.validate = .ok () := hvalid
  simp only [findRows, walk_sorted hvalid (List.isEmpty_eq_false_iff.mpr hsort)] at hrows
  rcases hsorted : sortedRows scene schema q trail with ⟨_ | _, _⟩
  · rw [hsorted] at hrows
    cases hrows
  · obtain ⟨found, _, hfound, -⟩ := run_bind_ok hsorted
    refine ⟨found, ?_⟩
    simp only [findRows, walk_unsorted hvalid' rfl]
    exact (Prod.mk.inj hfound).1

end Succeeding

-- ---------------------------------------------------------------------------
-- Rows
-- ---------------------------------------------------------------------------

def Hit (scene : Scene) (schema : Schema) (branches : List (Query Test)) (row : Row) : Prop :=
  ∃ b ∈ branches, ∃ keys, Visits scene schema b keys ∧ row.key ∈ keys ∧
    Answers scene schema row b.clauses true

theorem Visits.unique {keys keys' : List Bytes} (h : Visits scene schema b keys)
    (h' : Visits scene schema b keys') : keys = keys' := by
  obtain ⟨plan, hplan, hfinds⟩ := h
  obtain ⟨plan', hplan', hfinds'⟩ := h'
  cases hplan.symm.trans hplan'
  exact hfinds.unique hfinds'

theorem alsoEach_iff_hit {branches : List (Query Test × List Bytes)} {wanted : Row → Prop} {row : Row}
    (hvisits : ∀ b ∈ branches, Visits scene schema b.1 b.2) :
    AlsoEach scene schema branches wanted row ↔
      wanted row ∨ Hit scene schema (branches.map Prod.fst) row := by
  induction branches generalizing wanted with
  | nil => simp [AlsoEach, Hit]
  | cons head rest ih =>
    obtain ⟨b, keys⟩ := head
    have hfirst : (∃ found, Visits scene schema b found ∧ row.key ∈ found ∧
        Answers scene schema row b.clauses true) ↔
          row.key ∈ keys ∧ Answers scene schema row b.clauses true := by
      have hkeys : Visits scene schema b keys := hvisits _ List.mem_cons_self
      constructor
      · rintro ⟨found, hfound, hmem, hanswers⟩
        exact ⟨hfound.unique hkeys ▸ hmem, hanswers⟩
      · rintro ⟨hmem, hanswers⟩
        exact ⟨keys, hkeys, hmem, hanswers⟩
    rw [AlsoEach, ih fun b' hb' => hvisits b' (List.mem_cons_of_mem _ hb'), Also, Hit, Hit]
    simp only [List.map_cons, List.mem_cons, exists_eq_or_imp, hfirst, or_assoc]

variable {q q' : Query Test}

/-- A search finds the rows that its branches hit, each of them once. -/
theorem findRows_hits (hreadable : Readable scene schema) (hsteady : q.Steady)
    (hvalid : q.validate = .ok ()) (hsort : q.sortFields = []) (hskip : q.skip = none)
    (hlimit : q.limit = none) (hdecided : ∀ b ∈ q.branches, b.Decided scene schema)
    (hvisits : ∀ b ∈ q.branches, ∃ keys, Visits scene schema b keys) (trail : Trail) :
    ∃ rows, (findRows scene schema q trail).1 = .ok rows ∧ rows.Nodup ∧
      ∀ row, row ∈ rows ↔ row.Stored scene schema ∧ Hit scene schema q.branches row := by
  obtain ⟨branches, hbranches, hvisits⟩ := exists_keys hvisits
  have hdecided' : ∀ b ∈ branches, b.1.Decided scene schema := fun b hb =>
    hdecided b.1 (hbranches ▸ List.mem_map_of_mem hb)
  obtain ⟨rows, hrows, hdistinct, hiff⟩ := findRows_of_answered hreadable hsteady hvalid hsort hskip
    hlimit hbranches hvisits (fun row hrow => answered_of_decided hdecided' hrow) trail
  refine ⟨rows, hrows, hdistinct.of_map, fun row => ?_⟩
  rw [hiff, alsoEach_iff_hit hvisits, hbranches, false_or]

theorem checkSortFields_eq_ok_iff (schema : Schema) {fields : List String} {rows : List Row} :
    checkSortFields schema fields rows = .ok () ↔
      ∀ row ∈ rows, ∀ field ∈ fields, (row.doc.lookup field).isSome := by
  rcases checkSortFields_cases schema fields rows with
    ⟨hok, hall⟩ | ⟨row, hrow, field, hfield, hmissing, herror⟩
  · exact iff_of_true hok hall
  · refine iff_of_false (herror ▸ nofun) fun hall => ?_
    have hsome := hall row hrow field hfield
    rw [hmissing] at hsome
    cases hsome

theorem findRows_sorted_iff {trail : Trail} {rows found : List Row} (hsteady : q.Steady)
    (hsort : q.sortFields ≠ []) (hskip : q.skip = none) (hlimit : q.limit = none)
    (hfound : (findRows scene schema q.unpaged trail).1 = .ok found) (trail' : Trail) :
    (findRows scene schema q trail').1 = .ok rows ↔
      (∀ row ∈ found, ∀ field ∈ q.sortFields, (row.doc.lookup field).isSome) ∧
        rows = sortRows q.sortFields q.reversed found := by
  have hall (sorted : List Row) : slice q sorted = sorted := by
    simp [slice, Query.skipCount, hskip, hlimit]
  rw [findRows_sorting hsteady hsort hfound trail', ← checkSortFields_eq_ok_iff schema, hall]
  cases checkSortFields schema q.sortFields found with
  | error e => simp [Except.map]
  | ok _ => simp [Except.map, eq_comm]

section Matched

variable (hcodec : scene.codec = .bson) (hfields : ∀ spec ∈ schema.indexes, spec.field ≠ keyName)
  (hmirrored : scene.Mirrored schema) (hrestores : Restores scene schema)
include hcodec hfields hmirrored hrestores

theorem Hit.matched {branches branches' : List (Query Test)} {row : Row}
    (h : Hit scene schema branches row) (hmatched : Query.Matched branches branches')
    (hdecided : ∀ b ∈ branches, b.Decided scene schema) (hrow : row.Stored scene schema) :
    Hit scene schema branches' row := by
  obtain ⟨b, hb, keys, hvisits, hmem, hanswers⟩ := h
  obtain ⟨b', hb', halike⟩ := hmatched.left b hb
  refine ⟨b', hb', keys, ?_, hmem, hanswers.perm halike.clauses fun c hc => hdecided b hb c hc row hrow⟩
  exact visits_alike hcodec hfields hmirrored hrestores halike (hdecided b hb) hvisits

variable {trail : Trail} {rows : List Row}

theorem findRows_matched_unsorted (h : q.Reordered Query.Matched q') (hsteady : q.Steady)
    (hsort : q.sortFields = []) (hskip : q.skip = none) (hlimit : q.limit = none)
    (hdecided : ∀ b ∈ q.branches, b.Decided scene schema)
    (hrows : (findRows scene schema q trail).1 = .ok rows) (trail' : Trail) :
    ∃ rows', (findRows scene schema q' trail').1 = .ok rows' ∧ rows'.Perm rows := by
  have hvalid := validate_of_findRows hrows
  have hdecided' := h.matched.decided hdecided
  have hvisits := visits_of_unsorted hcodec hfields hmirrored hrestores hdecided hlimit hsort hrows
  have hvisits' := visits_matched hcodec hfields hmirrored hrestores h.matched hdecided hvisits
  obtain ⟨found, hfound, hdistinct, hiff⟩ := findRows_hits hmirrored.readable hsteady hvalid hsort hskip
    hlimit hdecided hvisits trail
  obtain ⟨rows', hrows', hdistinct', hiff'⟩ := findRows_hits hmirrored.readable
    (h.matched.steady hsteady) (h.valid hvalid) (h.sortFields ▸ hsort) (h.skip ▸ hskip)
    (h.limit ▸ hlimit) hdecided' hvisits' trail'
  cases hrows.symm.trans hfound
  -- Either search finds each of its rows once, so nothing but their order can differ.
  refine ⟨rows', hrows', (List.perm_ext_iff_of_nodup hdistinct' hdistinct).mpr fun row => ?_⟩
  rw [hiff', hiff]
  exact and_congr_right fun hrow =>
    ⟨fun hit => hit.matched hcodec hfields hmirrored hrestores h.matched.symm hdecided' hrow,
      fun hit => hit.matched hcodec hfields hmirrored hrestores h.matched hdecided hrow⟩

/-- Unless it is paged, a search that succeeds finds the same rows with its alternatives in another
order. -/
theorem findRows_matched (h : q.Reordered Query.Matched q') (hsteady : q.Steady)
    (hskip : q.skip = none) (hlimit : q.limit = none)
    (hdecided : ∀ b ∈ q.branches, b.Decided scene schema)
    (hrows : (findRows scene schema q trail).1 = .ok rows) (trail' : Trail) :
    ∃ rows', (findRows scene schema q' trail').1 = .ok rows' ∧ rows'.Perm rows := by
  by_cases hsort : q.sortFields = []
  · exact findRows_matched_unsorted hcodec hfields hmirrored hrestores h hsteady hsort hskip hlimit
      hdecided hrows trail'
  · -- Rows that tie when sorted come in the order in which they are found, so the orders may differ.
    obtain ⟨found, hfound⟩ := unpaged_of_sorted hsort hrows
    have hdecided' := (q.matched_paged [] false none none).decided hdecided
    obtain ⟨found', hfound', hperm⟩ := findRows_matched_unsorted hcodec hfields hmirrored hrestores
      h.unpaged hsteady.unpaged rfl rfl rfl hdecided' hfound trail'
    obtain ⟨hall, rfl⟩ := (findRows_sorted_iff hsteady hsort hskip hlimit hfound trail).mp hrows
    have hrows' := (findRows_sorted_iff (h.matched.steady hsteady) (h.sortFields ▸ hsort) (h.skip ▸ hskip)
      (h.limit ▸ hlimit) hfound' trail').mpr
      ⟨fun row hrow => h.sortFields ▸ hall row (hperm.subset hrow), rfl⟩
    exact ⟨_, hrows', (stableSort_perm _ _).trans (hperm.trans (stableSort_perm _ _).symm)⟩

omit hcodec hfields hmirrored hrestores in
theorem findRows_paged {trail : Trail} {rows : List Row} (hsteady : (q.paged none none).Steady)
    (hrows : (findRows scene schema (q.paged none none) trail).1 = .ok rows) :
    (findRows scene schema q trail).1 = .ok (stretch (q.skip.getD 0) q.limit rows) := by
  have hsame : (q.paged none none).paged q.skip q.limit = q := by
    cases q
    rfl
  have hwalk : ((walk scene schema collector q [] trail).1,
      (walk scene schema collector q [] trail).2.1) =
        feed collector (stretch (q.skip.getD 0) q.limit rows) [] := by
    rw [← walk_paged hsteady rfl rfl hrows q.skip q.limit [] trail, hsame]
  rw [feed_collector, List.append_nil] at hwalk
  obtain ⟨hok, hacc⟩ := Prod.mk.inj hwalk
  simp only [findRows, hok, hacc, Except.map, List.reverse_reverse]

/-- A search can only fail at a pass that does not come to its end, and at a row that it hits and that
lacks a field to sort by. -/
theorem findRows_ok (hsteady : q.Steady) (hvalid : q.validate = .ok ())
    (hdecided : ∀ b ∈ q.branches, b.Decided scene schema)
    (hvisits : ∀ b ∈ q.branches, ∃ keys, Visits scene schema b keys)
    (hsortable : ∀ row : Row, row.Stored scene schema → Hit scene schema q.branches row →
      ∀ field ∈ q.sortFields, (row.doc.lookup field).isSome) (trail : Trail) :
    ∃ rows, (findRows scene schema q trail).1 = .ok rows := by
  have hpaged : Query.Matched q.branches (q.paged none none).branches :=
    q.matched_paged q.sortFields q.reversed none none
  have hsteady' : (q.paged none none).Steady := hpaged.steady hsteady
  obtain ⟨rows, hrows⟩ : ∃ rows, (findRows scene schema (q.paged none none) trail).1 = .ok rows := by
    by_cases hsort : q.sortFields = []
    · obtain ⟨rows, hrows, -⟩ := findRows_hits hmirrored.readable hsteady' hvalid hsort rfl rfl
        (hpaged.decided hdecided)
        (visits_matched hcodec hfields hmirrored hrestores hpaged hdecided hvisits) trail
      exact ⟨rows, hrows⟩
    · have hmatched : Query.Matched q.branches q.unpaged.branches :=
        q.matched_paged [] false none none
      have hdecided' := hmatched.decided hdecided
      obtain ⟨found, hfound, -, hiff⟩ := findRows_hits hmirrored.readable hsteady.unpaged hvalid rfl
        rfl rfl hdecided'
        (visits_matched hcodec hfields hmirrored hrestores hmatched hdecided hvisits) trail
      refine ⟨_, (findRows_sorted_iff hsteady' hsort rfl rfl hfound trail).mpr
        ⟨fun row hrow => ?_, rfl⟩⟩
      obtain ⟨hstored, hit⟩ := (hiff row).mp hrow
      exact hsortable row hstored
        (hit.matched hcodec hfields hmirrored hrestores hmatched.symm hdecided' hstored)
  exact ⟨_, findRows_paged hsteady' hrows⟩

end Matched

end Search

end DocStore
