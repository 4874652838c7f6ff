import DocStore.Proofs.KeyLists
import DocStore.Proofs.Pages
import DocStore.Search

/-!
# Drawing from cursors

From a bookmark on a cursor `Yields` candidates, draw by draw, up to the end or to a page that fails
(`next_yields`). It hands out what a first part of the entries ahead gives, and if a page fails, that
page is the next one (`Yields.read`). So a source that can be read in one go is drained candidate by
candidate whatever the size of the pages (`yields_start`), and from one that cannot, nothing is handed
out that pages of one entry do not hand out as well (`Yields.single`).
-/

namespace DocStore

-- ---------------------------------------------------------------------------
-- Pages of candidates
-- ---------------------------------------------------------------------------

namespace Cursor

variable {ε : Type} {codec : Codec} {view : Data} {c : Cursor ε}

theorem listedKeys_cons (entry list : Bytes) (rest : List (Bytes × Bytes)) :
    c.listedKeys codec ((entry, list) :: rest) =
      match c.passes codec entry with
      | .error e => .error e
      | .ok false => c.listedKeys codec rest
      | .ok true =>
        match KeyList.decode? list with
        | none => .error (c.corrupt .truncatedKeyList)
        | some keys => (c.listedKeys codec rest).map (keys ++ ·) := by
  simp only [listedKeys, bind, Except.bind]
  cases c.passes codec entry with
  | error e => rfl
  | ok passes =>
    cases passes with
    | false => rfl
    | true =>
      cases KeyList.decode? list with
      | none => rfl
      | some keys => cases c.listedKeys codec rest <;> rfl

theorem listedKeys_cons_ok {entry list : Bytes} {rest : List (Bytes × Bytes)} {keys : List Bytes}
    (h : c.listedKeys codec ((entry, list) :: rest) = .ok keys) :
    (c.passes codec entry = .ok false ∧ c.listedKeys codec rest = .ok keys) ∨
      ∃ listed more, c.passes codec entry = .ok true ∧ KeyList.decode? list = some listed ∧
        c.listedKeys codec rest = .ok more ∧ keys = listed ++ more := by
  rw [listedKeys_cons] at h
  cases hpasses : c.passes codec entry with
  | error e => simp only [hpasses, reduceCtorEq] at h
  | ok passes =>
    simp only [hpasses] at h
    cases passes with
    | false => exact .inl ⟨rfl, h⟩
    | true =>
      cases hkeys : KeyList.decode? list with
      | none => simp only [hkeys, reduceCtorEq] at h
      | some listed =>
        simp only [hkeys] at h
        cases hmore : c.listedKeys codec rest with
        | error e => simp only [hmore, Except.map, reduceCtorEq] at h
        | ok more =>
          simp only [hmore, Except.map, Except.ok.injEq] at h
          exact .inr ⟨listed, more, rfl, rfl, rfl, h.symm⟩

theorem listedKeys_append {first second : List (Bytes × Bytes)} {keys : List Bytes}
    (h : c.listedKeys codec (first ++ second) = .ok keys) :
    ∃ these those, c.listedKeys codec first = .ok these ∧ c.listedKeys codec second = .ok those ∧
      keys = these ++ those := by
  induction first generalizing keys with
  | nil => exact ⟨[], keys, rfl, h, rfl⟩
  | cons pair rest ih =>
    obtain ⟨entry, list⟩ := pair
    rw [List.cons_append] at h
    rw [listedKeys_cons]
    obtain ⟨hpasses, hrest⟩ | ⟨listed, more, hpasses, hlisted, hmore, rfl⟩ := listedKeys_cons_ok h
    · simp only [hpasses]
      exact ih hrest
    · obtain ⟨these, those, hthese, hthose, rfl⟩ := ih hmore
      refine ⟨listed ++ these, those, ?_, hthose, (List.append_assoc ..).symm⟩
      simp only [hpasses, hlisted, hthese, Except.map]

theorem withRecords_cons_ok {key : Bytes} {rest : List Bytes} {found : List Candidate}
    (h : c.withRecords view (key :: rest) = .ok found) :
    ∃ value more, view.get? (c.recordKey key) = some value ∧ c.withRecords view rest = .ok more ∧
      found = ⟨key, value⟩ :: more := by
  simp only [withRecords] at h
  cases hvalue : view.get? (c.recordKey key) with
  | none => simp only [hvalue, reduceCtorEq] at h
  | some value =>
    simp only [hvalue] at h
    cases hmore : c.withRecords view rest with
    | error e => simp only [hmore, Except.map, reduceCtorEq] at h
    | ok more =>
      simp only [hmore, Except.map, Except.ok.injEq] at h
      exact ⟨value, more, rfl, rfl, h.symm⟩

theorem withRecords_append {first second : List Bytes} {found : List Candidate}
    (h : c.withRecords view (first ++ second) = .ok found) :
    ∃ these those, c.withRecords view first = .ok these ∧ c.withRecords view second = .ok those ∧
      found = these ++ those := by
  induction first generalizing found with
  | nil => exact ⟨[], found, rfl, h, rfl⟩
  | cons key rest ih =>
    obtain ⟨value, more, hvalue, hmore, rfl⟩ := withRecords_cons_ok h
    obtain ⟨these, those, hthese, hthose, rfl⟩ := ih hmore
    refine ⟨⟨key, value⟩ :: these, those, ?_, hthose, rfl⟩
    simp only [withRecords, hvalue, hthese, Except.map]

/-- What can be read in one go can be read in two. -/
theorem candidates_append {first second : List (Bytes × Bytes)} {found : List Candidate}
    (h : (c.candidates codec view (first ++ second)).1 = .ok found) :
    ∃ these those, (c.candidates codec view first).1 = .ok these ∧
      (c.candidates codec view second).1 = .ok those ∧ found = these ++ those := by
  unfold candidates at h ⊢
  cases hsource : c.source with
  | records typeName =>
    simp only [hsource, List.map_append, Except.ok.injEq] at h ⊢
    exact ⟨_, _, rfl, rfl, h.symm⟩
  | index typeName indexName =>
    simp only [hsource] at h ⊢
    cases hkeys : c.listedKeys codec (first ++ second) with
    | error e => simp only [hkeys, reduceCtorEq] at h
    | ok keys =>
      simp only [hkeys] at h
      obtain ⟨these, those, hthese, hthose, rfl⟩ := listedKeys_append hkeys
      simp only [hthese, hthose]
      exact withRecords_append h

theorem listedKeys_append_ok {first second : List (Bytes × Bytes)} {these those : List Bytes}
    (hthese : c.listedKeys codec first = .ok these) (hthose : c.listedKeys codec second = .ok those) :
    c.listedKeys codec (first ++ second) = .ok (these ++ those) := by
  induction first generalizing these with
  | nil =>
    cases hthese
    exact hthose
  | cons pair rest ih =>
    obtain ⟨entry, list⟩ := pair
    rw [List.cons_append, listedKeys_cons]
    obtain ⟨hpasses, hrest⟩ | ⟨listed, more, hpasses, hlisted, hmore, rfl⟩ := listedKeys_cons_ok hthese
    · simp only [hpasses]
      exact ih hrest
    · simp only [hpasses, hlisted, ih hmore, Except.map, List.append_assoc]

theorem withRecords_append_ok {first second : List Bytes} {these those : List Candidate}
    (hthese : c.withRecords view first = .ok these) (hthose : c.withRecords view second = .ok those) :
    c.withRecords view (first ++ second) = .ok (these ++ those) := by
  induction first generalizing these with
  | nil =>
    cases hthese
    exact hthose
  | cons key rest ih =>
    obtain ⟨value, more, hvalue, hmore, rfl⟩ := withRecords_cons_ok hthese
    simp only [List.cons_append, withRecords, hvalue, ih hmore, Except.map]

theorem candidates_append_ok {first second : List (Bytes × Bytes)} {these those : List Candidate}
    (hthese : (c.candidates codec view first).1 = .ok these)
    (hthose : (c.candidates codec view second).1 = .ok those) :
    (c.candidates codec view (first ++ second)).1 = .ok (these ++ those) := by
  unfold candidates at hthese hthose ⊢
  cases hsource : c.source with
  | records typeName =>
    simp only [hsource, Except.ok.injEq] at hthese hthose ⊢
    rw [List.map_append, hthese, hthose]
  | index typeName indexName =>
    simp only [hsource] at hthese hthose ⊢
    cases hfirst : c.listedKeys codec first with
    | error e => simp only [hfirst, reduceCtorEq] at hthese
    | ok keys =>
      cases hsecond : c.listedKeys codec second with
      | error e => simp only [hsecond, reduceCtorEq] at hthose
      | ok keys' =>
        simp only [hfirst, hsecond] at hthese hthose
        simp only [listedKeys_append_ok hfirst hsecond, withRecords_append_ok hthese hthose]

theorem readable_of_prefix {first page pairs : List (Bytes × Bytes)} {found : List Candidate}
    (hpage : first ++ page <+: pairs) (h : (c.candidates codec view pairs).1 = .ok found) :
    ∃ those, (c.candidates codec view page).1 = .ok those := by
  obtain ⟨others, rfl⟩ := hpage
  obtain ⟨_, -, hboth, -, -⟩ := candidates_append h
  obtain ⟨_, those, -, hthose, -⟩ := candidates_append hboth
  exact ⟨those, hthose⟩

theorem candidates_nil : (c.candidates codec view []).1 = .ok [] := by
  unfold candidates
  cases c.source <;> rfl

theorem listedKeys_ok {pairs : List (Bytes × Bytes)}
    (h : ∀ pair ∈ pairs, (∃ passes, c.passes codec pair.1 = .ok passes) ∧
      ∃ keys, KeyList.decode? pair.2 = some keys) :
    ∃ keys, c.listedKeys codec pairs = .ok keys ∧ ∀ pk, pk ∈ keys ↔ ∃ pair ∈ pairs,
      c.passes codec pair.1 = .ok true ∧
        ∃ listed, KeyList.decode? pair.2 = some listed ∧ pk ∈ listed := by
  induction pairs with
  | nil => exact ⟨[], rfl, by simp⟩
  | cons pair rest ih =>
    obtain ⟨entry, list⟩ := pair
    obtain ⟨more, hmore, hiff⟩ := ih fun pair hpair => h pair (List.mem_cons_of_mem _ hpair)
    obtain ⟨⟨passes, hpasses⟩, listed, hlisted⟩ := h (entry, list) List.mem_cons_self
    simp only at hpasses hlisted
    rw [listedKeys_cons, hpasses]
    cases passes with
    | false =>
      refine ⟨more, hmore, fun pk => ?_⟩
      simp only [hiff, List.exists_mem_cons_iff, hpasses, Except.ok.injEq, Bool.false_eq_true,
        false_and, false_or]
    | true =>
      refine ⟨listed ++ more, by simp only [hlisted, hmore, Except.map], fun pk => ?_⟩
      simp only [List.mem_append, hiff, List.exists_mem_cons_iff, hpasses, hlisted, true_and,
        Option.some.injEq, exists_eq_left']

theorem withRecords_ok {keys : List Bytes}
    (h : ∀ key ∈ keys, ∃ value, view.get? (c.recordKey key) = some value) :
    ∃ found, c.withRecords view keys = .ok found ∧ found.map Candidate.key = keys ∧
      ∀ candidate ∈ found, view.get? (c.recordKey candidate.key) = some candidate.value := by
  induction keys with
  | nil => exact ⟨[], rfl, rfl, nofun⟩
  | cons key rest ih =>
    obtain ⟨more, hmore, hkeys, hstored⟩ := ih fun key hkey => h key (List.mem_cons_of_mem _ hkey)
    obtain ⟨value, hvalue⟩ := h key List.mem_cons_self
    refine ⟨⟨key, value⟩ :: more, ?_, by rw [List.map_cons, hkeys], ?_⟩
    · simp only [withRecords, hvalue, hmore, Except.map]
    · intro candidate hcandidate
      rcases List.mem_cons.mp hcandidate with rfl | hcandidate
      · exact hvalue
      · exact hstored candidate hcandidate

-- ---------------------------------------------------------------------------
-- Bookmarks
-- ---------------------------------------------------------------------------

def ahead (view : Data) (c : Cursor ε) (b : Bookmark) : List (Bytes × Bytes) :=
  if b.exhausted then [] else view.rest c.source.start b.seek

/-- So many looks at a bookmark lead to the next candidate or to the end. -/
def looks (view : Data) (c : Cursor ε) (b : Bookmark) : Nat :=
  if b.exhausted then 1 else (view.rest c.source.start b.seek).length + 2

def pageEnd (view : Data) (c : Cursor ε) (seek : Option Bytes) (found : List Candidate) : Bookmark :=
  let page := view.page c.source.start seek c.pageSize
  ⟨found, (page.getLast?.map Prod.fst).or seek, decide (page.length < c.pageSize)⟩

/-- The candidates that a cursor hands out from a bookmark on, and the failure that stops it there, if
it does not get to the end. -/
inductive Yields (codec : Codec) (view : Data) (c : Cursor ε) :
    Bookmark → List Candidate → Option ε → Prop where
  | fetched {b : Bookmark} (h : b.exhausted = true) : Yields codec view c b b.batch none
  | page {b : Bookmark} {found left : List Candidate} {stop : Option ε} (h : b.exhausted = false)
      (hfound : (c.candidates codec view (view.page c.source.start b.seek c.pageSize)).1 = .ok found)
      (hleft : Yields codec view c (pageEnd view c b.seek found) left stop) :
      Yields codec view c b (b.batch ++ left) stop
  | broken {b : Bookmark} {e : ε} (h : b.exhausted = false)
      (hfound : (c.candidates codec view (view.page c.source.start b.seek c.pageSize)).1 = .error e) :
      Yields codec view c b b.batch (some e)

def foremost : List Candidate → Option ε → Except ε (Option Candidate)
  | candidate :: _, _ => .ok (some candidate)
  | [], none => .ok none
  | [], some e => .error e

theorem fill_run (seek : Option Bytes) :
    ∃ reads, c.fill codec view ⟨[], seek, false⟩ =
      ((c.candidates codec view (view.page c.source.start seek c.pageSize)).1.map
        (pageEnd view c seek), reads) := ⟨_, rfl⟩

theorem drop_of_short {seek : Option Bytes}
    (h : (view.page c.source.start seek c.pageSize).length < c.pageSize) :
    (view.rest c.source.start seek).drop c.pageSize = [] := by
  rw [Data.page_eq_take, List.length_take] at h
  exact List.drop_eq_nil_of_le (by omega)

theorem rest_pageEnd {seek : Option Bytes} {found : List Candidate}
    (h : ¬ (view.page c.source.start seek c.pageSize).length < c.pageSize) :
    view.rest c.source.start (pageEnd view c seek found).seek =
      (view.rest c.source.start seek).drop c.pageSize := by
  have hpositive : 0 < c.pageSize := Nat.le_max_right _ _
  have hne : view.page c.source.start seek c.pageSize ≠ [] := by
    intro hnil
    simp [hnil, hpositive] at h
  have hlast := List.getLast?_eq_getLast_of_ne_nil hne
  rw [← Data.rest_after_page hlast]
  simp only [pageEnd, hlast, Option.map_some, Option.some_or]

theorem ahead_pageEnd (seek : Option Bytes) (found : List Candidate) :
    ahead view c (pageEnd view c seek found) =
      (view.rest c.source.start seek).drop c.pageSize := by
  by_cases hshort : (view.page c.source.start seek c.pageSize).length < c.pageSize
  · have hexhausted : (pageEnd view c seek found).exhausted = true := decide_eq_true hshort
    rw [drop_of_short hshort, ahead, if_pos hexhausted]
  · have hexhausted : ¬ (pageEnd view c seek found).exhausted = true := of_decide_eq_true.mt hshort
    rw [ahead, if_neg hexhausted, rest_pageEnd hshort]

theorem looks_pageEnd {b : Bookmark} (h : b.exhausted = false) (found : List Candidate) :
    looks view c (pageEnd view c b.seek found) < looks view c b := by
  have hpositive : 0 < c.pageSize := Nat.le_max_right _ _
  simp only [looks, h, Bool.false_eq_true, if_false]
  split
  · omega
  · rename_i hexhausted
    have hshort : ¬ (view.page c.source.start b.seek c.pageSize).length < c.pageSize :=
      fun hshort => hexhausted (decide_eq_true hshort)
    rw [rest_pageEnd hshort, List.length_drop]
    rw [Data.page_eq_take, List.length_take] at hshort
    omega

theorem exists_yields (b : Bookmark) : ∃ left stop, c.Yields codec view b left stop := by
  cases hexhausted : b.exhausted with
  | true => exact ⟨_, _, .fetched hexhausted⟩
  | false =>
    cases hfound : (c.candidates codec view (view.page c.source.start b.seek c.pageSize)).1 with
    | error e => exact ⟨_, _, .broken hexhausted hfound⟩
    | ok found =>
      obtain ⟨left, stop, hleft⟩ := exists_yields (pageEnd view c b.seek found)
      exact ⟨_, _, .page hexhausted hfound hleft⟩
termination_by looks view c b
decreasing_by exact looks_pageEnd hexhausted found

/-- A cursor hands out what it has left, one candidate after the other. -/
theorem nextWith_yields {fuel : Nat} {b : Bookmark} {left : List Candidate} {stop : Option ε}
    (h : c.Yields codec view b left stop) (hfuel : looks view c b ≤ fuel) :
    ∃ last reads, c.nextWith codec view fuel b = (foremost left stop, last, reads) ∧
      c.Yields codec view last left.tail stop := by
  induction fuel generalizing b left with
  | zero =>
    unfold looks at hfuel
    split at hfuel <;> omega
  | succ fuel ih =>
    obtain ⟨batch, seek, exhausted⟩ := b
    cases batch with
    | cons candidate rest =>
      cases h with
      | fetched h => exact ⟨_, _, rfl, .fetched h⟩
      | page h hfound hleft => exact ⟨_, _, rfl, .page (b := ⟨rest, seek, exhausted⟩) h hfound hleft⟩
      | broken h hfound => exact ⟨_, _, rfl, .broken (b := ⟨rest, seek, exhausted⟩) h hfound⟩
    | nil =>
      obtain ⟨reads, hfill⟩ : ∃ reads, c.fill codec view ⟨[], seek, false⟩ = (_, reads) := fill_run seek
      cases h with
      | fetched h =>
        cases h
        exact ⟨_, _, rfl, .fetched rfl⟩
      | broken h hfound =>
        cases h
        simp only [hfound, Except.map] at hfill
        refine ⟨_, reads, ?_, .broken rfl hfound⟩
        simp only [nextWith, Bool.false_eq_true, if_false, hfill, foremost]
      | @page _ found _ _ h hfound hleft =>
        cases h
        simp only [hfound, Except.map] at hfill
        -- Nothing is handed out yet, but the fetched page brings the number of looks down.
        have hlooks : looks view c (pageEnd view c seek found) < looks view c ⟨[], seek, false⟩ :=
          looks_pageEnd (b := ⟨[], seek, false⟩) rfl found
        have hfuel : looks view c (pageEnd view c seek found) ≤ fuel := by omega
        obtain ⟨last, more, hnext, hlast⟩ := ih hleft hfuel
        refine ⟨last, reads ++ more, ?_, hlast⟩
        simp only [nextWith, Bool.false_eq_true, if_false, hfill, hnext, List.nil_append]

theorem next_yields {b : Bookmark} {left : List Candidate} {stop : Option ε}
    (h : c.Yields codec view b left stop) :
    ∃ last reads, c.next codec view b = (foremost left stop, last, reads) ∧
      c.Yields codec view last left.tail stop := by
  refine nextWith_yields h ?_
  have hlength := (Data.rest_sublist view c.source.start b.seek).length_le
  unfold looks
  split
  · omega
  · exact Nat.add_le_add_right hlength 2

theorem withRecords_congr {view' : Data}
    (h : ∀ key, view'.get? (c.recordKey key) = view.get? (c.recordKey key)) (keys : List Bytes) :
    c.withRecords view' keys = c.withRecords view keys := by
  induction keys with
  | nil => rfl
  | cons key rest ih => simp only [withRecords, h, ih]

theorem candidates_congr {view' : Data}
    (h : ∀ key, view'.get? (c.recordKey key) = view.get? (c.recordKey key))
    (pairs : List (Bytes × Bytes)) :
    c.candidates codec view' pairs = c.candidates codec view pairs := by
  simp only [candidates, withRecords_congr h]

theorem Yields.congr {view' : Data} {b : Bookmark} {left : List Candidate} {stop : Option ε}
    (h : c.Yields codec view b left stop)
    (hrecord : ∀ key, view'.get? (c.recordKey key) = view.get? (c.recordKey key))
    (hahead : ahead view' c b = ahead view c b) : c.Yields codec view' b left stop := by
  have hrest {b : Bookmark} (h : b.exhausted = false) (hahead : ahead view' c b = ahead view c b) :
      view'.rest c.source.start b.seek = view.rest c.source.start b.seek := by
    simpa only [ahead, h, Bool.false_eq_true, if_false] using hahead
  have hpage {b : Bookmark} (h : b.exhausted = false) (hahead : ahead view' c b = ahead view c b) :
      view'.page c.source.start b.seek c.pageSize = view.page c.source.start b.seek c.pageSize := by
    rw [Data.page_eq_take, Data.page_eq_take, hrest h hahead]
  induction h with
  | fetched h => exact .fetched h
  | @broken b e h hfound =>
    refine .broken h ?_
    rwa [hpage h hahead, candidates_congr hrecord]
  | @page b found left stop h hfound hleft ih =>
    have hend : pageEnd view' c b.seek found = pageEnd view c b.seek found := by
      simp only [pageEnd, hpage h hahead]
    -- Behind the page, too, the two views have the same ahead.
    refine .page h ?_ (hend ▸ ih ?_)
    · rwa [hpage h hahead, candidates_congr hrecord]
    · rw [ahead_pageEnd, ← hrest h hahead, ← ahead_pageEnd, hend]

/-- Up to its end or to the page that fails a cursor hands out what it reads, a whole number of pages. -/
theorem Yields.pages {b : Bookmark} {left : List Candidate} {stop : Option ε}
    (h : c.Yields codec view b left stop) :
    ∃ n found, (c.candidates codec view ((ahead view c b).take (n * c.pageSize))).1 = .ok found ∧
      left = b.batch ++ found ∧
      match stop with
      | none => (ahead view c b).take (n * c.pageSize) = ahead view c b
      | some e => (c.candidates codec view
          (((ahead view c b).drop (n * c.pageSize)).take c.pageSize)).1 = .error e := by
  induction h with
  | fetched h =>
    refine ⟨0, [], ?_, (List.append_nil _).symm, ?_⟩
    · rw [Nat.zero_mul, List.take_zero]
      exact candidates_nil
    · simp only [ahead, h, if_true, List.take_nil]
  | @broken b e h hfound =>
    refine ⟨0, [], ?_, (List.append_nil _).symm, ?_⟩
    · rw [Nat.zero_mul, List.take_zero]
      exact candidates_nil
    · simpa only [ahead, h, Bool.false_eq_true, if_false, Nat.zero_mul, List.drop_zero,
        ← Data.page_eq_take] using hfound
  | @page b found left stop h hfound hleft ih =>
    obtain ⟨n, more, hmore, rfl, hstop⟩ := ih
    have hahead : ahead view c b = view.rest c.source.start b.seek := by rw [ahead, h]; rfl
    rw [ahead_pageEnd, ← hahead] at hmore hstop
    rw [Data.page_eq_take, ← hahead] at hfound
    -- One page more than from its end.
    have htake : (ahead view c b).take ((n + 1) * c.pageSize) = (ahead view c b).take c.pageSize ++
        ((ahead view c b).drop c.pageSize).take (n * c.pageSize) := by
      rw [Nat.add_mul, Nat.one_mul, Nat.add_comm, List.take_add]
    refine ⟨n + 1, found ++ more, ?_, rfl, ?_⟩
    · rw [htake]
      exact candidates_append_ok hfound hmore
    · cases stop with
      | none =>
        simp only at hstop ⊢
        rw [htake, hstop, List.take_append_drop]
      | some e =>
        simp only [List.drop_drop] at hstop ⊢
        rwa [Nat.add_mul, Nat.one_mul, Nat.add_comm]

theorem Yields.read {b : Bookmark} {left : List Candidate} {stop : Option ε}
    (h : c.Yields codec view b left stop) :
    ∃ part found, (c.candidates codec view part).1 = .ok found ∧ left = b.batch ++ found ∧
      match stop with
      | none => part = ahead view c b
      | some e => ∃ page, part ++ page <+: ahead view c b ∧ page.length ≤ c.pageSize ∧
        (c.candidates codec view page).1 = .error e := by
  obtain ⟨n, found, hfound, rfl, hstop⟩ := h.pages
  refine ⟨_, found, hfound, rfl, ?_⟩
  cases stop with
  | none => exact hstop
  | some e =>
    refine ⟨_, ?_, List.length_take_le _ _, hstop⟩
    rw [← List.take_add]
    exact List.take_prefix _ _

theorem Yields.read_all {left : List Candidate} (h : c.Yields codec view .start left none) :
    (c.candidates codec view (view.rest c.source.start none)).1 = .ok left := by
  obtain ⟨part, found, hfound, rfl, hpart⟩ := h.read
  have hrest : part = view.rest c.source.start none := hpart
  exact hrest ▸ hfound

/-- What can be read in one go is handed out as it is read. -/
theorem Yields.complete {left found : List Candidate} {stop : Option ε}
    (h : c.Yields codec view .start left stop)
    (hfound : (c.candidates codec view (view.rest c.source.start none)).1 = .ok found) :
    stop = none ∧ left = found := by
  cases stop with
  | none =>
    have hleft := h.read_all.symm.trans hfound
    cases hleft
    exact ⟨rfl, rfl⟩
  | some e =>
    obtain ⟨part, _, -, -, page, hrest, -, hpage⟩ := h.read
    obtain ⟨_, hok⟩ := readable_of_prefix hrest hfound
    cases hpage.symm.trans hok

theorem yields_start {found : List Candidate}
    (h : (c.candidates codec view (view.rest c.source.start none)).1 = .ok found) :
    c.Yields codec view .start found none := by
  obtain ⟨left, stop, hleft⟩ : ∃ left stop, c.Yields codec view .start left stop := exists_yields _
  obtain ⟨rfl, rfl⟩ := hleft.complete h
  exact hleft

-- ---------------------------------------------------------------------------
-- How many candidates there are
-- ---------------------------------------------------------------------------

def boundOf (pairs : List (Bytes × Bytes)) : Nat :=
  pairs.foldr (fun entry total => entry.2.length + 1 + total) 0

theorem boundOf_sublist {pairs pairs' : List (Bytes × Bytes)} (h : pairs.Sublist pairs') :
    boundOf pairs ≤ boundOf pairs' := by
  induction h with
  | slnil => exact Nat.le_refl _
  | cons entry _ ih => exact Nat.le_trans ih (Nat.le_add_left _ _)
  | cons_cons entry _ ih => exact Nat.add_le_add_left ih _

theorem length_le_boundOf (pairs : List (Bytes × Bytes)) : pairs.length ≤ boundOf pairs := by
  induction pairs with
  | nil => exact Nat.le_refl _
  | cons entry rest ih =>
    simp only [boundOf, List.length_cons, List.foldr_cons] at ih ⊢
    omega

theorem length_listedKeys {pairs : List (Bytes × Bytes)} {keys : List Bytes}
    (h : c.listedKeys codec pairs = .ok keys) : keys.length ≤ boundOf pairs := by
  induction pairs generalizing keys with
  | nil =>
    cases h
    exact Nat.le_refl _
  | cons pair rest ih =>
    obtain ⟨entry, list⟩ := pair
    have hbound : boundOf ((entry, list) :: rest) = list.length + 1 + boundOf rest := rfl
    obtain ⟨-, hrest⟩ | ⟨listed, more, -, hlisted, hmore, rfl⟩ := listedKeys_cons_ok h
    · have hlength := ih hrest
      omega
    · have hlength := ih hmore
      have hlist := KeyList.length_le_of_decode? hlisted
      rw [List.length_append]
      omega

theorem length_withRecords {keys : List Bytes} {found : List Candidate}
    (h : c.withRecords view keys = .ok found) : found.length = keys.length := by
  induction keys generalizing found with
  | nil =>
    cases h
    rfl
  | cons key rest ih =>
    obtain ⟨value, more, -, hmore, rfl⟩ := withRecords_cons_ok h
    rw [List.length_cons, List.length_cons, ih hmore]

theorem length_candidates {pairs : List (Bytes × Bytes)} {found : List Candidate}
    (hpairs : pairs.Sublist view.entries) (h : (c.candidates codec view pairs).1 = .ok found) :
    found.length ≤ view.candidateBound := by
  refine Nat.le_trans ?_ (boundOf_sublist hpairs : boundOf pairs ≤ view.candidateBound)
  unfold candidates at h
  split at h
  · cases h
    rw [List.length_map]
    exact length_le_boundOf _
  · split at h
    · cases h
    · rename_i keys hkeys
      rw [length_withRecords h]
      exact length_listedKeys hkeys

theorem Yields.length_le {left : List Candidate} {stop : Option ε}
    (h : c.Yields codec view .start left stop) : left.length ≤ view.candidateBound := by
  obtain ⟨part, found, hfound, rfl, hstop⟩ := h.read
  refine length_candidates ?_ hfound
  have hpart : part.Sublist (view.rest c.source.start none) := by
    cases stop with
    | none => exact hstop ▸ List.Sublist.refl _
    | some e =>
      obtain ⟨page, hpage, -⟩ := hstop
      exact ((List.prefix_append part page).trans hpage).sublist
  exact hpart.trans (Data.rest_sublist view c.source.start none)

-- ---------------------------------------------------------------------------
-- Pages of another size
-- ---------------------------------------------------------------------------

def sized (c : Cursor ε) (batchSize : Nat) : Cursor ε := { c with batchSize }

theorem listedKeys_sized (n : Nat) (pairs : List (Bytes × Bytes)) :
    (c.sized n).listedKeys codec pairs = c.listedKeys codec pairs := by
  induction pairs with
  | nil => rfl
  | cons pair rest ih =>
    obtain ⟨entry, list⟩ := pair
    rw [listedKeys_cons, listedKeys_cons, ih]
    rfl

theorem withRecords_sized (n : Nat) (keys : List Bytes) :
    (c.sized n).withRecords view keys = c.withRecords view keys := by
  induction keys with
  | nil => rfl
  | cons key rest ih =>
    simp only [withRecords, ih]
    rfl

theorem candidates_sized (n : Nat) (pairs : List (Bytes × Bytes)) :
    (c.sized n).candidates codec view pairs = c.candidates codec view pairs := by
  simp only [candidates, listedKeys_sized, withRecords_sized]
  rfl

theorem Yields.end_iff {n m : Nat} {left left' : List Candidate} {stop stop' : Option ε}
    (h : (c.sized n).Yields codec view .start left stop)
    (h' : (c.sized m).Yields codec view .start left' stop') :
    (stop = none ↔ stop' = none) ∧ (stop = none → left = left') := by
  have hfound (n : Nat) : ((c.sized n).candidates codec view (view.rest c.source.start none)).1 =
      (c.candidates codec view (view.rest c.source.start none)).1 := by rw [candidates_sized]
  refine ⟨⟨?_, ?_⟩, ?_⟩ <;> rintro rfl
  · exact (h'.complete ((hfound m).trans ((hfound n).symm.trans h.read_all))).1
  · exact (h.complete ((hfound n).trans ((hfound m).symm.trans h'.read_all))).1
  · exact (h'.complete ((hfound m).trans ((hfound n).symm.trans h.read_all))).2.symm

/-- Pages of one entry get as far as pages of any size. -/
theorem Yields.single {n : Nat} {left left' : List Candidate} {stop stop' : Option ε}
    (h : (c.sized n).Yields codec view .start left stop)
    (h' : (c.sized 1).Yields codec view .start left' stop') : left <+: left' := by
  obtain ⟨part, found, hfound, rfl, hstop⟩ := h.read
  obtain ⟨part', found', hfound', rfl, hstop'⟩ := h'.read
  simp only [candidates_sized] at hfound hfound' hstop hstop'
  have hpart : part <+: view.rest c.source.start none := by
    cases stop with
    | none => exact hstop ▸ List.prefix_refl _
    | some e =>
      obtain ⟨page, hpage, -⟩ := hstop
      exact (List.prefix_append part page).trans hpage
  have hlonger : part <+: part' := by
    cases stop' with
    | none => exact hstop' ▸ hpart
    | some e =>
      -- A page of one entry that fails is not within what the other cursor has read.
      obtain ⟨page, hpage, hsize, herror⟩ := hstop'
      have hunread : ¬ part' ++ page <+: part := by
        intro hpairs
        obtain ⟨those, hthose⟩ := readable_of_prefix hpairs hfound
        cases herror.symm.trans hthose
      obtain ⟨pair, rfl⟩ : ∃ pair, page = [pair] := by
        refine List.length_eq_one_iff.mp (Nat.le_antisymm hsize (List.length_pos_iff.mpr ?_))
        rintro rfl
        cases herror.symm.trans candidates_nil
      rcases List.prefix_or_prefix_of_prefix hpart hpage with hshort | hlong
      · refine (List.prefix_concat_iff.mp hshort).resolve_left fun heq => hunread ?_
        exact ⟨[], by rw [List.append_nil, heq]⟩
      · exact absurd hlong hunread
  obtain ⟨more, rfl⟩ := hlonger
  obtain ⟨these, those, hthese, -, rfl⟩ := candidates_append hfound'
  cases hthese.symm.trans hfound
  exact List.prefix_append _ _

end Cursor

end DocStore
