import DocStore.Codec.OrderedKey
import DocStore.Proofs.Drains
import DocStore.Proofs.Schedule

/-!
# Scans among writes

A cursor over records may be advanced while its transaction goes on writing. Some of what it will hand
out is fetched and some is not, and writes fall on both sides of the line. `Fetched` says where the line
is: what was fetched ends at the key from which the next page begins, and a record that no draw could
miss is on the near side of that key only if it was fetched. One page keeps it (`Fetched.fill`), and so
does a run of draws and writes (`sound_run`).
-/

namespace DocStore

variable {ε : Type} {codec : Codec} {view : Data} {c : Cursor ε} {typeName : String}

namespace Cursor

-- ---------------------------------------------------------------------------
-- Draws from records
-- ---------------------------------------------------------------------------

def recordsIn (c : Cursor ε) (page : List (Bytes × Bytes)) : List Candidate :=
  page.map fun pair => ⟨pair.1.drop c.source.start.length, pair.2⟩

/-- The bookmark from which a draw takes its candidate: a page is fetched if nothing is left. -/
def filled (c : Cursor ε) (view : Data) : Bookmark → Bookmark
  | ⟨[], seek, false⟩ =>
    pageEnd view c seek (c.recordsIn (view.page c.source.start seek c.pageSize))
  | b => b

theorem filled_exhausted {b : Bookmark} (h : b.exhausted = true) : c.filled view b = b := by
  obtain ⟨batch, seek, exhausted⟩ := b
  cases h
  cases batch <;> rfl

theorem exhausted_of_filled {b : Bookmark} (h : (c.filled view b).batch = []) :
    (c.filled view b).exhausted = true := by
  obtain ⟨batch, seek, exhausted⟩ := b
  cases batch with
  | cons candidate rest => cases h
  | nil =>
    cases exhausted with
    | true => rfl
    | false =>
      have hpage : view.page c.source.start seek c.pageSize = [] := List.map_eq_nil_iff.mp h
      have hpositive : 0 < c.pageSize := Nat.le_max_right _ _
      simp only [filled, pageEnd, hpage, List.length_nil, hpositive, decide_true]

theorem nextWith_ready {b : Bookmark} (h : b.batch = [] → b.exhausted = true) (fuel : Nat) :
    c.nextWith codec view (fuel + 1) b =
      (.ok b.batch.head?, { b with batch := b.batch.tail }, []) := by
  obtain ⟨batch, seek, exhausted⟩ := b
  cases batch with
  | cons candidate rest => rfl
  | nil =>
    cases h rfl
    rfl

theorem next_records (hsource : c.source = .records typeName) (b : Bookmark) :
    ∃ reads, c.next codec view b = (.ok (c.filled view b).batch.head?,
      { c.filled view b with batch := (c.filled view b).batch.tail }, reads) := by
  have hready : (c.filled view b).batch = [] → (c.filled view b).exhausted = true :=
    exhausted_of_filled
  obtain ⟨batch, seek, exhausted⟩ := b
  cases batch with
  | cons candidate rest => exact ⟨[], rfl⟩
  | nil =>
    cases exhausted with
    | true => exact ⟨[], rfl⟩
    | false =>
      obtain ⟨reads, hfill⟩ : ∃ reads, c.fill codec view ⟨[], seek, false⟩ = (_, reads) := fill_run seek
      have hfound : (c.candidates codec view (view.page c.source.start seek c.pageSize)).1 =
          .ok (c.recordsIn (view.page c.source.start seek c.pageSize)) := by
        simp only [candidates, hsource, recordsIn]
      have hfilled : c.fill codec view ⟨[], seek, false⟩ =
          (.ok (c.filled view ⟨[], seek, false⟩), reads) := by
        rw [hfill, hfound]
        rfl
      have hnext : c.nextWith codec view (view.size + 1) (c.filled view ⟨[], seek, false⟩) = _ :=
        nextWith_ready hready view.size
      refine ⟨reads ++ [], ?_⟩
      rw [next, nextWith]
      simp only [Bool.false_eq_true, if_false, hfilled, hnext]

-- ---------------------------------------------------------------------------
-- What was fetched
-- ---------------------------------------------------------------------------

def Passed (seek : Option Bytes) (key : Bytes) : Prop := ∃ last ∈ seek, ¬ last < key

/-- What a cursor over records has fetched from some views, up to where its next page begins. -/
structure Fetched (c : Cursor ε) (views : List Data) (fetched : List Candidate)
    (seek : Option Bytes) (exhausted : Bool) : Prop where
  ascending : fetched.Pairwise fun a b => a.key < b.key
  stored : ∀ found ∈ fetched, ∃ view ∈ views, view.get? (c.recordKey found.key) = some found.value
  passed : ∀ found ∈ fetched, Passed seek (c.recordKey found.key)
  complete : ∀ key, (∀ view ∈ views, (view.get? (c.recordKey key)).isSome) →
    (exhausted = true ∨ Passed seek (c.recordKey key)) → key ∈ fetched.map Candidate.key

section Page

variable {seek : Option Bytes} {pair : Bytes × Bytes} {key : Bytes}

theorem mem_rest_iff_not_passed {start : Bytes} : pair ∈ view.rest start seek ↔
    view.get? pair.1 = some pair.2 ∧ start <+: pair.1 ∧ ¬ Passed seek pair.1 := by
  rw [Data.mem_rest]
  simp only [Passed, not_exists, not_and, not_not]

theorem ascending_recordsIn : (c.recordsIn (view.page c.source.start seek c.pageSize)).Pairwise
    fun a b => a.key < b.key :=
  List.pairwise_map.mpr ((Data.ascending_rest view c.source.start seek).sublist (List.take_sublist _ _))

/-- Behind a page that has something in it comes what the page has left. -/
theorem rest_filled (hpage : view.page c.source.start seek c.pageSize ≠ []) :
    view.rest c.source.start (c.filled view ⟨[], seek, false⟩).seek =
      (view.rest c.source.start seek).drop c.pageSize := by
  have hlast := List.getLast?_eq_getLast_of_ne_nil hpage
  rw [← Data.rest_after_page hlast]
  simp only [filled, pageEnd, hlast, Option.map_some, Option.some_or]

theorem Passed.filled (h : Passed seek key) :
    Passed (c.filled view ⟨[], seek, false⟩).seek key := by
  obtain ⟨last, hlast, hle⟩ := h
  cases hpage : (view.page c.source.start seek c.pageSize).getLast? with
  | none =>
    refine ⟨last, ?_, hle⟩
    simpa only [Cursor.filled, pageEnd, hpage, Option.map_none, Option.none_or] using hlast
  | some pair =>
    have hmem : pair ∈ view.rest c.source.start seek :=
      List.mem_of_mem_take (List.mem_of_getLast? hpage)
    have hlt : last < pair.1 := (Data.mem_rest.mp hmem).2.2 last hlast
    refine ⟨pair.1, ?_, fun h => hle (List.lt_trans hlt h)⟩
    simp only [Cursor.filled, pageEnd, hpage, Option.map_some, Option.some_or, Option.mem_some_iff]

theorem passed_of_mem_page (h : pair ∈ view.page c.source.start seek c.pageSize) :
    Passed (c.filled view ⟨[], seek, false⟩).seek pair.1 := by
  by_contra hnot
  have hmem : pair ∈ view.rest c.source.start seek := List.mem_of_mem_take h
  obtain ⟨hget, hunder, -⟩ := mem_rest_iff_not_passed.mp hmem
  have hagain := mem_rest_iff_not_passed.mpr ⟨hget, hunder, hnot⟩
  rw [rest_filled (List.ne_nil_of_mem h)] at hagain
  -- A key cannot stand both in a page and behind it.
  have hsorted := view.ascending.sublist (Data.rest_sublist view c.source.start seek)
  rw [← List.take_append_drop c.pageSize (view.rest c.source.start seek), List.pairwise_append]
    at hsorted
  exact List.lt_irrefl _ (hsorted.2.2 pair h pair hagain)

theorem mem_page_of_passed (h : pair ∈ view.rest c.source.start seek)
    (hpassed : (c.filled view ⟨[], seek, false⟩).exhausted = true ∨
      Passed (c.filled view ⟨[], seek, false⟩).seek pair.1) :
    pair ∈ view.page c.source.start seek c.pageSize := by
  rw [← List.take_append_drop c.pageSize (view.rest c.source.start seek)] at h
  refine (List.mem_append.mp h).resolve_right fun hdrop => ?_
  have hfull : ¬ (view.page c.source.start seek c.pageSize).length < c.pageSize := by
    intro hshort
    rw [drop_of_short hshort] at hdrop
    cases hdrop
  rcases hpassed with hexhausted | hpassed
  · exact hfull (of_decide_eq_true hexhausted)
  · have hpositive : 0 < c.pageSize := Nat.le_max_right _ _
    have hpage : view.page c.source.start seek c.pageSize ≠ [] := by
      intro hnil
      rw [hnil] at hfull
      exact hfull hpositive
    rw [← rest_filled hpage] at hdrop
    exact (mem_rest_iff_not_passed.mp hdrop).2.2 hpassed

end Page

section Fetched

variable {views : List Data} {fetched : List Candidate} {seek : Option Bytes} {exhausted : Bool}

theorem fetched_start : c.Fetched [] [] none false where
  ascending := .nil
  stored := nofun
  passed := nofun
  complete := by
    rintro key - (h | ⟨last, h, -⟩) <;> cases h

/-- A further view that nothing is fetched from. -/
theorem Fetched.look (h : c.Fetched views fetched seek exhausted) (view : Data) :
    c.Fetched (views ++ [view]) fetched seek exhausted where
  ascending := h.ascending
  stored found hfound := by
    obtain ⟨seen, hseen, hget⟩ := h.stored found hfound
    exact ⟨seen, List.mem_append_left _ hseen, hget⟩
  passed := h.passed
  complete key hkey := h.complete key fun seen hseen => hkey seen (List.mem_append_left _ hseen)

variable (hsource : c.source = .records typeName)
include hsource

theorem recordKey_eq (key : Bytes) : c.recordKey key = c.source.start ++ key := by
  simp only [recordKey, hsource, Source.typeName, Source.start]

theorem recordKey_drop {pair : Bytes × Bytes} (h : pair ∈ view.rest c.source.start seek) :
    c.recordKey (pair.1.drop c.source.start.length) = pair.1 := by
  obtain ⟨key, hkey⟩ := Data.prefix_of_mem_rest h
  rw [recordKey_eq hsource, ← hkey, List.drop_left]

theorem mem_recordsIn_page {found : Candidate}
    (h : found ∈ c.recordsIn (view.page c.source.start seek c.pageSize)) :
    (c.recordKey found.key, found.value) ∈ view.page c.source.start seek c.pageSize := by
  obtain ⟨pair, hpair, rfl⟩ := List.mem_map.mp h
  rwa [recordKey_drop hsource (List.mem_of_mem_take hpair)]

theorem Fetched.fill (h : c.Fetched views fetched seek false) (view : Data) :
    let filled := c.filled view ⟨[], seek, false⟩
    c.Fetched (views ++ [view]) (fetched ++ filled.batch) filled.seek filled.exhausted := by
  refine ⟨?ascending, ?stored, ?passed, ?complete⟩
  case ascending =>
    refine List.pairwise_append.mpr ⟨h.ascending, ascending_recordsIn, ?_⟩
    intro found hfound next hnext
    obtain ⟨last, hlast, hle⟩ := h.passed found hfound
    have hmem := List.mem_of_mem_take (mem_recordsIn_page hsource hnext)
    have hlt : last < c.recordKey next.key := (Data.mem_rest.mp hmem).2.2 last hlast
    have hkeys : c.recordKey found.key < c.recordKey next.key :=
      List.lt_of_le_of_lt (List.not_lt.mp hle) hlt
    rw [recordKey_eq hsource, recordKey_eq hsource] at hkeys
    exact Bytes.lt_of_append_lt hkeys
  case stored =>
    intro found hfound
    rcases List.mem_append.mp hfound with hfound | hfound
    · obtain ⟨seen, hseen, hget⟩ := h.stored found hfound
      exact ⟨seen, List.mem_append_left _ hseen, hget⟩
    · have hmem := List.mem_of_mem_take (mem_recordsIn_page hsource hfound)
      exact ⟨view, List.mem_append_right _ (List.mem_singleton_self view), (Data.mem_rest.mp hmem).1⟩
  case passed =>
    intro found hfound
    rcases List.mem_append.mp hfound with hfound | hfound
    · exact (h.passed found hfound).filled
    · exact passed_of_mem_page (mem_recordsIn_page hsource hfound)
  case complete =>
    intro key hkey hpassed
    rw [List.map_append, List.mem_append]
    -- The old line tells whether the key was to be fetched before or is in this page.
    by_cases hold : Passed seek (c.recordKey key)
    · refine .inl (h.complete key (fun seen hseen => ?_) (.inr hold))
      exact hkey seen (List.mem_append_left _ hseen)
    · refine .inr (List.mem_map.mpr ?_)
      obtain ⟨value, hvalue⟩ := Option.isSome_iff_exists.mp
        (hkey view (List.mem_append_right _ (List.mem_singleton_self view)))
      have hstart : c.source.start <+: c.recordKey key := by
        rw [recordKey_eq hsource]
        exact List.prefix_append _ _
      have hrest : (c.recordKey key, value) ∈ view.rest c.source.start seek :=
        mem_rest_iff_not_passed.mpr ⟨hvalue, hstart, hold⟩
      refine ⟨⟨key, value⟩, List.mem_map.mpr ⟨_, mem_page_of_passed hrest hpassed, ?_⟩, rfl⟩
      rw [recordKey_eq hsource, List.drop_left]

theorem Fetched.draw {given : List Candidate} {b : Bookmark}
    (h : c.Fetched views (given ++ b.batch) b.seek b.exhausted) (view : Data) :
    c.Fetched (views ++ [view]) (given ++ (c.filled view b).batch) (c.filled view b).seek
      (c.filled view b).exhausted := by
  obtain ⟨batch, seek, exhausted⟩ := b
  cases batch with
  | cons candidate rest => exact h.look view
  | nil =>
    cases exhausted with
    | true => exact h.look view
    | false =>
      rw [List.append_nil] at h
      exact h.fill hsource view

end Fetched

end Cursor

-- ---------------------------------------------------------------------------
-- Draws and writes in any order
-- ---------------------------------------------------------------------------

/-- A cursor at work in a transaction. For every draw it keeps what the view was and what came of it. -/
structure Scan (ε : Type) where
  txn : Transaction
  bookmark : Bookmark
  draws : List (Data × Except ε (Option Candidate))

namespace Scan

inductive Action where
  | draw
  | call (call : Call)

def opened (txn : Transaction) : Scan ε := ⟨txn, .start, []⟩

def step (codec : Codec) (c : Cursor ε) (s : Scan ε) : Action → Scan ε
  | .draw =>
    let (result, bookmark, reads) := c.next codec s.txn.view s.bookmark
    ⟨s.txn.recordReads reads, bookmark, s.draws ++ [(s.txn.view, result)]⟩
  | .call call => { s with txn := (s.txn.call call).2 }

def run (codec : Codec) (c : Cursor ε) (s : Scan ε) (actions : List Action) : Scan ε :=
  actions.foldl (step codec c) s

def views (s : Scan ε) : List Data := s.draws.map Prod.fst

def results (s : Scan ε) : List (Except ε (Option Candidate)) := s.draws.map Prod.snd

def candidateOf : Except ε (Option Candidate) → Option Candidate
  | .ok found => found
  | .error _ => none

def yielded (s : Scan ε) : List Candidate := s.results.filterMap candidateOf

/-- The draws went well, and what was handed out and what is still to hand out was fetched together. -/
structure Sound (c : Cursor ε) (s : Scan ε) : Prop where
  drawn : ∀ result ∈ s.results, ∃ found, result = .ok found
  fetched : c.Fetched s.views (s.yielded ++ s.bookmark.batch) s.bookmark.seek s.bookmark.exhausted
  ended : .ok none ∈ s.results → s.bookmark.batch = [] ∧ s.bookmark.exhausted = true

variable {s : Scan ε}

theorem sound_opened (t : Transaction) : Sound c (opened t) :=
  ⟨nofun, Cursor.fetched_start, nofun⟩

theorem sound_draw (hsource : c.source = .records typeName) (h : s.Sound c) :
    (s.step codec c .draw).Sound c := by
  let filled := c.filled s.txn.view s.bookmark
  obtain ⟨reads, hnext⟩ : ∃ reads, c.next codec s.txn.view s.bookmark = _ :=
    Cursor.next_records hsource s.bookmark
  let after : Scan ε := ⟨s.txn.recordReads reads, { filled with batch := filled.batch.tail },
    s.draws ++ [(s.txn.view, .ok filled.batch.head?)]⟩
  have hstep : s.step codec c .draw = after := by rw [step, hnext]
  have hviews : after.views = s.views ++ [s.txn.view] := List.map_append
  have hresults : after.results = s.results ++ [.ok filled.batch.head?] := List.map_append
  have hfetched : after.yielded ++ after.bookmark.batch = s.yielded ++ filled.batch := by
    rw [yielded, hresults, List.filterMap_append, List.append_assoc]
    refine congrArg (s.yielded ++ ·) ?_
    change [Except.ok filled.batch.head?].filterMap candidateOf ++ filled.batch.tail = filled.batch
    cases filled.batch <;> rfl
  rw [hstep]
  refine ⟨?drawn, ?fetched, ?ended⟩
  case drawn =>
    rw [hresults]
    intro result hresult
    rcases List.mem_append.mp hresult with hresult | hresult
    · exact h.drawn result hresult
    · exact ⟨_, List.mem_singleton.mp hresult⟩
  case fetched =>
    rw [hviews, hfetched]
    exact h.fetched.draw hsource s.txn.view
  case ended =>
    rw [hresults]
    intro hnone
    have hdone : filled.batch = [] ∧ filled.exhausted = true := by
      rcases List.mem_append.mp hnone with hnone | hnone
      · -- Behind the end the bookmark stays as it is.
        have hsame : filled = s.bookmark := Cursor.filled_exhausted (h.ended hnone).2
        rw [hsame]
        exact h.ended hnone
      · have hhead : filled.batch.head? = none := (Except.ok.inj (List.mem_singleton.mp hnone)).symm
        have hbatch : filled.batch = [] := List.head?_eq_none_iff.mp hhead
        exact ⟨hbatch, Cursor.exhausted_of_filled hbatch⟩
    exact ⟨congrArg List.tail hdone.1, hdone.2⟩

theorem sound_step (hsource : c.source = .records typeName) (h : s.Sound c) (action : Action) :
    (s.step codec c action).Sound c := by
  cases action with
  | draw => exact sound_draw hsource h
  | call call => exact ⟨h.drawn, h.fetched, h.ended⟩

theorem sound_run (hsource : c.source = .records typeName) (h : s.Sound c) (actions : List Action) :
    (s.run codec c actions).Sound c := by
  induction actions generalizing s with
  | nil => exact h
  | cons action rest ih => exact ih (sound_step hsource h action)

/-- A scan of records goes on through writes of its own transaction: no draw fails, the keys ascend,
what is handed out was in the view of some draw, and a scan that has come to its end has handed out
once each record that no draw found missing. -/
theorem live_scan (codec : Codec) (hsource : c.source = .records typeName) (t : Transaction)
    (actions : List Action) :
    let s := (opened t).run codec c actions
    (∀ result ∈ s.results, ∃ found, result = .ok found) ∧
    (s.yielded.map Candidate.key).Pairwise (· < ·) ∧
    (∀ found ∈ s.yielded, ∃ view ∈ s.views, view.get? (c.recordKey found.key) = some found.value) ∧
    (.ok none ∈ s.results → ∀ key, (∀ view ∈ s.views, (view.get? (c.recordKey key)).isSome) →
      (s.yielded.map Candidate.key).count key = 1) := by
  intro s
  have hsound : s.Sound c := sound_run hsource (sound_opened t) actions
  have hascending : (s.yielded.map Candidate.key).Pairwise (· < ·) :=
    List.pairwise_map.mpr (List.pairwise_append.mp hsound.fetched.ascending).1
  refine ⟨hsound.drawn, hascending, fun found hfound => ?_, fun hnone key hkey => ?_⟩
  · exact hsound.fetched.stored found (List.mem_append_left _ hfound)
  · obtain ⟨hbatch, hexhausted⟩ := hsound.ended hnone
    have hmem := hsound.fetched.complete key hkey (.inl hexhausted)
    rw [hbatch, List.append_nil] at hmem
    have hnodup : (s.yielded.map Candidate.key).Nodup := by
      refine hascending.imp fun {a b} hlt heq => ?_
      subst heq
      exact List.lt_irrefl a hlt
    rw [hnodup.count, if_pos hmem]

def bookScan : Cursor EngineError :=
  { source := .records "Book", batchSize := 2, filter := none, raise := id }

def bookKey (n : UInt8) : Bytes := bookScan.recordKey [n]

def fourBooks : Transaction :=
  let view : Data := [1, 2, 3, 4].foldl (fun view n => view.insert (bookKey n) [n]) ∅
  Transaction.unused view 0 false

/-- The writes fall before the scan, into a fetched page, on its last key and behind it. -/
def bookActions : List Action :=
  [.draw, .call (.put (bookKey 0) [0]), .call (.delete (bookKey 2)), .draw, .call (.put (bookKey 5) [5]),
    .draw, .call (.put (bookKey 3) [9]), .call (.delete (bookKey 4)), .draw, .draw, .draw]

theorem live_scan_books :
    let s := (opened fourBooks).run .bson bookScan bookActions
    bookScan.source = .records "Book" ∧ .ok none ∈ s.results ∧
    (∀ view ∈ s.views, (view.get? (bookKey 3)).isSome) ∧
    s.yielded.map Candidate.key = [[1], [2], [3], [4], [5]] ∧
    (s.yielded.map Candidate.key).count [3] = 1 := by
  intro s
  have hnone : .ok none ∈ s.results := List.mem_of_getLast? (by rfl)
  have hviews : ∀ view ∈ s.views, (view.get? (bookKey 3)).isSome := by decide +kernel
  exact ⟨rfl, hnone, hviews, by decide +kernel,
    (live_scan .bson rfl fourBooks bookActions).2.2.2 hnone [3] hviews⟩

end Scan

end DocStore
