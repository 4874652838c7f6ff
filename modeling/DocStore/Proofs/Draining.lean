import DocStore.Proofs.Drains

/-!
# Draining cursors

Draws that follow one another hand out what the source holds, in its order, and then nothing forever.
An entry of an index that cannot be read stops the cursor at its page: the pages before are handed out
and every draw behind them fails alike. The size of the pages decides only where that page begins.
-/

namespace DocStore.Cursor

section

variable {ε : Type} (codec : Codec) (view : Data) (c : Cursor ε)

/-- What the `n`th draw from a bookmark gives, if the draws before it went ahead of it. -/
def nth : Nat → Bookmark → Except ε (Option Candidate)
  | 0, b => (c.next codec view b).1
  | n + 1, b => nth n (c.next codec view b).2.1

inductive Faulty : Bytes × Bytes → Prop where
  | undecodable {entry list : Bytes} {filter : Value → Except ε Bool} {e : CodecError}
      (hfilter : c.filter = some filter)
      (h : codec.decodeKey (entry.drop c.source.start.length) = .error e) : Faulty (entry, list)
  | untested {entry list : Bytes} {filter : Value → Except ε Bool} {value : Value} {e : ε}
      (hfilter : c.filter = some filter)
      (hvalue : codec.decodeKey (entry.drop c.source.start.length) = .ok value)
      (h : filter value = .error e) : Faulty (entry, list)
  | truncated {entry list : Bytes} (hpasses : c.passes codec entry = .ok true)
      (h : KeyList.decode? list = none) : Faulty (entry, list)
  | dangling {entry list key : Bytes} {keys : List Bytes} (hpasses : c.passes codec entry = .ok true)
      (hkeys : KeyList.decode? list = some keys) (hkey : key ∈ keys)
      (h : view.get? (c.recordKey key) = none) : Faulty (entry, list)

def stored (keys : List Bytes) : List Candidate :=
  keys.filterMap fun key => (view.get? (c.recordKey key)).map (⟨key, ·⟩)

def listed (entry : Bytes × Bytes) : List Candidate :=
  match c.passes codec entry.1 with
  | .ok true => c.stored view ((KeyList.decode? entry.2).getD [])
  | _ => []

end

variable {ε : Type} {codec : Codec} {view : Data} {c : Cursor ε}

-- ---------------------------------------------------------------------------
-- Entries that can be read and entries that cannot
-- ---------------------------------------------------------------------------

theorem withRecords_stored {keys : List Bytes} (h : ∀ key ∈ keys, view.get? (c.recordKey key) ≠ none) :
    c.withRecords view keys = .ok (c.stored view keys) := by
  induction keys with
  | nil => rfl
  | cons key rest ih =>
    obtain ⟨value, hvalue⟩ := Option.ne_none_iff_exists'.mp (h key List.mem_cons_self)
    have hrest := ih fun key hkey => h key (List.mem_cons_of_mem _ hkey)
    simp only [withRecords, stored, List.filterMap_cons, hvalue, hrest, Except.map, Option.map_some]

theorem withRecords_missing {keys : List Bytes} {key : Bytes} (hkey : key ∈ keys)
    (h : view.get? (c.recordKey key) = none) : ∃ e, c.withRecords view keys = .error e := by
  cases hfound : c.withRecords view keys with
  | error e => exact ⟨e, rfl⟩
  | ok found =>
    obtain ⟨before, behind, rfl⟩ := List.append_of_mem hkey
    obtain ⟨_, _, -, hbehind, -⟩ := withRecords_append hfound
    obtain ⟨_, _, hvalue, -, -⟩ := withRecords_cons_ok hbehind
    cases h.symm.trans hvalue

theorem faulty_of_passes_error {entry list : Bytes} {e : ε} (h : c.passes codec entry = .error e) :
    c.Faulty codec view (entry, list) := by
  unfold passes at h
  split at h
  · cases h
  · rename_i filter hfilter
    cases hvalue : codec.decodeKey (entry.drop c.source.start.length) with
    | error fault => exact .undecodable hfilter hvalue
    | ok value =>
      simp only [hvalue, Except.mapError, bind, Except.bind] at h
      exact .untested hfilter hvalue h

theorem candidates_single {typeName indexName : String} (hsource : c.source = .index typeName indexName)
    (entry list : Bytes) :
    (c.candidates codec view [(entry, list)]).1 =
      match c.passes codec entry with
      | .error e => .error e
      | .ok false => .ok []
      | .ok true =>
        match KeyList.decode? list with
        | none => .error (c.corrupt .truncatedKeyList)
        | some keys => c.withRecords view keys := by
  simp only [candidates, hsource, listedKeys_cons]
  cases c.passes codec entry with
  | error e => rfl
  | ok passes =>
    cases passes with
    | false => rfl
    | true =>
      cases KeyList.decode? list with
      | none => rfl
      | some keys => simp only [listedKeys, Except.map, List.append_nil]

theorem candidates_of_sound {typeName indexName : String}
    (hsource : c.source = .index typeName indexName) {pairs : List (Bytes × Bytes)}
    (h : ∀ pair ∈ pairs, ¬ c.Faulty codec view pair) :
    (c.candidates codec view pairs).1 = .ok (pairs.flatMap (c.listed codec view)) := by
  induction pairs with
  | nil => exact candidates_nil
  | cons pair rest ih =>
    obtain ⟨entry, list⟩ := pair
    have hsound : ¬ c.Faulty codec view (entry, list) := h _ List.mem_cons_self
    have hrest := ih fun pair hpair => h pair (List.mem_cons_of_mem _ hpair)
    suffices hentry : (c.candidates codec view [(entry, list)]).1 =
        .ok (c.listed codec view (entry, list)) from candidates_append_ok hentry hrest
    rw [candidates_single hsource, listed]
    cases hpasses : c.passes codec entry with
    | error e => exact absurd (faulty_of_passes_error hpasses) hsound
    | ok passes =>
      cases passes with
      | false => rfl
      | true =>
        cases hkeys : KeyList.decode? list with
        | none => exact absurd (.truncated hpasses hkeys) hsound
        | some keys =>
          exact withRecords_stored fun key hkey hnone => hsound (.dangling hpasses hkeys hkey hnone)

theorem candidates_of_faulty {typeName indexName : String}
    (hsource : c.source = .index typeName indexName) {pairs : List (Bytes × Bytes)}
    {pair : Bytes × Bytes} (hpair : pair ∈ pairs) (h : c.Faulty codec view pair) :
    ∃ e, (c.candidates codec view pairs).1 = .error e := by
  have hsingle : ∃ e, (c.candidates codec view [pair]).1 = .error e := by
    cases h with
    | undecodable hfilter h =>
      simp only [candidates_single hsource, passes, hfilter, h, Except.mapError, bind, Except.bind]
      exact ⟨_, rfl⟩
    | untested hfilter hvalue h =>
      simp only [candidates_single hsource, passes, hfilter, hvalue, h, Except.mapError, bind,
        Except.bind]
      exact ⟨_, rfl⟩
    | truncated hpasses h =>
      simp only [candidates_single hsource, hpasses, h]
      exact ⟨_, rfl⟩
    | dangling hpasses hkeys hkey h =>
      simp only [candidates_single hsource, hpasses, hkeys]
      exact withRecords_missing hkey h
  cases hfound : (c.candidates codec view pairs).1 with
  | error e => exact ⟨e, rfl⟩
  | ok found =>
    obtain ⟨before, behind, rfl⟩ := List.append_of_mem hpair
    have hprefix : before ++ [pair] <+: before ++ pair :: behind :=
      ⟨behind, List.append_assoc before [pair] behind⟩
    obtain ⟨_, hok⟩ := readable_of_prefix hprefix hfound
    obtain ⟨e, herror⟩ := hsingle
    cases herror.symm.trans hok

-- ---------------------------------------------------------------------------
-- Draws one after the other
-- ---------------------------------------------------------------------------

theorem Yields.nth {b : Bookmark} {left : List Candidate} {stop : Option ε}
    (h : c.Yields codec view b left stop) (n : Nat) :
    c.nth codec view n b = foremost (left.drop n) stop := by
  induction n generalizing b left with
  | zero =>
    obtain ⟨_, _, hnext, -⟩ := next_yields h
    rw [Cursor.nth, hnext, List.drop_zero]
  | succ n ih =>
    obtain ⟨_, _, hnext, hlast⟩ := next_yields h
    rw [Cursor.nth, hnext, ih hlast, List.drop_tail]

/-- A cursor hands out all its source holds, or what the pages before the first faulty entry hold and
then the failure of its page. -/
theorem drained (codec : Codec) (view : Data) (c : Cursor ε) :
    ∃ left stop, (∀ n, c.nth codec view n .start = foremost (left.drop n) stop) ∧
      match c.source with
      | .records _ => stop = none ∧ (left.map Candidate.key).Pairwise (· < ·) ∧
        left = (view.scan c.source.start).map fun pair =>
          ⟨pair.1.drop c.source.start.length, pair.2⟩
      | .index _ _ =>
        ((view.scan c.source.start).Pairwise fun a b =>
          a.1.drop c.source.start.length < b.1.drop c.source.start.length) ∧
        match stop with
        | none => (∀ pair ∈ view.scan c.source.start, ¬ c.Faulty codec view pair) ∧
          left = (view.scan c.source.start).flatMap (c.listed codec view)
        | some e => ∃ n,
          let before := (view.scan c.source.start).take (n * c.pageSize)
          let page := ((view.scan c.source.start).drop (n * c.pageSize)).take c.pageSize
          (∀ pair ∈ before, ¬ c.Faulty codec view pair) ∧ left = before.flatMap (c.listed codec view) ∧
          (∃ pair ∈ page, c.Faulty codec view pair) ∧ (c.candidates codec view page).1 = .error e := by
  obtain ⟨left, stop, hleft⟩ : ∃ left stop, c.Yields codec view .start left stop := exists_yields _
  refine ⟨left, stop, hleft.nth, ?_⟩
  have hahead : ahead view c .start = view.scan c.source.start := (Data.scan_eq_rest view _).symm
  obtain ⟨n, _, hfound, rfl, hstop⟩ := hleft.pages
  rw [hahead] at hfound hstop
  have hascending := Data.ascending_rest view c.source.start none
  rw [← Data.scan_eq_rest] at hascending
  split
  · rename_i typeName hsource
    have hall : stop = none ∧ left = (view.scan c.source.start).map fun pair =>
        ⟨pair.1.drop c.source.start.length, pair.2⟩ := by
      refine hleft.complete ?_
      rw [candidates, hsource, Data.scan_eq_rest]
    refine ⟨hall.1, ?_, hall.2⟩
    rw [hall.2, List.map_map]
    exact List.pairwise_map.mpr hascending
  · rename_i typeName indexName hsource
    -- What has been read has no faulty entry, and what could not be read has one.
    have hsound : ∀ pair ∈ (view.scan c.source.start).take (n * c.pageSize),
        ¬ c.Faulty codec view pair := by
      intro pair hpair hfaulty
      obtain ⟨e, herror⟩ := candidates_of_faulty hsource hpair hfaulty
      cases herror.symm.trans hfound
    have hlisted := Except.ok.inj (hfound.symm.trans (candidates_of_sound hsource hsound))
    refine ⟨hascending, ?_⟩
    cases stop with
    | none =>
      simp only at hstop
      rw [hstop] at hsound hlisted
      exact ⟨hsound, hlisted⟩
    | some e =>
      refine ⟨n, hsound, hlisted, ?_, hstop⟩
      by_contra hnone
      push Not at hnone
      cases hstop.symm.trans (candidates_of_sound hsource hnone)

/-- An index of two entries. The record that the second one lists is missing. -/
def halfIndexed : Data :=
  let recorded := Table.insert ∅ (Key.encode (.record "Book" [7])) [1]
  let first := recorded.insert (Key.encode (.index "Book" "code" [1])) (KeyList.encode [[7]])
  first.insert (Key.encode (.index "Book" "code" [2])) (KeyList.encode [[8]])

def codeScan (batchSize : Nat) : Cursor EngineError :=
  { source := .index "Book" "code", batchSize, filter := none, raise := id }

-- The first record comes before the failure if its entry has a page of its own.
example (codec : Codec) : (codeScan 1).nth codec halfIndexed 0 .start = .ok (some ⟨[7], [1]⟩) := rfl

example (codec : Codec) : (codeScan 2).nth codec halfIndexed 0 .start =
    .error (.corruptIndex "Book" "code" .missingRecord) := rfl

end DocStore.Cursor
