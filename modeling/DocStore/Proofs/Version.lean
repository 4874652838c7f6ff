import DocStore.Proofs.Table
import DocStore.Store

/-!
# Laws of committed versions

A commit lays its writes over the committed data and notes its own number behind every key it wrote.
`commitSweeping` is the commit of the store with the choice of when to forget open: the store sweeps
at every 64th commit, and `commitKeeping` never does.
-/

namespace DocStore

/-- The keys a transaction has written, with `none` for a deletion. -/
abbrev Writes := Table Bytes (Option Bytes)

namespace Version

theorem get?_write_data (v : Version) (seq : Nat) (key other : Bytes) (value : Option Bytes) :
    (v.write seq key value).data.get? other =
      if other = key then value else v.data.get? other := by
  cases value with
  | none => exact Table.get?_erase ..
  | some value => exact Table.get?_insert ..

theorem get?_write_written (v : Version) (seq : Nat) (key other : Bytes) (value : Option Bytes) :
    (v.write seq key value).written.get? other =
      if other = key then some seq else v.written.get? other :=
  Table.get?_insert ..

section Fold

variable {entries : List (Bytes × Option Bytes)} (seq : Nat) (key : Bytes)

theorem get?_foldl_data (hasc : entries.Pairwise (fun a b => a.1 < b.1)) (v : Version) :
    (entries.foldl (fun v (key, value) => v.write seq key value) v).data.get? key =
      (Table.lookupIn key entries).getD (v.data.get? key) := by
  induction entries generalizing v with
  | nil => rfl
  | cons head rest ih =>
    obtain ⟨k, value⟩ := head
    obtain ⟨hhead, hrest⟩ := List.pairwise_cons.mp hasc
    rw [List.foldl_cons, ih hrest, get?_write_data]
    by_cases hk : k = key
    · subst hk
      have hnone : Table.lookupIn k rest = none := Table.lookupIn_eq_none fun entry he heq =>
        KeyOrder.irrefl k (by simpa [heq] using hhead entry he)
      simp [Table.lookupIn, hnone]
    · simp [Table.lookupIn, hk, Ne.symm hk]

theorem get?_foldl_written (v : Version) :
    (entries.foldl (fun v (key, value) => v.write seq key value) v).written.get? key =
      if (Table.lookupIn key entries).isSome then some seq else v.written.get? key := by
  induction entries generalizing v with
  | nil => rfl
  | cons head rest ih =>
    rw [List.foldl_cons, ih, get?_write_written]
    grind [Table.lookupIn]

theorem seq_foldl (v : Version) :
    (entries.foldl (fun v (key, value) => v.write seq key value) v).seq = v.seq := by
  induction entries generalizing v with
  | nil => rfl
  | cons head rest ih => exact ih _

end Fold

@[simp] theorem seq_advance (v : Version) (writes : Writes) :
    (v.advance writes).seq = v.seq + 1 :=
  seq_foldl _ _

theorem get?_advance_data (v : Version) (writes : Writes) (key : Bytes) :
    (v.advance writes).data.get? key = (writes.get? key).getD (v.data.get? key) :=
  get?_foldl_data _ _ writes.ascending _

theorem get?_advance_written (v : Version) (writes : Writes) (key : Bytes) :
    (v.advance writes).written.get? key =
      if (writes.get? key).isSome then some (v.seq + 1) else v.written.get? key :=
  get?_foldl_written _ _ _

theorem advance_data_congr {v v' : Version} (h : v.data = v'.data) (writes : Writes) :
    (v.advance writes).data = (v'.advance writes).data := by
  suffices hfold : ∀ (entries : List (Bytes × Option Bytes)) (seq seq' : Nat) (v v' : Version),
      v.data = v'.data →
        (entries.foldl (fun v (key, value) => v.write seq key value) v).data =
          (entries.foldl (fun v (key, value) => v.write seq' key value) v').data from
    hfold _ _ _ _ _ h
  intro entries
  induction entries with
  | nil => exact fun _ _ _ _ h => h
  | cons head rest ih =>
    intro seq seq' v v' hdata
    refine ih seq seq' _ _ ?_
    cases hvalue : head.2 <;> simp [write, hvalue, hdata]

theorem stale_iff {v : Version} {readSeq : Nat} {reads : List Bytes} :
    v.stale readSeq reads = true ↔
      ∃ key ∈ reads, ∃ seq, v.written.get? key = some seq ∧ readSeq < seq := by
  simp only [stale, List.any_eq_true]
  refine exists_congr fun key => and_congr_right fun _ => ?_
  cases v.written.get? key <;> simp

theorem get?_prune_written (v : Version) (oldest : Nat) (key : Bytes) :
    (v.prune oldest).written.get? key = (v.written.get? key).filter (oldest < ·) :=
  Table.get?_filter ..

end Version

namespace Store

abbrev Committer := Store → Transaction → Except StoreError Unit × Store × List Event

/-- Ends a transaction with its writes; forgets old write records at the commits that `sweeps`
selects. -/
def commitSweeping (sweeps : Nat → Bool) : Committer := fun s t =>
  if t.readOnly || t.writes.isEmpty then (.ok (), s.release t, [])
  else if s.current.stale t.readSeq t.reads then
    (.error .conflict, s.release t, [.commitConflict t.readSeq])
  else
    let next := s.current.advance t.writes
    if sweeps next.seq then
      let oldest := s.oldestPin next.seq
      let kept := next.prune oldest
      (.ok (), { s with current := kept }.release t,
        [.pruned oldest (next.written.size - kept.written.size)])
    else (.ok (), { s with current := next }.release t, [])

/-- The commit of a store that remembers the last writer of every key forever. -/
def commitKeeping : Committer := commitSweeping fun _ => false

def atInterval (seq : Nat) : Bool := seq % pruneInterval = 0

theorem commit_eq_commitSweeping : commit = commitSweeping atInterval := by
  funext s t
  simp only [commit, commitSweeping, apply, atInterval, decide_eq_true_eq]
  split
  · rfl
  · split
    · rfl
    · split <;> rfl

@[simp] theorem current_release (s : Store) (t : Transaction) :
    (s.release t).current = s.current := by
  unfold release unpin
  split
  · rfl
  · split <;> rfl

@[simp] theorem current_start (s : Store) (readOnly : Bool) :
    (s.start readOnly).2.current = s.current := by
  unfold start pin
  cases readOnly <;> rfl

theorem pinned_release (s : Store) (t : Transaction) (v : Version) :
    ({ s with current := v }.release t).pinned = (s.release t).pinned := by
  unfold release unpin
  cases t.readOnly
  · cases s.pinned.get? t.readSeq <;> rfl
  · rfl

theorem oldestPin_le {s : Store} {seq : Nat} (h : (s.pinned.get? seq).isSome) (otherwise : Nat) :
    s.oldestPin otherwise ≤ seq := by
  unfold oldestPin
  split
  · rename_i hentries
    rcases Table.le_of_entries_eq_cons hentries h with heq | hlt
    · exact Nat.le_of_eq heq
    · exact Nat.le_of_lt hlt
  · rename_i hentries
    have hempty : s.pinned.isEmpty = true := by simp [Table.isEmpty, hentries]
    simp [Table.get?_eq_none_of_isEmpty hempty] at h

/-- `swept` is `next` but for write records that no snapshot in `pinned` can still conflict with. -/
structure SweptFrom (swept next : Version) (pinned : Table Nat Nat) : Prop where
  data : swept.data = next.data
  seq : swept.seq = next.seq
  written : ∀ key n, swept.written.get? key = some n → next.written.get? key = some n
  kept : ∀ pin, (pinned.get? pin).isSome → ∀ key n, pin < n →
    next.written.get? key = some n → swept.written.get? key = some n

theorem sweptFrom_prune (s : Store) (next : Version) :
    SweptFrom (next.prune (s.oldestPin next.seq)) next s.pinned where
  data := rfl
  seq := rfl
  written key n h := by
    rw [Version.get?_prune_written] at h
    exact (Option.filter_eq_some_iff.mp h).1
  kept pin hpin key n hlt h := by
    rw [Version.get?_prune_written]
    have hle := oldestPin_le hpin next.seq
    exact Option.filter_eq_some_iff.mpr ⟨h, by simp; omega⟩

/-- The three ways a commit can end. -/
theorem commitSweeping_cases (sweeps : Nat → Bool) (s : Store) (t : Transaction) :
    (t.readOnly = true ∨ t.writes.isEmpty = true) ∧
        commitSweeping sweeps s t = (.ok (), s.release t, []) ∨
      (t.readOnly = false ∧ t.writes.isEmpty = false ∧
        s.current.stale t.readSeq t.reads = true ∧
        commitSweeping sweeps s t = (.error .conflict, s.release t, [.commitConflict t.readSeq])) ∨
      (t.readOnly = false ∧ t.writes.isEmpty = false ∧
        s.current.stale t.readSeq t.reads = false ∧
        ∃ swept events, SweptFrom swept (s.current.advance t.writes) s.pinned ∧
          commitSweeping sweeps s t =
            (.ok (), { s with current := swept }.release t, events)) := by
  unfold commitSweeping
  cases hro : t.readOnly with
  | true => exact .inl ⟨.inl rfl, by simp⟩
  | false =>
    cases hempty : t.writes.isEmpty with
    | true => exact .inl ⟨.inr rfl, by simp⟩
    | false =>
      cases hstale : s.current.stale t.readSeq t.reads with
      | true => exact .inr (.inl ⟨rfl, rfl, rfl, by simp⟩)
      | false =>
        refine .inr (.inr ⟨rfl, rfl, rfl, ?_⟩)
        simp only [Bool.or_self, Bool.false_eq_true, if_false]
        split
        · exact ⟨_, _, sweptFrom_prune s _, rfl⟩
        · exact ⟨_, _, ⟨rfl, rfl, fun _ _ h => h, fun _ _ _ _ _ h => h⟩, rfl⟩

end Store

end DocStore
