import DocStore.Proofs.Schedule

/-!
# Sweeping is not observable

The store forgets write records at every 64th commit. Since it keeps those that an open write
transaction may conflict with, every commit still ends as the traces say (`commit_decided_by_history`):
with a conflict exactly if a key in the transaction's trace was overwritten since its start. A store
that never forgets a write record gives the same answers.
-/

namespace DocStore.Interleaving

variable {s s' : State Trace} {id : Nat} {o : Open Trace}

/-- A commit since its start put or deleted a key that the transaction has read. -/
def State.Overwritten (s : State Trace) (o : Open Trace) : Prop :=
  ∃ key ∈ Trace.reads o.note, ∃ c ∈ s.since o, key ∈ Trace.writes c.note

theorem Traced.stale_iff (h : Traced s) (ho : s.opened.get? id = some o)
    (hw : o.txn.readOnly = false) :
    s.store.current.stale o.txn.readSeq o.txn.reads = true ↔ s.Overwritten o := by
  rw [h.sound.stale_iff_overwritten ho hw]
  refine exists_congr fun key => and_congr ((h.opened id o ho).mem_reads key) ?_
  refine exists_congr fun c => and_congr_right fun hc => ?_
  exact h.commits c (List.mem_of_mem_take hc) key

structure Alike (s s' : State Trace) : Prop where
  data : s.store.current.data = s'.store.current.data
  seq : s.store.current.seq = s'.store.current.seq
  pinned : s.store.pinned = s'.store.pinned
  opened : s.opened = s'.opened
  commits : s.commits = s'.commits

theorem Alike.start (h : Alike s s') (id : Nat) (readOnly : Bool) (note : Trace) :
    Alike (s.start id readOnly note) (s'.start id readOnly note) where
  data := by simpa [State.start] using h.data
  seq := by simpa [State.start] using h.seq
  pinned := by
    cases readOnly <;> simp [State.start, Store.start, Store.pin, h.pinned, h.seq]
  opened := by simp [State.start, Store.start, h.data, h.seq, h.opened, h.commits]
  commits := h.commits

theorem Alike.pinned_release (h : Alike s s') (t : Transaction) :
    (s.store.release t).pinned = (s'.store.release t).pinned := by
  simp only [Store.release, Store.unpin, h.pinned]
  split
  · exact h.pinned
  · split
    · exact h.pinned
    · rfl

theorem Alike.abandon (h : Alike s s') (id : Nat) (o : Open Trace) :
    Alike (s.abandon id o) (s'.abandon id o) where
  data := by simpa [State.abandon] using h.data
  seq := by simpa [State.abandon] using h.seq
  pinned := h.pinned_release o.txn
  opened := by simp [State.abandon, h.opened]
  commits := h.commits

theorem Traced.same_outcome (hs : Traced s) (hs' : Traced s') (ho : s.opened.get? id = some o)
    (ho' : s'.opened.get? id = some o) (hcommits : s.commits = s'.commits)
    (sweeps sweeps' : Nat → Bool) :
    (s.commit id (Store.commitSweeping sweeps) o).1 =
      (s'.commit id (Store.commitSweeping sweeps') o).1 := by
  have hsince : s'.since o = s.since o := by simp [State.since, hcommits]
  rcases s.commit_cases sweeps id o with
    ⟨hidle, heq⟩ | ⟨hro, hw, hstale, heq⟩ | ⟨hro, hw, hstale, swept, -, heq⟩ <;>
  rcases s'.commit_cases sweeps' id o with
    ⟨hidle', heq'⟩ | ⟨hro', hw', hstale', heq'⟩ | ⟨hro', hw', hstale', swept', -, heq'⟩
  case inl.inl | inr.inl.inr.inl | inr.inr.inr.inr => rw [heq, heq']
  case inl.inr.inl | inl.inr.inr => simp [hro', hw'] at hidle
  case inr.inl.inl | inr.inr.inl => simp [hro, hw] at hidle'
  case inr.inl.inr.inr | inr.inr.inr.inl =>
    -- One store finds the reads stale and the other does not, but both read it off one history.
    have hiff := hs.stale_iff ho hro
    have hiff' := hs'.stale_iff ho' hro
    simp only [State.Overwritten, hsince] at hiff hiff'
    simp [← hiff', hstale, hstale'] at hiff

theorem Alike.commit (h : Alike s s') (hs : Traced s) (hs' : Traced s')
    (ho : s.opened.get? id = some o) (sweeps sweeps' : Nat → Bool) :
    (s.commit id (Store.commitSweeping sweeps) o).1 =
        (s'.commit id (Store.commitSweeping sweeps') o).1 ∧
      Alike (s.commit id (Store.commitSweeping sweeps) o).2
        (s'.commit id (Store.commitSweeping sweeps') o).2 := by
  have hsame := hs.same_outcome hs' ho (h.opened ▸ ho) h.commits sweeps sweeps'
  refine ⟨hsame, ?_⟩
  rcases s.commit_cases sweeps id o with
    ⟨hidle, heq⟩ | ⟨hro, hw, -, heq⟩ | ⟨hro, hw, -, swept, hswept, heq⟩ <;>
  rcases s'.commit_cases sweeps' id o with
    ⟨hidle', heq'⟩ | ⟨hro', hw', -, heq'⟩ | ⟨hro', hw', -, swept', hswept', heq'⟩
  case inl.inl | inr.inl.inr.inl =>
    rw [heq, heq']
    exact h.abandon id o
  case inl.inr.inl | inl.inr.inr => simp [hro', hw'] at hidle
  case inr.inl.inl | inr.inr.inl => simp [hro, hw] at hidle'
  case inr.inl.inr.inr | inr.inr.inr.inl => simp [heq, heq'] at hsame
  case inr.inr.inr.inr =>
    rw [heq, heq']
    refine ⟨?_, ?_, ?_, by simp [h.opened], by simp [h.commits]⟩
    · simpa [hswept.data, hswept'.data] using Version.advance_data_congr h.data _
    · simp [hswept.seq, hswept'.seq, h.seq]
    · simp only [Store.pinned_release]
      exact h.pinned_release o.txn

theorem Alike.step (h : Alike s s') (hs : Traced s) (hs' : Traced s') (sweeps sweeps' : Nat → Bool)
    (a : Action) :
    (step (Store.commitSweeping sweeps) s a).1 = (step (Store.commitSweeping sweeps') s' a).1 ∧
      Alike (step (Store.commitSweeping sweeps) s a).2
        (step (Store.commitSweeping sweeps') s' a).2 := by
  cases a with
  | start id readOnly =>
    simp only [Interleaving.step, ← h.opened]
    cases s.opened.get? id with
    | some o => exact ⟨rfl, h⟩
    | none => exact ⟨rfl, h.start id readOnly []⟩
  | call id c =>
    simp only [Interleaving.step, ← h.opened]
    cases s.opened.get? id with
    | none => exact ⟨rfl, h⟩
    | some o => exact ⟨rfl, h.data, h.seq, h.pinned, by simp [State.proceed, h.opened], h.commits⟩
  | commit id =>
    simp only [Interleaving.step, ← h.opened]
    cases hid : s.opened.get? id with
    | none => exact ⟨rfl, h⟩
    | some o =>
      obtain ⟨hresult, halike⟩ := h.commit hs hs' hid sweeps sweeps'
      exact ⟨congrArg (some ∘ Answer.outcome) hresult, halike⟩
  | rollback id =>
    simp only [Interleaving.step, ← h.opened]
    cases s.opened.get? id with
    | none => exact ⟨rfl, h⟩
    | some o => exact ⟨rfl, h.abandon id o⟩
  | drop id =>
    simp only [Interleaving.step, ← h.opened]
    cases s.opened.get? id with
    | none => exact ⟨rfl, h⟩
    | some o => exact ⟨rfl, h.abandon id o⟩

theorem Alike.answers_run (h : Alike s s') (hs : Traced s) (hs' : Traced s')
    (sweeps sweeps' : Nat → Bool) (actions : List Action) :
    (run (Store.commitSweeping sweeps) s actions).1 =
      (run (Store.commitSweeping sweeps') s' actions).1 := by
  induction actions generalizing s s' with
  | nil => rfl
  | cons a rest ih =>
    obtain ⟨hanswer, halike⟩ := h.step hs hs' sweeps sweeps' a
    have hrest := ih halike (hs.step sweeps a) (hs'.step sweeps' a)
    simp only [run, hanswer, hrest]

/-- The outcome of a commit, as the history has it. -/
theorem Traced.commit_iff (h : Traced s) (ho : s.opened.get? id = some o)
    (hw : o.txn.readOnly = false) (hwrites : Trace.writes o.note ≠ []) :
    ((s.commit id Store.commit o).1 = .error .conflict ↔ s.Overwritten o) ∧
      ((s.commit id Store.commit o).1 = .ok () ↔ ¬ s.Overwritten o) := by
  have hempty : ¬ o.txn.writes.isEmpty = true := fun he =>
    hwrites ((h.opened id o ho).isEmpty_writes.mp he)
  rw [← h.stale_iff ho hw, Store.commit_eq_commitSweeping]
  rcases s.commit_cases Store.atInterval id o with
    ⟨hidle, -⟩ | ⟨-, -, hstale, heq⟩ | ⟨-, -, hstale, swept, -, heq⟩
  · simp [hw, hempty] at hidle
  · simp [heq, hstale]
  · simp [heq, hstale]

theorem State.current_of_conflict (s : State τ) (id : Nat) (o : Open τ)
    (h : (s.commit id Store.commit o).1 = .error .conflict) :
    (s.commit id Store.commit o).2.store.current = s.store.current := by
  rw [Store.commit_eq_commitSweeping] at h ⊢
  rcases s.commit_cases Store.atInterval id o with
    ⟨-, heq⟩ | ⟨-, -, -, heq⟩ | ⟨-, -, -, swept, -, heq⟩
  · simp [heq, State.abandon]
  · simp [heq, State.abandon]
  · simp [heq] at h

/-- Whatever clients have done, the commit of a write transaction that wrote something fails with a
conflict if a key it read was put or deleted by a commit since its start, and succeeds if not. A
conflict leaves the committed version alone. So a store that never forgets who wrote what gives
every answer that the sweeping store gives. -/
theorem commit_decided_by_history (actions : List Action) :
    (∀ id o, (reached actions).opened.get? id = some o → o.txn.readOnly = false →
      Trace.writes o.note ≠ [] →
        let committed := step Store.commit (reached actions) (.commit id)
        (committed.1 = some (.outcome (.error .conflict)) ↔ (reached actions).Overwritten o) ∧
          (committed.1 = some (.outcome (.ok ())) ↔ ¬ (reached actions).Overwritten o) ∧
          (committed.1 = some (.outcome (.error .conflict)) →
            committed.2.store.current = (reached actions).store.current)) ∧
      (run Store.commit .initial actions).1 = (run Store.commitKeeping .initial actions).1 := by
  constructor
  · intro id o ho hw hwrites
    have hiff := (traced_reached actions).commit_iff ho hw hwrites
    simp only [step, ho, Option.some.injEq, Answer.outcome.injEq]
    exact ⟨hiff.1, hiff.2, (reached actions).current_of_conflict id o⟩
  · rw [Store.commit_eq_commitSweeping]
    exact Alike.answers_run ⟨rfl, rfl, rfl, rfl, rfl⟩ traced_initial traced_initial _ _ actions

end DocStore.Interleaving
