import DocStore.Proofs.Sweeping
import Mathlib.Order.Bounds.Defs

/-!
# The books of the store

Whatever clients do, the store pins the snapshots of the open write transactions and no others, as
often as they are in use, and its write records are true. A sweep leaves exactly the records that are
newer than the oldest snapshot in use, that of the committing transaction included
(`write_records_exact`). So no records pile up behind a client that works alone.
-/

namespace DocStore

namespace Store

variable {s : Store}

theorem isLeast_oldestPin {seq : Nat} (h : (s.pinned.get? seq).isSome) (otherwise : Nat) :
    IsLeast {pin | (s.pinned.get? pin).isSome} (s.oldestPin otherwise) := by
  refine ⟨?_, fun pin hpin => oldestPin_le hpin otherwise⟩
  unfold oldestPin
  split
  · rename_i pin count rest hentries
    have hpin : s.pinned.get? pin = some count :=
      Table.get?_eq_some_iff.mpr (by simp [hentries])
    exact Option.isSome_of_eq_some hpin
  · rename_i hentries
    have hempty : s.pinned.isEmpty = true := by simp [Table.isEmpty, hentries]
    simp [Table.get?_eq_none_of_isEmpty hempty] at h

theorem current_commit_of_sweep {t : Transaction} (hro : t.readOnly = false)
    (hw : t.writes.isEmpty = false) (hfresh : s.current.stale t.readSeq t.reads = false)
    (hsweep : (s.current.seq + 1) % pruneInterval = 0) :
    (s.commit t).2.1.current =
      (s.current.advance t.writes).prune (s.oldestPin (s.current.seq + 1)) := by
  simp [commit, apply, hro, hw, hfresh, hsweep]

end Store

namespace Interleaving

section Notes

variable {τ : Type} {s : State τ} {id : Nat} {o : Open τ} {seq : Nat}

theorem State.holders_pos_iff :
    0 < s.holders seq ↔ ∃ id o, s.opened.get? id = some o ∧ o.txn.readOnly = false ∧
      o.txn.readSeq = seq := by
  simp [State.holders, Table.holding_pos_iff]

theorem Sound.isSome_pinned_iff (h : Sound s) :
    (s.store.pinned.get? seq).isSome ↔ 0 < s.holders seq := by
  rw [h.pinned]
  split <;> simp <;> omega

theorem Sound.pinned_eq_succ (h : Sound s) (ho : s.opened.get? id = some o)
    (hw : o.txn.readOnly = false) : ∃ n, s.store.pinned.get? o.txn.readSeq = some (n + 1) := by
  have hpos : 0 < s.holders o.txn.readSeq := State.holders_pos_iff.mpr ⟨id, o, ho, hw, rfl⟩
  rw [h.pinned, if_neg (Nat.ne_of_gt hpos)]
  exact ⟨_, congrArg some (Nat.succ_pred_eq_of_pos hpos).symm⟩

theorem Sound.isEmpty_pinned (h : Sound s)
    (hidle : ∀ id o, s.opened.get? id = some o → o.txn.readOnly = true) :
    s.store.pinned.isEmpty = true := by
  refine Table.isEmpty_iff.mpr fun seq => ?_
  rw [← Option.not_isSome_iff_eq_none, h.isSome_pinned_iff, State.holders_pos_iff]
  rintro ⟨id, o, ho, hw, -⟩
  simp [hidle id o ho] at hw

theorem Sound.isLeast_oldestPin (h : Sound s) (ho : s.opened.get? id = some o)
    (hw : o.txn.readOnly = false) (otherwise : Nat) :
    IsLeast {seq | 0 < s.holders seq} (s.store.oldestPin otherwise) := by
  have hpinned : (s.store.pinned.get? o.born).isSome := h.pinned_of_opened ho hw
  have hset : {seq | 0 < s.holders seq} = {pin | (s.store.pinned.get? pin).isSome} :=
    Set.ext fun _ => h.isSome_pinned_iff.symm
  rw [hset]
  exact Store.isLeast_oldestPin hpinned otherwise

/-- What a sweep leaves of the write records while the oldest snapshot in use is `oldest`. -/
theorem Sound.get?_prune_advance_iff (h : Sound s) {oldest : Nat}
    (holdest : 0 < s.holders oldest) (key : Bytes) (n : Nat) :
    ((s.store.current.advance o.txn.writes).prune oldest).written.get? key = some n ↔
      lastWriter key (⟨o.txn.writes, o.note⟩ :: s.commits) = some n ∧ oldest < n := by
  obtain ⟨other, o', ho', hw, hseq⟩ := State.holders_pos_iff.mp holdest
  rw [Version.get?_prune_written, Option.filter_eq_some_iff, decide_eq_true_eq]
  refine and_congr_left fun hlt => ⟨h.written_advance, h.kept_advance ho' hw ?_⟩
  rwa [← (h.opened other o' ho').readSeq, hseq]

theorem lastWriter_cons_gt_iff {c : Commit τ} {older : List (Commit τ)} {key : Bytes} {n : Nat} :
    lastWriter key (c :: older) = some n ∧ older.length < n ↔
      c.wrote key = true ∧ n = older.length + 1 := by
  rw [lastWriter]
  by_cases hwrote : c.wrote key = true
  · rw [if_pos hwrote, Option.some.injEq]
    simp only [hwrote, true_and]
    omega
  · rw [if_neg hwrote]
    constructor
    · rintro ⟨hn, hlt⟩
      exact absurd (lastWriter_le hn) (Nat.not_le_of_lt hlt)
    · rintro ⟨h, -⟩
      exact absurd h hwrote

/-- The only write transaction, with no commit since its start, stands on the oldest snapshot. -/
theorem Sound.oldest_of_alone (h : Sound s) (ho : s.opened.get? id = some o)
    (halone : ∀ other o', s.opened.get? other = some o' → other ≠ id → o'.txn.readOnly = true)
    (hsince : s.since o = []) {oldest : Nat} (holdest : 0 < s.holders oldest) :
    oldest = s.commits.length := by
  obtain ⟨other, o', ho', hw, rfl⟩ := State.holders_pos_iff.mp holdest
  have hid : other = id := by
    by_contra hne
    simp [halone other o' ho' hne] at hw
  subst hid
  rw [ho] at ho'
  cases ho'
  have hsound := h.opened other o ho
  have hlength := congrArg List.length hsince
  simp only [State.since, List.length_take, List.length_nil] at hlength
  have hborn := hsound.born
  rw [hsound.readSeq]
  omega

end Notes

variable {s : State Trace} {id : Nat} {o : Open Trace}

theorem step_of_sweep (h : Traced s) (ho : s.opened.get? id = some o)
    (hwrites : Trace.writes o.note ≠ [])
    (hok : (step Store.commit s (.commit id)).1 = some (.outcome (.ok ())))
    (hseq : (step Store.commit s (.commit id)).2.store.current.seq % Store.pruneInterval = 0) :
    o.txn.readOnly = false ∧
      (step Store.commit s (.commit id)).2.store.current =
        (s.store.current.advance o.txn.writes).prune
          (s.store.oldestPin (s.store.current.seq + 1)) ∧
      (step Store.commit s (.commit id)).2.commits =
        ⟨o.txn.writes, o.note⟩ :: s.commits := by
  have hempty : o.txn.writes.isEmpty = false := by
    rw [Bool.eq_false_iff]
    exact fun hempty => hwrites ((h.opened id o ho).isEmpty_writes.mp hempty)
  simp only [step, ho] at hok hseq ⊢
  have hcurrent : (s.commit id Store.commit o).2.store.current =
      (s.store.commit o.txn).2.1.current := rfl
  have hcases := s.commit_cases Store.atInterval id o
  rw [← Store.commit_eq_commitSweeping] at hcases
  rcases hcases with ⟨hidle, -⟩ | ⟨-, -, -, heq⟩ | ⟨hro, hw, hfresh, swept, hswept, heq⟩
  · rcases hidle with hro | hw
    · have hnone := (h.sound.opened id o ho).stands.readOnly hro
      rw [hnone] at hempty
      cases hempty
    · simp [hempty] at hw
  · simp [heq] at hok
  · have hnext : (s.store.current.seq + 1) % Store.pruneInterval = 0 := by
      simpa [heq, hswept.seq] using hseq
    exact ⟨hro, hcurrent.trans (Store.current_commit_of_sweep hro hw hfresh hnext), by rw [heq]⟩

/-- Whatever clients have done, the store pins the snapshots of the open write transactions, each as
often as it is in use, and nothing else, so the count of a snapshot that is to be released is never
zero. Every write record names the last commit that put or deleted its key. A commit that sweeps
leaves exactly the records of last writers after the oldest snapshot in use, its own included. With
no other write transaction open and no commit since its start, these are the records of its own
keys. -/
theorem write_records_exact (actions : List Action) :
    let s := reached actions
    ((∀ seq, s.store.pinned.get? seq = if s.holders seq = 0 then none else some (s.holders seq)) ∧
      (∀ id o, s.opened.get? id = some o → o.txn.readOnly = false →
        ∃ n, s.store.pinned.get? o.txn.readSeq = some (n + 1)) ∧
      ((∀ id o, s.opened.get? id = some o → o.txn.readOnly = true) →
        s.store.pinned.isEmpty = true)) ∧
    ((∀ c ∈ s.commits, ∀ key, c.wrote key = true ↔ key ∈ Trace.writes c.note) ∧
      s.store.current.seq = s.commits.length ∧
      ∀ key n, s.store.current.written.get? key = some n → lastWriter key s.commits = some n) ∧
    ∀ id o, s.opened.get? id = some o → Trace.writes o.note ≠ [] →
      let committed := step Store.commit s (.commit id)
      let version := committed.2.store.current
      committed.1 = some (.outcome (.ok ())) → version.seq % Store.pruneInterval = 0 →
        (∃ oldest, IsLeast {seq | 0 < s.holders seq} oldest ∧
          ∀ key n, version.written.get? key = some n ↔
            lastWriter key committed.2.commits = some n ∧ oldest < n) ∧
        ((∀ other o', s.opened.get? other = some o' → other ≠ id → o'.txn.readOnly = true) →
          s.since o = [] → ∀ key n, version.written.get? key = some n ↔
            key ∈ Trace.writes o.note ∧ n = version.seq) := by
  intro s
  have htraced : Traced s := traced_reached actions
  have hsound := htraced.sound
  refine ⟨⟨hsound.pinned, fun id o => hsound.pinned_eq_succ, hsound.isEmpty_pinned⟩,
    ⟨htraced.commits, hsound.seq, hsound.written⟩, fun id o ho hwrites => ?_⟩
  intro committed version hok hseq
  obtain ⟨hro, hcurrent, hcommits⟩ := step_of_sweep htraced ho hwrites hok hseq
  have hleast := hsound.isLeast_oldestPin ho hro (s.store.current.seq + 1)
  have hrecords := hsound.get?_prune_advance_iff (o := o) hleast.1
  refine ⟨⟨_, hleast, fun key n => ?_⟩, fun halone hsince key n => ?_⟩
  · rw [hcommits, ← hrecords key n, ← hcurrent]
  · have holdest := hsound.oldest_of_alone ho halone hsince hleast.1
    have hnumber : version.seq = s.commits.length + 1 := by
      simp [version, committed, hcurrent, Version.prune, hsound.seq]
    have hold := hrecords key n
    rw [← hcurrent, holdest, lastWriter_cons_gt_iff, ← hnumber] at hold
    exact hold.trans (and_congr_left' ((htraced.opened id o ho).isSome_writes key))

def churn (transactions : Nat) : List Action :=
  (List.range transactions).flatMap fun i =>
    [.start i false, .call i (.put [UInt8.ofNat (i % 3)] [0]), .commit i]

/-- The 64th commit of a churn forgets all the others. -/
theorem write_records_exact_churn :
    let s := reached (churn 63 ++ [.start 63 false, .call 63 (.put [7] [0])])
    s.store.current.written.keys = [[0], [1], [2]] ∧
      ∀ key n, (step Store.commit s (.commit 63)).2.store.current.written.get? key = some n ↔
        key = [7] ∧ n = 64 := by
  intro s
  have hall : ∀ entry ∈ s.opened.entries, entry.1 = 63 ∧ entry.2.txn.readOnly = false ∧
      Trace.writes entry.2.note = [[7]] ∧ s.since entry.2 = [] := by
    decide +kernel
  have hentry {id : Nat} {o : Open Trace} (ho : s.opened.get? id = some o) :=
    hall (id, o) (Table.get?_eq_some_iff.mp ho)
  obtain ⟨o, ho⟩ : ∃ o, s.opened.get? 63 = some o :=
    Option.isSome_iff_exists.mp (by decide +kernel)
  obtain ⟨-, hro, hwrites, hsince⟩ := hentry ho
  have hsome : Trace.writes o.note ≠ [] := by simp [hwrites]
  have hfresh : ¬ s.Overwritten o := by simp [State.Overwritten, hsince]
  have hdone : (s.commit 63 Store.commit o).1 = .ok () :=
    ((traced_reached _).commit_iff ho hro hsome).2.mpr hfresh
  have hok : (step Store.commit s (.commit 63)).1 = some (.outcome (.ok ())) := by
    simp only [step, ho, hdone]
  have hseq : (step Store.commit s (.commit 63)).2.store.current.seq = 64 := by decide +kernel
  have hrecords := ((write_records_exact _).2.2 63 o ho hsome hok (by rw [hseq]; rfl)).2
    (fun other o' ho' hne => absurd (hentry ho').1 hne) hsince
  refine ⟨by decide +kernel, fun key n => ?_⟩
  rw [hrecords key n, hwrites, hseq, List.mem_singleton]

end Interleaving

end DocStore
