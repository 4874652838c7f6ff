import DocStore.Proofs.Version

/-!
# Transactions side by side

The state of a store with any number of open transactions. Beside the store it keeps a history that
the store does not have: every commit that wrote something, and for every open transaction the data
and the number of commits at its start. `Sound` ties the two together, and each of the four things
that may happen keeps it. What follows from it is that the store, which forgets write records, takes
every decision from the history (`stale_iff_overwritten`), and that a transaction it lets through
has read nothing that has changed (`get?_eq_of_not_stale`).
-/

namespace DocStore

/-- `t` shows `base` with its own writes over it. -/
structure Transaction.StandsOn (t : Transaction) (base : Data) : Prop where
  view : ∀ key, t.view.get? key = (t.writes.get? key).getD (base.get? key)
  readOnly : t.readOnly = true → t.writes = ∅

namespace Interleaving

/-- An open transaction. The `note` is whatever the caller keeps along with it. -/
structure Open (τ : Type) where
  txn : Transaction
  /-- The committed data at its start. -/
  base : Data
  /-- The number of commits before its start. -/
  born : Nat
  note : τ

structure Commit (τ : Type) where
  writes : Writes
  note : τ

structure State (τ : Type) where
  store : Store
  opened : Table Nat (Open τ)
  /-- Latest first. -/
  commits : List (Commit τ)

variable {τ : Type}

def Commit.wrote (c : Commit τ) (key : Bytes) : Bool := (c.writes.get? key).isSome

namespace State

def initial : State τ := ⟨Store.empty, ∅, []⟩

variable (s : State τ) (id : Nat)

def start (readOnly : Bool) (note : τ) : State τ :=
  let (txn, store) := s.store.start readOnly
  { s with
    store
    opened := s.opened.insert id ⟨txn, s.store.current.data, s.commits.length, note⟩ }

def proceed (o : Open τ) (txn : Transaction) (note : τ) : State τ :=
  { s with opened := s.opened.insert id { o with txn, note } }

/-- The transaction wrote nothing, or its writes were taken over. -/
def commitsOf (o : Open τ) : Except StoreError Unit → List (Commit τ)
  | .ok _ => if o.txn.readOnly || o.txn.writes.isEmpty then [] else [⟨o.txn.writes, o.note⟩]
  | .error _ => []

def commit (committer : Store.Committer) (o : Open τ) : Except StoreError Unit × State τ :=
  let (result, store, _) := committer s.store o.txn
  (result, ⟨store, s.opened.erase id, commitsOf o result ++ s.commits⟩)

def abandon (o : Open τ) : State τ :=
  { s with store := s.store.release o.txn, opened := s.opened.erase id }

/-- The commits made after the start of an open transaction, latest first. -/
def since (o : Open τ) : List (Commit τ) := s.commits.take (s.commits.length - o.born)

/-- How many open write transactions stand on a snapshot. -/
def holders (seq : Nat) : Nat :=
  s.opened.holding fun o => !o.txn.readOnly && o.txn.readSeq == seq

end State

-- ---------------------------------------------------------------------------
-- The history
-- ---------------------------------------------------------------------------

/-- The number of the last commit that wrote a key, counted from 1. -/
def lastWriter (key : Bytes) : List (Commit τ) → Option Nat
  | [] => none
  | c :: older => if c.wrote key then some (older.length + 1) else lastWriter key older

def heldAfter (key : Bytes) : List (Commit τ) → Option Bytes
  | [] => none
  | c :: older => (c.writes.get? key).getD (heldAfter key older)

theorem lastWriter_le {key : Bytes} {commits : List (Commit τ)} {n : Nat}
    (h : lastWriter key commits = some n) : n ≤ commits.length := by
  induction commits with
  | nil => simp [lastWriter] at h
  | cons c older ih =>
    simp only [lastWriter] at h
    split at h
    · simp only [Option.some.injEq] at h
      simp [← h]
    · exact Nat.le_succ_of_le (ih h)

theorem lastWriter_gt_iff {key : Bytes} {commits : List (Commit τ)} {born : Nat}
    (hborn : born ≤ commits.length) :
    (∃ n, lastWriter key commits = some n ∧ born < n) ↔
      ∃ c ∈ commits.take (commits.length - born), c.wrote key = true := by
  induction commits with
  | nil => simp [lastWriter]
  | cons c older ih =>
    simp only [List.length_cons] at hborn ⊢
    rcases Nat.eq_or_lt_of_le hborn with rfl | hlt
    · simp only [Nat.sub_self, List.take_zero, List.not_mem_nil, false_and, exists_false, iff_false]
      rintro ⟨n, hn, hlt⟩
      have hle := lastWriter_le hn
      simp only [List.length_cons] at hle
      omega
    · have hle : born ≤ older.length := Nat.le_of_lt_succ hlt
      rw [Nat.succ_sub hle, List.take_succ_cons]
      simp only [List.mem_cons, exists_eq_or_imp, lastWriter]
      by_cases hc : c.wrote key = true
      · simp only [hc, if_true, true_or, iff_true]
        exact ⟨older.length + 1, rfl, hlt⟩
      · simp only [hc, Bool.false_eq_true, if_false, false_or]
        exact ih hle

theorem heldAfter_drop {key : Bytes} {commits : List (Commit τ)} {n : Nat}
    (h : ∀ c ∈ commits.take n, c.wrote key = false) :
    heldAfter key (commits.drop n) = heldAfter key commits := by
  induction commits generalizing n with
  | nil => simp
  | cons c older ih =>
    cases n with
    | zero => simp
    | succ n =>
      simp only [List.take_succ_cons, List.mem_cons, forall_eq_or_imp] at h
      have hnone : c.writes.get? key = none := by simpa [Commit.wrote] using h.1
      rw [List.drop_succ_cons, ih h.2, heldAfter, hnone, Option.getD_none]

-- ---------------------------------------------------------------------------
-- The invariant
-- ---------------------------------------------------------------------------

/-- What an open transaction is in the light of the history. -/
structure Open.Sound (o : Open τ) (commits : List (Commit τ)) : Prop where
  readSeq : o.txn.readSeq = o.born
  born : o.born ≤ commits.length
  base : ∀ key, o.base.get? key = heldAfter key (commits.drop (commits.length - o.born))
  stands : o.txn.StandsOn o.base

structure Sound (s : State τ) : Prop where
  seq : s.store.current.seq = s.commits.length
  data : ∀ key, s.store.current.data.get? key = heldAfter key s.commits
  /-- Write records tell the truth. -/
  written : ∀ key n, s.store.current.written.get? key = some n → lastWriter key s.commits = some n
  /-- Write records that an open write transaction may conflict with are still there. -/
  kept : ∀ id o, s.opened.get? id = some o → o.txn.readOnly = false →
    ∀ key n, lastWriter key s.commits = some n → o.born < n →
      s.store.current.written.get? key = some n
  opened : ∀ id o, s.opened.get? id = some o → o.Sound s.commits
  /-- Every snapshot is pinned as often as there are open write transactions on it. -/
  pinned : ∀ seq, s.store.pinned.get? seq = if s.holders seq = 0 then none else some (s.holders seq)

theorem sound_initial : Sound (State.initial : State τ) where
  seq := rfl
  data _ := rfl
  written _ _ h := by cases h
  kept _ _ h := by cases h
  opened _ _ h := by cases h
  pinned _ := rfl

variable {s : State τ} {id : Nat} {o : Open τ}

theorem Open.Sound.since (h : o.Sound s.commits) (c : Commit τ) :
    o.Sound (c :: s.commits) where
  readSeq := h.readSeq
  born := Nat.le_succ_of_le h.born
  base key := by
    rw [h.base, List.length_cons, Nat.succ_sub h.born, List.drop_succ_cons]
  stands := h.stands

theorem Sound.pinned_of_opened (h : Sound s) (ho : s.opened.get? id = some o)
    (hw : o.txn.readOnly = false) : (s.store.pinned.get? o.born).isSome := by
  have hpos : 0 < s.holders o.born :=
    Table.holding_pos ho (by simp [hw, (h.opened id o ho).readSeq])
  rw [h.pinned, if_neg (Nat.ne_of_gt hpos)]
  rfl

theorem Sound.start (h : Sound s) (hid : s.opened.get? id = none) (readOnly : Bool) (note : τ) :
    Sound (s.start id readOnly note) where
  seq := by simpa [State.start] using h.seq
  data key := by simpa [State.start] using h.data key
  written key n hn := h.written key n (by simpa [State.start] using hn)
  kept := by
    refine Table.forall_insert (fun _ key n hn hlt => ?_) fun other o' ho' hw key n hn hlt => ?_
    · exact absurd (lastWriter_le hn) (Nat.not_le_of_lt hlt)
    · simpa [State.start] using h.kept other o' ho' hw key n hn hlt
  opened := by
    refine Table.forall_insert ?_ h.opened
    refine ⟨h.seq, Nat.le_refl _, fun key => ?_, ⟨fun key => rfl, fun _ => rfl⟩⟩
    simpa [State.start] using h.data key
  pinned seq := by
    have hcount : (s.start id readOnly note).holders seq =
        s.holders seq + if !readOnly && s.store.current.seq == seq then 1 else 0 :=
      Table.holding_insert_new _ _ hid
    have hold := h.pinned seq
    rw [hcount]
    cases readOnly with
    | true => simpa [State.start, Store.start] using hold
    | false =>
      simp only [State.start, Store.start, Store.pin, Table.get?_insert, Bool.false_eq_true,
        if_false]
      by_cases hseq : seq = s.store.current.seq
      · subst hseq
        by_cases hzero : s.holders s.store.current.seq = 0 <;> simp [hold, hzero]
      · simp [hold, hseq, Ne.symm hseq]

theorem Sound.proceed (h : Sound s) (ho : s.opened.get? id = some o) {txn : Transaction}
    (hseq : txn.readSeq = o.txn.readSeq) (hro : txn.readOnly = o.txn.readOnly)
    (hstands : txn.StandsOn o.base) (note : τ) : Sound (s.proceed id o txn note) where
  seq := h.seq
  data := h.data
  written := h.written
  kept := Table.forall_insert (fun hw => h.kept id o ho (hro ▸ hw)) h.kept
  opened := by
    have hsound := h.opened id o ho
    refine Table.forall_insert ?_ h.opened
    exact ⟨hseq.trans hsound.readSeq, hsound.born, hsound.base, hstands⟩
  pinned seq := by
    have hcount : (s.proceed id o txn note).holders seq = s.holders seq :=
      Table.holding_insert_old _ _ ho (by simp [hseq, hro])
    rw [hcount]
    exact h.pinned seq

theorem Sound.pinned_release (h : Sound s) (ho : s.opened.get? id = some o) (seq : Nat) :
    (s.store.release o.txn).pinned.get? seq =
      if (s.abandon id o).holders seq = 0 then none else some ((s.abandon id o).holders seq) := by
  have hcount : (s.abandon id o).holders seq +
      (if !o.txn.readOnly && o.txn.readSeq == seq then 1 else 0) = s.holders seq :=
    Table.holding_erase _ ho
  have hold := h.pinned seq
  unfold Store.release
  cases hw : o.txn.readOnly with
  | true =>
    simp only [hw, Bool.not_true, Bool.false_and, Bool.false_eq_true, if_false, Nat.add_zero]
      at hcount
    simp only [if_true, hcount, hold]
  | false =>
    have hpin := h.pinned o.txn.readSeq
    have hpos : 0 < s.holders o.txn.readSeq := Table.holding_pos ho (by simp [hw])
    rw [if_neg (Nat.ne_of_gt hpos)] at hpin
    simp only [hw, Bool.not_false, Bool.true_and, beq_iff_eq] at hcount
    simp only [Bool.false_eq_true, if_false, Store.unpin, hpin]
    by_cases hseq : seq = o.txn.readSeq
    · subst hseq
      simp only [if_true] at hcount
      split
      · rename_i hle
        rw [Table.get?_erase, if_pos rfl, if_pos (by omega)]
      · rename_i hle
        rw [Table.get?_insert, if_pos rfl, if_neg (by omega)]
        simp only [Option.some.injEq]
        omega
    · simp only [Ne.symm hseq, if_false, Nat.add_zero] at hcount
      split
      · rw [Table.get?_erase, if_neg hseq, hcount, hold]
      · rw [Table.get?_insert, if_neg hseq, hcount, hold]

theorem Sound.abandon (h : Sound s) (ho : s.opened.get? id = some o) :
    Sound (s.abandon id o) where
  seq := by simpa [State.abandon] using h.seq
  data key := by simpa [State.abandon] using h.data key
  written key n hn := h.written key n (by simpa [State.abandon] using hn)
  kept := Table.forall_erase fun other o' ho' hw key n hn hlt => by
    simpa [State.abandon] using h.kept other o' ho' hw key n hn hlt
  opened := Table.forall_erase h.opened
  pinned := h.pinned_release ho

-- ---------------------------------------------------------------------------
-- Decisions
-- ---------------------------------------------------------------------------

theorem Sound.stale_iff_overwritten (h : Sound s) (ho : s.opened.get? id = some o)
    (hw : o.txn.readOnly = false) :
    s.store.current.stale o.txn.readSeq o.txn.reads = true ↔
      ∃ key ∈ o.txn.reads, ∃ c ∈ s.since o, c.wrote key = true := by
  have hsound := h.opened id o ho
  rw [Version.stale_iff, hsound.readSeq]
  refine exists_congr fun key => and_congr_right fun _ => ?_
  rw [State.since, ← lastWriter_gt_iff hsound.born]
  constructor
  · rintro ⟨n, hn, hlt⟩
    exact ⟨n, h.written key n hn, hlt⟩
  · rintro ⟨n, hn, hlt⟩
    exact ⟨n, h.kept id o ho hw key n hn hlt, hlt⟩

theorem Sound.get?_eq_of_not_stale (h : Sound s) (ho : s.opened.get? id = some o)
    (hw : o.txn.readOnly = false)
    (hfresh : s.store.current.stale o.txn.readSeq o.txn.reads = false) {key : Bytes}
    (hkey : key ∈ o.txn.reads) : s.store.current.data.get? key = o.base.get? key := by
  have hsound := h.opened id o ho
  rw [h.data, hsound.base]
  refine (heldAfter_drop fun c hc => ?_).symm
  rw [Bool.eq_false_iff]
  intro hwrote
  have hstale := (h.stale_iff_overwritten ho hw).mpr ⟨key, hkey, c, hc, hwrote⟩
  rw [hfresh] at hstale
  cases hstale

-- ---------------------------------------------------------------------------
-- Commits
-- ---------------------------------------------------------------------------

/-- The three ways a commit can end, in the light of the history. -/
theorem State.commit_cases (sweeps : Nat → Bool) (s : State τ) (id : Nat) (o : Open τ) :
    (o.txn.readOnly = true ∨ o.txn.writes.isEmpty = true) ∧
        s.commit id (Store.commitSweeping sweeps) o = (.ok (), s.abandon id o) ∨
      (o.txn.readOnly = false ∧ o.txn.writes.isEmpty = false ∧
        s.store.current.stale o.txn.readSeq o.txn.reads = true ∧
        s.commit id (Store.commitSweeping sweeps) o = (.error .conflict, s.abandon id o)) ∨
      (o.txn.readOnly = false ∧ o.txn.writes.isEmpty = false ∧
        s.store.current.stale o.txn.readSeq o.txn.reads = false ∧
        ∃ swept, Store.SweptFrom swept (s.store.current.advance o.txn.writes) s.store.pinned ∧
          s.commit id (Store.commitSweeping sweeps) o =
            (.ok (), ⟨{ s.store with current := swept }.release o.txn, s.opened.erase id,
              ⟨o.txn.writes, o.note⟩ :: s.commits⟩)) := by
  rcases Store.commitSweeping_cases sweeps s.store o.txn with
    ⟨hidle, heq⟩ | ⟨hro, hw, hstale, heq⟩ | ⟨hro, hw, hstale, swept, events, hswept, heq⟩
  · refine .inl ⟨hidle, ?_⟩
    have hnone : o.txn.readOnly || o.txn.writes.isEmpty := by simpa using hidle
    simp [State.commit, heq, State.commitsOf, hnone, State.abandon]
  · exact .inr (.inl ⟨hro, hw, hstale, by simp [State.commit, heq, State.commitsOf, State.abandon]⟩)
  · exact .inr (.inr ⟨hro, hw, hstale, swept, hswept,
      by simp [State.commit, heq, State.commitsOf, hro, hw]⟩)

theorem Sound.written_advance (h : Sound s) {key : Bytes} {n : Nat}
    (hn : (s.store.current.advance o.txn.writes).written.get? key = some n) :
    lastWriter key (⟨o.txn.writes, o.note⟩ :: s.commits) = some n := by
  rw [Version.get?_advance_written] at hn
  simp only [lastWriter, Commit.wrote, ← h.seq]
  split at hn
  · rename_i hwrote
    simpa [hwrote] using hn
  · rename_i hwrote
    simpa [hwrote] using h.written key n hn

/-- None of those that an open write transaction may conflict with is missing from it. -/
theorem Sound.kept_advance (h : Sound s) {other : Nat} {o' : Open τ}
    (ho' : s.opened.get? other = some o') (hw : o'.txn.readOnly = false) {key : Bytes} {n : Nat}
    (hlt : o'.born < n) (hn : lastWriter key (⟨o.txn.writes, o.note⟩ :: s.commits) = some n) :
    (s.store.current.advance o.txn.writes).written.get? key = some n := by
  rw [Version.get?_advance_written]
  simp only [lastWriter, Commit.wrote] at hn
  split
  · rename_i hwrote
    simpa [hwrote, h.seq] using hn
  · rename_i hwrote
    exact h.kept other o' ho' hw key n (by simpa [hwrote] using hn) hlt

theorem Sound.install (h : Sound s) (ho : s.opened.get? id = some o) {swept : Version}
    (hswept : Store.SweptFrom swept (s.store.current.advance o.txn.writes) s.store.pinned) :
    Sound ⟨{ s.store with current := swept }.release o.txn, s.opened.erase id,
      ⟨o.txn.writes, o.note⟩ :: s.commits⟩ where
  seq := by simp [hswept.seq, h.seq]
  data key := by
    simp only [Store.current_release, hswept.data, Version.get?_advance_data, h.data, heldAfter]
  written key n hn := by
    simp only [Store.current_release] at hn
    exact h.written_advance (hswept.written key n hn)
  kept := by
    refine Table.forall_erase fun other o' ho' hw key n hn hlt => ?_
    simp only [Store.current_release]
    -- The sweep spares what is behind the snapshot of an open transaction.
    exact hswept.kept o'.born (h.pinned_of_opened ho' hw) key n hlt (h.kept_advance ho' hw hlt hn)
  opened := Table.forall_erase fun other o' ho' => (h.opened other o' ho').since _
  pinned seq := by
    rw [Store.pinned_release]
    exact h.pinned_release ho seq

end Interleaving

end DocStore
