import DocStore.Proofs.Interleaving

/-!
# Schedules

Clients work on one store in any order: they begin transactions, read, write, and end them. Each
open transaction keeps the trace of its calls and their answers. A trace is what its calls yield on
the data of the start, whatever others do meanwhile (`traced_reached`), so it tells which keys the
transaction has read and written.
-/

namespace DocStore

inductive Call where
  | get (key : Bytes)
  | multiGet (keys : List Bytes)
  | scanPrefix (start : Bytes)
  | scanBatch (start : Bytes) (after : Option Bytes) (limit : Nat)
  | put (key value : Bytes)
  | delete (key : Bytes)

inductive Answer where
  | value (found : Option Bytes)
  | values (found : List (Option Bytes))
  | pairs (found : List (Bytes × Bytes))
  | outcome (result : Except StoreError Unit)

abbrev Trace := List (Call × Answer)

namespace Transaction

def unused (base : Data) (readSeq : Nat) (readOnly : Bool) : Transaction :=
  { view := base, readSeq, writes := ∅, reads := [], readOnly }

def written (t : Transaction) : Except StoreError Transaction → Answer × Transaction
  | .ok t' => (.outcome (.ok ()), t')
  | .error e => (.outcome (.error e), t)

def call (t : Transaction) : Call → Answer × Transaction
  | .get key => (.value (t.get key).1, (t.get key).2)
  | .multiGet keys => (.values (t.multiGet keys).1, (t.multiGet keys).2)
  | .scanPrefix start => (.pairs (t.scanPrefix start).1, (t.scanPrefix start).2)
  | .scanBatch start after limit =>
    (.pairs (t.scanBatch start after limit).1, (t.scanBatch start after limit).2)
  | .put key value => t.written (t.put key value)
  | .delete key => t.written (t.delete key)

def callAll (t : Transaction) : List Call → Trace × Transaction
  | [] => ([], t)
  | c :: rest =>
    let (answer, t) := t.call c
    let (trace, t) := t.callAll rest
    ((c, answer) :: trace, t)

theorem callAll_append (t : Transaction) (calls more : List Call) :
    t.callAll (calls ++ more) =
      ((t.callAll calls).1 ++ ((t.callAll calls).2.callAll more).1,
        ((t.callAll calls).2.callAll more).2) := by
  induction calls generalizing t with
  | nil => rfl
  | cons c rest ih => simp [callAll, ih]

end Transaction

namespace Trace

/-- The keys that a call read: those asked for, found or not, and those a scan returned. -/
def keysRead : Call × Answer → List Bytes
  | (.get key, _) => [key]
  | (.multiGet keys, _) => keys
  | (.scanPrefix _, .pairs found) | (.scanBatch _ _ _, .pairs found) => found.map Prod.fst
  | _ => []

def keysWritten : Call × Answer → List Bytes
  | (.put key _, .outcome (.ok _)) | (.delete key, .outcome (.ok _)) => [key]
  | _ => []

def reads (trace : Trace) : List Bytes := trace.flatMap keysRead

def writes (trace : Trace) : List Bytes := trace.flatMap keysWritten

end Trace

namespace Transaction

variable {t : Transaction}

theorem mem_reads_call (c : Call) (key : Bytes) :
    key ∈ (t.call c).2.reads ↔ key ∈ Trace.keysRead (c, (t.call c).1) ∨ key ∈ t.reads := by
  cases c with
  | get k => simp [call, get, recordReads, Trace.keysRead]
  | multiGet keys => simp [call, multiGet, recordReads, Trace.keysRead]
  | scanPrefix start => simp [call, scanPrefix, recordReads, Trace.keysRead]
  | scanBatch start after limit => simp [call, scanBatch, recordReads, Trace.keysRead]
  | put k value =>
    simp only [call, put]
    split <;> simp [written, Trace.keysRead]
  | delete k =>
    simp only [call, delete]
    split <;> simp [written, Trace.keysRead]

theorem isSome_writes_call (c : Call) (key : Bytes) :
    ((t.call c).2.writes.get? key).isSome ↔
      key ∈ Trace.keysWritten (c, (t.call c).1) ∨ (t.writes.get? key).isSome := by
  cases c with
  | put k value =>
    simp only [call, put]
    split
    · simp [written, Trace.keysWritten]
    · simp only [written, Trace.keysWritten, Table.get?_insert, List.mem_singleton]
      by_cases hk : key = k <;> simp [hk]
  | delete k =>
    simp only [call, delete]
    split
    · simp [written, Trace.keysWritten]
    · simp only [written, Trace.keysWritten, Table.get?_insert, List.mem_singleton]
      by_cases hk : key = k <;> simp [hk]
  | _ => simp [call, get, multiGet, scanPrefix, scanBatch, recordReads, Trace.keysWritten]

theorem mem_reads_callAll (calls : List Call) (key : Bytes) :
    key ∈ (t.callAll calls).2.reads ↔ key ∈ Trace.reads (t.callAll calls).1 ∨ key ∈ t.reads := by
  induction calls generalizing t with
  | nil => simp [callAll, Trace.reads]
  | cons c rest ih =>
    simp only [callAll, ih, mem_reads_call, Trace.reads, List.flatMap_cons, List.mem_append]
    tauto

theorem isSome_writes_callAll (calls : List Call) (key : Bytes) :
    ((t.callAll calls).2.writes.get? key).isSome ↔
      key ∈ Trace.writes (t.callAll calls).1 ∨ (t.writes.get? key).isSome := by
  induction calls generalizing t with
  | nil => simp [callAll, Trace.writes]
  | cons c rest ih =>
    simp only [callAll, ih, isSome_writes_call, Trace.writes, List.flatMap_cons, List.mem_append]
    tauto

@[simp] theorem readSeq_call (c : Call) : (t.call c).2.readSeq = t.readSeq := by
  cases c with
  | put k value =>
    simp only [call, put]
    split <;> rfl
  | delete k =>
    simp only [call, delete]
    split <;> rfl
  | _ => rfl

@[simp] theorem readOnly_call (c : Call) : (t.call c).2.readOnly = t.readOnly := by
  cases c with
  | put k value =>
    simp only [call, put]
    split <;> rfl
  | delete k =>
    simp only [call, delete]
    split <;> rfl
  | _ => rfl

@[simp] theorem readSeq_callAll (calls : List Call) : (t.callAll calls).2.readSeq = t.readSeq := by
  induction calls generalizing t with
  | nil => rfl
  | cons c rest ih => simp [callAll, ih]

@[simp] theorem readOnly_callAll (calls : List Call) :
    (t.callAll calls).2.readOnly = t.readOnly := by
  induction calls generalizing t with
  | nil => rfl
  | cons c rest ih => simp [callAll, ih]

theorem StandsOn.put {base : Data} (h : t.StandsOn base) {key value : Bytes} {t' : Transaction}
    (hput : t.put key value = .ok t') : t'.StandsOn base := by
  unfold Transaction.put at hput
  split at hput
  · cases hput
  · rename_i hw
    cases hput
    refine ⟨fun other => ?_, fun hro => absurd hro hw⟩
    simp only [Table.get?_insert, h.view]
    split <;> rfl

theorem StandsOn.delete {base : Data} (h : t.StandsOn base) {key : Bytes} {t' : Transaction}
    (hdelete : t.delete key = .ok t') : t'.StandsOn base := by
  unfold Transaction.delete at hdelete
  split at hdelete
  · cases hdelete
  · rename_i hw
    cases hdelete
    refine ⟨fun other => ?_, fun hro => absurd hro hw⟩
    simp only [Table.get?_erase, Table.get?_insert, h.view]
    split <;> rfl

theorem StandsOn.recordReads {base : Data} (h : t.StandsOn base) (keys : List Bytes) :
    (t.recordReads keys).StandsOn base :=
  ⟨h.view, h.readOnly⟩

theorem StandsOn.call {base : Data} (h : t.StandsOn base) (c : Call) :
    (t.call c).2.StandsOn base := by
  cases c with
  | put key value =>
    simp only [Transaction.call]
    cases hput : t.put key value with
    | ok t' => exact h.put hput
    | error e => exact h
  | delete key =>
    simp only [Transaction.call]
    cases hdelete : t.delete key with
    | ok t' => exact h.delete hdelete
    | error e => exact h
  | get key => exact h.recordReads _
  | multiGet keys => exact h.recordReads _
  | scanPrefix start => exact h.recordReads _
  | scanBatch start after limit => exact h.recordReads _

end Transaction

namespace Interleaving

inductive Action where
  | start (id : Nat) (readOnly : Bool)
  | call (id : Nat) (c : Call)
  | commit (id : Nat)
  | rollback (id : Nat)
  | drop (id : Nat)

/-- One action and its answer. Starting under a number in use does nothing, as does an action on a
transaction that is not open. -/
def step (committer : Store.Committer) (s : State Trace) : Action → Option Answer × State Trace
  | .start id readOnly =>
    match s.opened.get? id with
    | some _ => (none, s)
    | none => (some (.outcome (.ok ())), s.start id readOnly [])
  | .call id c =>
    match s.opened.get? id with
    | none => (none, s)
    | some o =>
      let (answer, txn) := o.txn.call c
      (some answer, s.proceed id o txn (o.note ++ [(c, answer)]))
  | .commit id =>
    match s.opened.get? id with
    | none => (none, s)
    | some o =>
      let (result, s) := s.commit id committer o
      (some (.outcome result), s)
  | .rollback id | .drop id =>
    match s.opened.get? id with
    | none => (none, s)
    | some o => (some (.outcome (.ok ())), s.abandon id o)

def run (committer : Store.Committer) : State Trace → List Action →
    List (Option Answer) × State Trace
  | s, [] => ([], s)
  | s, a :: rest =>
    let (answer, s) := step committer s a
    let (answers, s) := run committer s rest
    (answer :: answers, s)

def reached (actions : List Action) : State Trace := (run Store.commit .initial actions).2

/-- All that an action can do. -/
inductive Stepped (committer : Store.Committer) (s : State Trace) :
    Action → Option Answer × State Trace → Prop where
  | idle (a : Action) : Stepped committer s a (none, s)
  | start {id : Nat} (readOnly : Bool) (hid : s.opened.get? id = none) :
    Stepped committer s (.start id readOnly) (some (.outcome (.ok ())), s.start id readOnly [])
  | call {id : Nat} {o : Open Trace} (c : Call) (ho : s.opened.get? id = some o) :
    Stepped committer s (.call id c) (some (o.txn.call c).1,
      s.proceed id o (o.txn.call c).2 (o.note ++ [(c, (o.txn.call c).1)]))
  | commit {id : Nat} {o : Open Trace} (ho : s.opened.get? id = some o) :
    Stepped committer s (.commit id) (some (.outcome (s.commit id committer o).1),
      (s.commit id committer o).2)
  | rollback {id : Nat} {o : Open Trace} (ho : s.opened.get? id = some o) :
    Stepped committer s (.rollback id) (some (.outcome (.ok ())), s.abandon id o)
  | drop {id : Nat} {o : Open Trace} (ho : s.opened.get? id = some o) :
    Stepped committer s (.drop id) (some (.outcome (.ok ())), s.abandon id o)

theorem stepped (committer : Store.Committer) (s : State Trace) (a : Action) :
    Stepped committer s a (step committer s a) := by
  cases a with
  | start id readOnly =>
    simp only [step]
    cases hid : s.opened.get? id with
    | some o => exact .idle _
    | none => exact .start readOnly hid
  | call id c =>
    simp only [step]
    cases ho : s.opened.get? id with
    | none => exact .idle _
    | some o => exact .call c ho
  | commit id =>
    simp only [step]
    cases ho : s.opened.get? id with
    | none => exact .idle _
    | some o => exact .commit ho
  | rollback id =>
    simp only [step]
    cases ho : s.opened.get? id with
    | none => exact .idle _
    | some o => exact .rollback ho
  | drop id =>
    simp only [step]
    cases ho : s.opened.get? id with
    | none => exact .idle _
    | some o => exact .drop ho

/-- The trace is what its calls yield on the data of the start. -/
def Open.Traced (o : Open Trace) : Prop :=
  (Transaction.unused o.base o.born o.txn.readOnly).callAll (o.note.map Prod.fst) = (o.note, o.txn)

structure Traced (s : State Trace) : Prop where
  sound : Sound s
  opened : ∀ id o, s.opened.get? id = some o → o.Traced
  commits : ∀ c ∈ s.commits, ∀ key, c.wrote key = true ↔ key ∈ Trace.writes c.note

variable {s : State Trace} {id : Nat} {o : Open Trace}

theorem Open.Traced.mem_reads (h : o.Traced) (key : Bytes) :
    key ∈ o.txn.reads ↔ key ∈ Trace.reads o.note := by
  have hreads := Transaction.mem_reads_callAll (t := Transaction.unused o.base o.born o.txn.readOnly)
    (o.note.map Prod.fst) key
  rw [h] at hreads
  simpa [Transaction.unused] using hreads

theorem Open.Traced.isSome_writes (h : o.Traced) (key : Bytes) :
    (o.txn.writes.get? key).isSome ↔ key ∈ Trace.writes o.note := by
  have hwrites := Transaction.isSome_writes_callAll
    (t := Transaction.unused o.base o.born o.txn.readOnly) (o.note.map Prod.fst) key
  rw [h] at hwrites
  simpa [Transaction.unused] using hwrites

theorem Open.Traced.isEmpty_writes (h : o.Traced) :
    o.txn.writes.isEmpty = true ↔ Trace.writes o.note = [] := by
  rw [Table.isEmpty_iff, List.eq_nil_iff_forall_not_mem]
  refine forall_congr' fun key => ?_
  rw [← h.isSome_writes key, Option.not_isSome_iff_eq_none]

theorem Open.Traced.call (h : o.Traced) (c : Call) :
    Open.Traced { o with txn := (o.txn.call c).2, note := o.note ++ [(c, (o.txn.call c).1)] } := by
  unfold Open.Traced at h ⊢
  simp only [List.map_append, List.map_cons, List.map_nil, Transaction.readOnly_call]
  rw [Transaction.callAll_append, h]
  rfl

theorem traced_initial : Traced State.initial where
  sound := sound_initial
  opened _ _ h := by cases h
  commits _ h := by cases h

theorem Traced.abandon (h : Traced s) (ho : s.opened.get? id = some o) :
    Traced (s.abandon id o) where
  sound := h.sound.abandon ho
  opened := Table.forall_erase h.opened
  commits := h.commits

theorem Traced.commit (h : Traced s) (ho : s.opened.get? id = some o) (sweeps : Nat → Bool) :
    Traced (s.commit id (Store.commitSweeping sweeps) o).2 := by
  rcases s.commit_cases sweeps id o with ⟨-, heq⟩ | ⟨-, -, -, heq⟩ | ⟨-, -, -, swept, hswept, heq⟩
  · rw [heq]
    exact h.abandon ho
  · rw [heq]
    exact h.abandon ho
  · rw [heq]
    refine ⟨h.sound.install ho hswept, (h.abandon ho).opened, fun c hc key => ?_⟩
    rcases List.mem_cons.mp hc with rfl | hc
    · exact (h.opened id o ho).isSome_writes key
    · exact h.commits c hc key

/-- Every action keeps the history in step with the store, whenever the store sweeps. -/
theorem Traced.step (h : Traced s) (sweeps : Nat → Bool) (a : Action) :
    Traced (step (Store.commitSweeping sweeps) s a).2 := by
  have hstepped := stepped (Store.commitSweeping sweeps) s a
  generalize Interleaving.step (Store.commitSweeping sweeps) s a = after at hstepped ⊢
  cases hstepped with
  | idle => exact h
  | start readOnly hid =>
    refine ⟨h.sound.start hid readOnly [], Table.forall_insert ?_ h.opened, h.commits⟩
    simp [Open.Traced, Transaction.unused, Transaction.callAll, h.sound.seq]
  | call c ho =>
    have hstands := (h.sound.opened _ _ ho).stands.call c
    refine ⟨h.sound.proceed ho (by simp) (by simp) hstands _, ?_, h.commits⟩
    exact Table.forall_insert ((h.opened _ _ ho).call c) h.opened
  | commit ho => exact h.commit ho sweeps
  | rollback ho => exact h.abandon ho
  | drop ho => exact h.abandon ho

theorem Traced.run (h : Traced s) (sweeps : Nat → Bool) (actions : List Action) :
    Traced (run (Store.commitSweeping sweeps) s actions).2 := by
  induction actions generalizing s with
  | nil => exact h
  | cons a rest ih => exact ih (h.step sweeps a)

theorem traced_reached (actions : List Action) : Traced (reached actions) := by
  unfold reached
  rw [Store.commit_eq_commitSweeping]
  exact traced_initial.run _ actions

end Interleaving

end DocStore
