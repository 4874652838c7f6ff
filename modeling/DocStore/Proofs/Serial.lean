import DocStore.Proofs.Schedule

/-!
# Serializability

Transactions that read key by key might as well run one after the other. `serially` runs lists of
calls that way on a store, each list in a transaction of its own. `serializable` compares any
schedule with the serial run of the transactions that committed, in the order of their commits: the
traces and the data are the same.

Scans are left out: a key that is missing from a scan is not recorded as read, so a commit may add
one unnoticed.
-/

namespace DocStore

/-- The call reads or writes keys that it names. -/
def Call.isPoint : Call → Bool
  | .get _ | .multiGet _ | .put _ _ | .delete _ => true
  | .scanPrefix _ | .scanBatch _ _ _ => false

def Call.readFrom (data : Data) : Call → Option Answer
  | .get key => some (.value (data.get? key))
  | .multiGet keys => some (.values (keys.map data.get?))
  | .scanPrefix start => some (.pairs (data.scan start))
  | .scanBatch start after limit => some (.pairs (data.page start after limit))
  | .put _ _ | .delete _ => none

namespace Transaction

variable {t t' : Transaction} {base base' : Data}

structure SameWork (t t' : Transaction) : Prop where
  writes : t.writes = t'.writes
  reads : t.reads = t'.reads
  readOnly : t.readOnly = t'.readOnly

theorem SameWork.view_eq (h : t.SameWork t') (hbase : t.StandsOn base) (hbase' : t'.StandsOn base')
    {key : Bytes} (hkey : base.get? key = base'.get? key) :
    t.view.get? key = t'.view.get? key := by
  rw [hbase.view, hbase'.view, h.writes, hkey]

theorem SameWork.recordReads (h : t.SameWork t') (keys : List Bytes) :
    (t.recordReads keys).SameWork (t'.recordReads keys) :=
  ⟨h.writes, congrArg (keys.reverse ++ ·) h.reads, h.readOnly⟩

theorem SameWork.put (h : t.SameWork t') (key value : Bytes) :
    (t.written (t.put key value)).1 = (t'.written (t'.put key value)).1 ∧
      (t.written (t.put key value)).2.SameWork (t'.written (t'.put key value)).2 := by
  unfold Transaction.put
  rw [← h.readOnly]
  split
  · exact ⟨rfl, h⟩
  · exact ⟨rfl, by simp [written, h.writes], h.reads, rfl⟩

theorem SameWork.delete (h : t.SameWork t') (key : Bytes) :
    (t.written (t.delete key)).1 = (t'.written (t'.delete key)).1 ∧
      (t.written (t.delete key)).2.SameWork (t'.written (t'.delete key)).2 := by
  unfold Transaction.delete
  rw [← h.readOnly]
  split
  · exact ⟨rfl, h⟩
  · exact ⟨rfl, by simp [written, h.writes], h.reads, rfl⟩

theorem SameWork.call (h : t.SameWork t') (hbase : t.StandsOn base) (hbase' : t'.StandsOn base')
    {c : Call} (hpoint : c.isPoint = true)
    (hreads : ∀ key ∈ (t.call c).2.reads, base.get? key = base'.get? key) :
    (t.call c).1 = (t'.call c).1 ∧ (t.call c).2.SameWork (t'.call c).2 := by
  cases c with
  | get key =>
    refine ⟨?_, h.recordReads [key]⟩
    have hkey := hreads key (by simp [Transaction.call, Transaction.get, Transaction.recordReads])
    simp [Transaction.call, Transaction.get, h.view_eq hbase hbase' hkey]
  | multiGet keys =>
    refine ⟨?_, h.recordReads keys⟩
    simp only [Transaction.call, Transaction.multiGet, Answer.values.injEq]
    refine List.map_congr_left fun key hkey => h.view_eq hbase hbase' (hreads key ?_)
    simp [Transaction.call, Transaction.multiGet, Transaction.recordReads, hkey]
  | put key value => exact h.put key value
  | delete key => exact h.delete key
  | scanPrefix start => simp [Call.isPoint] at hpoint
  | scanBatch start after limit => simp [Call.isPoint] at hpoint

theorem SameWork.callAll (h : t.SameWork t') (hbase : t.StandsOn base) (hbase' : t'.StandsOn base')
    {calls : List Call} (hpoint : ∀ c ∈ calls, c.isPoint = true)
    (hreads : ∀ key ∈ (t.callAll calls).2.reads, base.get? key = base'.get? key) :
    (t.callAll calls).1 = (t'.callAll calls).1 ∧
      (t.callAll calls).2.SameWork (t'.callAll calls).2 := by
  induction calls generalizing t t' with
  | nil => exact ⟨rfl, h⟩
  | cons c rest ih =>
    have hkeys : ∀ key ∈ (t.call c).2.reads, key ∈ (t.callAll (c :: rest)).2.reads :=
      fun key hkey => (mem_reads_callAll rest key).mpr (.inr hkey)
    obtain ⟨hanswer, hwork⟩ := h.call hbase hbase' (hpoint c List.mem_cons_self)
      fun key hkey => hreads key (hkeys key hkey)
    obtain ⟨htrace, hlast⟩ := ih hwork (hbase.call c) (hbase'.call c)
      (fun c hc => hpoint c (List.mem_cons_of_mem _ hc)) hreads
    refine ⟨?_, hlast⟩
    simp only [Transaction.callAll, hanswer, htrace]

theorem view_call_of_idle {c : Call} (h : ∀ key, (t.call c).2.writes.get? key = none) :
    (t.call c).2.view = t.view := by
  cases c with
  | put key value =>
    cases hro : t.readOnly with
    | true => simp [call, put, hro, written]
    | false => simpa [call, put, hro, written, Table.get?_insert] using h key
  | delete key =>
    cases hro : t.readOnly with
    | true => simp [call, delete, hro, written]
    | false => simpa [call, delete, hro, written, Table.get?_insert] using h key
  | _ => rfl

/-- Without writes of its own a transaction keeps reading the view it began with. -/
theorem callAll_readFrom {calls : List Call}
    (hwrites : ∀ key, (t.callAll calls).2.writes.get? key = none) :
    ∀ exchange ∈ (t.callAll calls).1, ∀ answer, exchange.1.readFrom t.view = some answer →
      exchange.2 = answer := by
  induction calls generalizing t with
  | nil => simp [callAll]
  | cons c rest ih =>
    have hidle : ∀ key, (t.call c).2.writes.get? key = none := fun key => by
      have hiff := isSome_writes_callAll (t := (t.call c).2) rest key
      have hnone := hwrites key
      simp only [callAll] at hnone
      simp only [hnone, Option.isSome_none, Bool.false_eq_true, false_iff, not_or,
        Option.not_isSome_iff_eq_none] at hiff
      exact hiff.2
    intro exchange hmem answer hanswer
    simp only [callAll, List.mem_cons] at hmem
    rcases hmem with rfl | hmem
    · cases c <;> simp only [Call.readFrom, Option.some.injEq, reduceCtorEq] at hanswer <;>
        exact hanswer
    · exact ih hwrites exchange hmem answer (view_call_of_idle hidle ▸ hanswer)

end Transaction

namespace Store

/-- Runs some calls in a write transaction with nothing else going on, and commits it. -/
def alone (s : Store) (calls : List Call) : (Trace × Except StoreError Unit) × Store :=
  let (txn, s) := s.start false
  let (trace, txn) := txn.callAll calls
  let (result, s, _) := s.commit txn
  ((trace, result), s)

def serially : Store → List (List Call) → List (Trace × Except StoreError Unit) × Store
  | s, [] => ([], s)
  | s, calls :: rest =>
    let (outcome, s) := s.alone calls
    let (outcomes, s) := s.serially rest
    (outcome :: outcomes, s)

theorem serially_append (s : Store) (first : List (List Call)) (last : List Call) :
    s.serially (first ++ [last]) =
      ((s.serially first).1 ++ [((s.serially first).2.alone last).1],
        ((s.serially first).2.alone last).2) := by
  induction first generalizing s with
  | nil => rfl
  | cons calls rest ih => simp [serially, ih]

/-- No write record is ahead of the last commit. -/
def Orderly (s : Store) : Prop :=
  ∀ key seq, s.current.written.get? key = some seq → seq ≤ s.current.seq

theorem orderly_empty : empty.Orderly := fun _ _ h => by cases h

theorem Orderly.alone {s : Store} (h : s.Orderly) {calls : List Call} {trace : Trace}
    {txn : Transaction}
    (hcalls : (Transaction.unused s.current.data s.current.seq false).callAll calls = (trace, txn))
    (hwrites : txn.writes.isEmpty = false) :
    (s.alone calls).1 = (trace, .ok ()) ∧
      (s.alone calls).2.current.data = (s.current.advance txn.writes).data ∧
      (s.alone calls).2.current.seq = s.current.seq + 1 ∧ (s.alone calls).2.Orderly := by
  let start := Transaction.unused s.current.data s.current.seq false
  have hseq : txn.readSeq = s.current.seq := by
    have h := Transaction.readSeq_callAll (t := start) calls
    rwa [hcalls] at h
  have hro : txn.readOnly = false := by
    have h := Transaction.readOnly_callAll (t := start) calls
    rwa [hcalls] at h
  -- Nobody has committed since its start.
  have hfresh : ¬ s.current.stale txn.readSeq txn.reads = true := by
    rw [Version.stale_iff]
    rintro ⟨key, -, seq, hkey, hlt⟩
    exact absurd (h key seq hkey) (Nat.not_le_of_lt (hseq ▸ hlt))
  have halone : s.alone calls =
      (((start.callAll calls).1, ((s.start false).2.commit (start.callAll calls).2).1),
        ((s.start false).2.commit (start.callAll calls).2).2.1) := rfl
  rw [halone, hcalls, commit_eq_commitSweeping]
  rcases commitSweeping_cases atInterval (s.start false).2 txn with
    ⟨hidle, -⟩ | ⟨-, -, hstale, -⟩ | ⟨-, -, -, swept, events, hswept, heq⟩
  · simp [hro, hwrites] at hidle
  · exact absurd (by simpa using hstale) hfresh
  · simp only [current_start] at hswept
    rw [heq]
    refine ⟨rfl, by simp [hswept.data], by simp [hswept.seq], fun key seq hkey => ?_⟩
    simp only [current_release] at hkey ⊢
    have hnext := hswept.written key seq hkey
    rw [Version.get?_advance_written] at hnext
    rw [hswept.seq, Version.seq_advance]
    split at hnext
    · exact Nat.le_of_eq (Option.some.inj hnext).symm
    · exact Nat.le_succ_of_le (h key seq hnext)

end Store

namespace Interleaving

open Transaction (unused)

variable {s : State Trace} {id : Nat} {o : Open Trace}

/-- A transaction whose reads are still current does the same on the committed data. -/
theorem Traced.replay (h : Traced s) (ho : s.opened.get? id = some o)
    (hpoint : ∀ exchange ∈ o.note, exchange.1.isPoint = true) (hro : o.txn.readOnly = false)
    (hfresh : s.store.current.stale o.txn.readSeq o.txn.reads = false) {data : Data}
    (hdata : data = s.store.current.data) (readSeq : Nat) :
    ∃ txn, (unused data readSeq false).callAll (o.note.map Prod.fst) = (o.note, txn) ∧
      txn.writes = o.txn.writes := by
  refine ⟨((unused data readSeq false).callAll (o.note.map Prod.fst)).2, ?_⟩
  have htraced : (unused o.base o.born false).callAll (o.note.map Prod.fst) = (o.note, o.txn) :=
    hro ▸ h.opened id o ho
  -- What it read is committed still, so the calls are answered as they were.
  have hagree : ∀ key ∈ o.txn.reads, o.base.get? key = data.get? key := fun key hkey => by
    rw [hdata, h.sound.get?_eq_of_not_stale ho hro hfresh hkey]
  have hstands : ∀ base seq, (unused base seq false).StandsOn base :=
    fun _ _ => ⟨fun _ => rfl, fun _ => rfl⟩
  have hsame : (unused o.base o.born false).SameWork (unused data readSeq false) :=
    ⟨rfl, rfl, rfl⟩
  have hcalls : ∀ c ∈ o.note.map Prod.fst, c.isPoint = true := by simpa using hpoint
  obtain ⟨htrace, hwork⟩ := hsame.callAll (hstands _ _) (hstands _ _) hcalls
    (by rw [htraced]; exact hagree)
  rw [htraced] at htrace hwork
  exact ⟨Prod.ext htrace.symm rfl, hwork.writes.symm⟩

def State.committedCalls (s : State Trace) : List (List Call) :=
  s.commits.reverse.map fun c => c.note.map Prod.fst

/-- The serial run repeats every trace, commits every transaction, and ends with the same data. -/
structure Serial (s : State Trace) : Prop where
  outcomes : (Store.empty.serially s.committedCalls).1 =
    s.commits.reverse.map fun c => (c.note, .ok ())
  data : (Store.empty.serially s.committedCalls).2.current.data = s.store.current.data
  seq : (Store.empty.serially s.committedCalls).2.current.seq = s.store.current.seq
  orderly : (Store.empty.serially s.committedCalls).2.Orderly

theorem serial_initial : Serial State.initial where
  outcomes := rfl
  data := rfl
  seq := rfl
  orderly := Store.orderly_empty

theorem Serial.of_current {s' : State Trace} (h : Serial s) (hcommits : s'.commits = s.commits)
    (hcurrent : s'.store.current = s.store.current) : Serial s' := by
  have hcalls : s'.committedCalls = s.committedCalls := by
    simp [State.committedCalls, hcommits]
  exact ⟨by rw [hcalls, hcommits]; exact h.outcomes, by rw [hcalls, hcurrent]; exact h.data,
    by rw [hcalls, hcurrent]; exact h.seq, by rw [hcalls]; exact h.orderly⟩

theorem Serial.install (h : Serial s) (ht : Traced s) (ho : s.opened.get? id = some o)
    (hpoint : ∀ exchange ∈ o.note, exchange.1.isPoint = true) (hro : o.txn.readOnly = false)
    (hwrites : o.txn.writes.isEmpty = false)
    (hfresh : s.store.current.stale o.txn.readSeq o.txn.reads = false) {swept : Version}
    (hswept : Store.SweptFrom swept (s.store.current.advance o.txn.writes) s.store.pinned) :
    Serial ⟨{ s.store with current := swept }.release o.txn, s.opened.erase id,
      ⟨o.txn.writes, o.note⟩ :: s.commits⟩ := by
  obtain ⟨txn, hcalls, hsame⟩ := ht.replay ho hpoint hro hfresh h.data
    (Store.empty.serially s.committedCalls).2.current.seq
  obtain ⟨houtcome, hdata, hseq, horderly⟩ := h.orderly.alone hcalls (hsame ▸ hwrites)
  have hserial : Store.empty.serially (s.committedCalls ++ [o.note.map Prod.fst]) = _ :=
    Store.serially_append ..
  -- The transaction comes last in the serial run, where it finds the data of all before it.
  have hall : State.committedCalls ⟨{ s.store with current := swept }.release o.txn,
      s.opened.erase id, ⟨o.txn.writes, o.note⟩ :: s.commits⟩ =
        s.committedCalls ++ [o.note.map Prod.fst] := by
    simp [State.committedCalls]
  refine ⟨?_, ?_, ?_, ?_⟩ <;> rw [hall, hserial]
  · simp [h.outcomes, houtcome]
  · simpa [hdata, hsame, hswept.data] using Version.advance_data_congr h.data _
  · simp [hseq, h.seq, hswept.seq]
  · exact horderly

def Action.isPoint : Action → Bool
  | .call _ c => c.isPoint
  | _ => true

/-- Only a commit that succeeds with writes changes the committed version, and the commit history
with it. -/
theorem step_cases (s : State Trace) (a : Action) :
    ((step Store.commit s a).2.commits = s.commits ∧
        (step Store.commit s a).2.store.current = s.store.current) ∨
      ∃ id o swept, a = .commit id ∧ s.opened.get? id = some o ∧
        o.txn.readOnly = false ∧ o.txn.writes.isEmpty = false ∧
        s.store.current.stale o.txn.readSeq o.txn.reads = false ∧
        Store.SweptFrom swept (s.store.current.advance o.txn.writes) s.store.pinned ∧
        step Store.commit s a = (some (.outcome (.ok ())),
          ⟨{ s.store with current := swept }.release o.txn, s.opened.erase id,
            ⟨o.txn.writes, o.note⟩ :: s.commits⟩) := by
  have hstepped := stepped Store.commit s a
  generalize step Store.commit s a = after at hstepped ⊢
  cases hstepped with
  | idle => exact .inl ⟨rfl, rfl⟩
  | start readOnly hid => exact .inl ⟨rfl, Store.current_start ..⟩
  | call c ho => exact .inl ⟨rfl, rfl⟩
  | @commit id o ho =>
    simp only [Store.commit_eq_commitSweeping]
    rcases s.commit_cases Store.atInterval id o with
      ⟨-, heq⟩ | ⟨-, -, -, heq⟩ | ⟨hro, hw, hfresh, swept, hswept, heq⟩
    · exact .inl (by simp [heq, State.abandon])
    · exact .inl (by simp [heq, State.abandon])
    · exact .inr ⟨id, o, swept, rfl, ho, hro, hw, hfresh, hswept, by rw [heq]⟩
  | rollback ho => exact .inl ⟨rfl, Store.current_release ..⟩
  | drop ho => exact .inl ⟨rfl, Store.current_release ..⟩

def Pointwise (s : State Trace) : Prop :=
  ∀ id o, s.opened.get? id = some o → ∀ exchange ∈ o.note, exchange.1.isPoint = true

theorem Pointwise.step (h : Pointwise s) {a : Action} (ha : a.isPoint = true) :
    Pointwise (step Store.commit s a).2 := by
  have hstepped := stepped Store.commit s a
  generalize Interleaving.step Store.commit s a = after at hstepped ⊢
  cases hstepped with
  | idle => exact h
  | start readOnly hid => exact Table.forall_insert (by simp) h
  | call c ho =>
    refine Table.forall_insert (fun exchange hmem => ?_) h
    rcases List.mem_append.mp hmem with hmem | hmem
    · exact h _ _ ho exchange hmem
    · rw [List.mem_singleton.mp hmem]
      exact ha
  | commit ho => exact Table.forall_erase h
  | rollback ho => exact Table.forall_erase h
  | drop ho => exact Table.forall_erase h

theorem Serial.step (h : Serial s) (ht : Traced s) (hp : Pointwise s) (a : Action) :
    Serial (step Store.commit s a).2 := by
  rcases step_cases s a with
    ⟨hcommits, hcurrent⟩ | ⟨id, o, swept, -, ho, hro, hw, hfresh, hswept, heq⟩
  · exact h.of_current hcommits hcurrent
  · rw [heq]
    exact h.install ht ho (hp id o ho) hro hw hfresh hswept

theorem Serial.run (h : Serial s) (ht : Traced s) (hp : Pointwise s) {actions : List Action}
    (hactions : ∀ a ∈ actions, a.isPoint = true) : Serial (run Store.commit s actions).2 := by
  induction actions generalizing s with
  | nil => exact h
  | cons a rest ih =>
    have htraced : Traced (Interleaving.step Store.commit s a).2 := by
      rw [Store.commit_eq_commitSweeping]
      exact ht.step _ a
    exact ih (h.step ht hp a) htraced (hp.step (hactions a List.mem_cons_self))
      fun b hb => hactions b (List.mem_cons_of_mem _ hb)

/-- A schedule of point calls is as good as the serial run of its committed transactions in the
order of their commits: that run repeats every answer and ends with the same data. A transaction
that has not written anything has read the data committed at its start. And no step but a successful
commit with writes has any effect on the committed data, the write records or the commit number. -/
theorem serializable (actions : List Action) (h : ∀ a ∈ actions, a.isPoint = true) :
    ((Store.empty.serially (reached actions).committedCalls).1 =
        ((reached actions).commits.reverse.map fun c => (c.note, .ok ())) ∧
      (Store.empty.serially (reached actions).committedCalls).2.current.data =
        (reached actions).store.current.data) ∧
      (∀ id o, (reached actions).opened.get? id = some o → Trace.writes o.note = [] →
        ∀ exchange ∈ o.note, ∀ answer, exchange.1.readFrom o.base = some answer →
          exchange.2 = answer) ∧
      ∀ a, (step Store.commit (reached actions) a).2.store.current =
          (reached actions).store.current ∨
        ∃ id o, a = .commit id ∧ (reached actions).opened.get? id = some o ∧
          Trace.writes o.note ≠ [] ∧
          (step Store.commit (reached actions) a).1 = some (.outcome (.ok ())) ∧
          (step Store.commit (reached actions) a).2.commits =
            ⟨o.txn.writes, o.note⟩ :: (reached actions).commits := by
  have htraced := traced_reached actions
  have hserial : Serial (reached actions) :=
    serial_initial.run traced_initial (fun _ _ ho => by cases ho) h
  refine ⟨⟨hserial.outcomes, hserial.data⟩, fun id o ho hwrites => ?_, fun a => ?_⟩
  · have ho' : (unused o.base o.born o.txn.readOnly).callAll (o.note.map Prod.fst) =
        (o.note, o.txn) := htraced.opened id o ho
    have hempty := (htraced.opened id o ho).isEmpty_writes.mpr hwrites
    have hnone : ∀ key, ((unused o.base o.born o.txn.readOnly).callAll
        (o.note.map Prod.fst)).2.writes.get? key = none := by
      rw [ho']
      exact Table.isEmpty_iff.mp hempty
    have hread := Transaction.callAll_readFrom hnone
    rw [ho'] at hread
    exact hread
  · rcases step_cases (reached actions) a with
      ⟨-, hcurrent⟩ | ⟨id, o, swept, rfl, ho, hro, hw, hfresh, hswept, heq⟩
    · exact .inl hcurrent
    · refine .inr ⟨id, o, rfl, ho, fun hwrites => ?_, by rw [heq], by rw [heq]⟩
      rw [(htraced.opened id o ho).isEmpty_writes.mpr hwrites] at hw
      cases hw

/-- Two transactions read a key and both want to write it; a third one follows. -/
def lostUpdate : List Action :=
  [.start 1 false, .start 2 false, .call 1 (.get [1]), .call 2 (.multiGet [[2], [1]]),
    .call 1 (.put [1] [7]), .call 2 (.put [1] [8]), .commit 1, .commit 2, .start 3 false,
    .call 3 (.get [1]), .call 3 (.delete [1]), .call 3 (.put [3] [9]), .commit 3]

theorem serializable_lostUpdate :
    (∀ a ∈ lostUpdate, a.isPoint = true) ∧ (reached lostUpdate).commits.length = 2 ∧
      (Store.empty.serially (reached lostUpdate).committedCalls).2.current.data.entries =
        [([3], [9])] := by
  have hpoint : ∀ a ∈ lostUpdate, a.isPoint = true := by decide
  have hdata : (reached lostUpdate).store.current.data.entries = [([3], [9])] := by decide +kernel
  refine ⟨hpoint, by decide +kernel, ?_⟩
  rw [(serializable lostUpdate hpoint).1.2]
  exact hdata

end Interleaving

end DocStore
