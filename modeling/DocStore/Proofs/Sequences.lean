import DocStore.Proofs.Footprint

/-!
# Drawing numbers

Transactions draw numbers from the counters of types, on their own account or for records that they
insert, and do other work that leaves the counters alone. Transactions that run side by side may draw
the same numbers. Those of the ones that commit are 0, 1, 2, … for each type, in the order of the
commits (`numbers_committed`).

A transaction that has drawn has read the counter. If it commits, nobody has drawn and committed since
it started, so its numbers go on where the committed ones end, and its counter is the one to be left.
-/

namespace DocStore.Sequence

open Interleaving

structure Draw where
  typeName : String
  number : Nat

/-- What goes along with an open transaction: its events, and its draws, the first one first. -/
structure Ledger where
  events : List Event
  draws : List Draw

/-- What may happen to the transactions of a database. The end of one without a commit is a rollback
or that its owner has dropped it. -/
inductive Turn where
  | start (id : Nat) (readOnly : Bool)
  | draw (id : Nat) (typeName : String)
  | insertNext (id : Nat) (entity : Entity) (value : Document)
  | work (id : Nat) (work : Work Failure Unit)
  | commit (id : Nat)
  | abandon (id : Nat)

/-- The transactions, and the draws of those that have committed, in the order of the commits. -/
structure Run where
  state : State Ledger
  committed : List Draw

def drawnBy (typeName : String) (session : Session) : List Draw :=
  match (next typeName session).1 with
  | .ok number => [⟨typeName, number⟩]
  | .error _ => []

namespace Turn

def proceed (run : Run) (id : Nat) (drawn : Session → List Draw) (after : Session → Session) : Run :=
  match run.state.opened.get? id with
  | none => run
  | some o =>
    let session : Session := ⟨o.txn, o.note.events⟩
    let note : Ledger := ⟨(after session).events, o.note.draws ++ drawn session⟩
    { run with state := run.state.proceed id o (after session).txn note }

/-- A number that was drawn for a record stays drawn if the record is then refused. Starting under a
number in use does nothing, as does a turn on a transaction that is not open. -/
def apply (settings : Settings) (run : Run) : Turn → Run
  | .start id readOnly =>
    match run.state.opened.get? id with
    | some _ => run
    | none => { run with state := run.state.start id readOnly ⟨[], []⟩ }
  | .draw id typeName => proceed run id (drawnBy typeName) fun session => (next typeName session).2
  | .insertNext id entity value =>
    let drawn (session : Session) : List Draw :=
      match entity.validSchema with
      | .ok schema => drawnBy schema.typeName session
      | .error _ => []
    proceed run id drawn fun session => (Records.insertNext settings entity value session).2
  | .work id w => proceed run id (fun _ => []) fun session => (w session).2
  | .commit id =>
    match run.state.opened.get? id with
    | none => run
    | some o =>
      let (result, state) := run.state.commit id Store.commit o
      ⟨state, match result with
        | .ok _ => run.committed ++ o.note.draws
        | .error _ => run.committed⟩
  | .abandon id =>
    match run.state.opened.get? id with
    | none => run
    | some o => { run with state := run.state.abandon id o }

def reached (settings : Settings) (turns : List Turn) : Run :=
  turns.foldl (apply settings) ⟨.initial, []⟩

end Turn

def numbers (typeName : String) (draws : List Draw) : List Nat :=
  (draws.filter (·.typeName == typeName)).map Draw.number

@[simp] theorem numbers_append (typeName : String) (draws more : List Draw) :
    numbers typeName (draws ++ more) = numbers typeName draws ++ numbers typeName more := by
  simp [numbers]

def SparesCounters (key : Bytes) : Prop := ∀ typeName, key ≠ counterKey typeName

theorem counterKey_inj {typeName other : String} (h : counterKey typeName = counterKey other) :
    typeName = other := by
  have hbytes : Bytes.ofString typeName = Bytes.ofString other := by
    simpa [counterKey, Key.encode] using h
  have hread := congrArg Bytes.toString? hbytes
  simpa [Bytes.toString?_ofString] using hread

-- ---------------------------------------------------------------------------
-- Counters
-- ---------------------------------------------------------------------------

/-- What a counter holds after so many draws: the last number, if there was one. -/
def counter : Nat → Option Bytes
  | 0 => none
  | drawn + 1 => some (Bytes.be 8 (drawn % UInt64.size))

/-- The numbers of so many draws after the first ones. Behind the greatest number they start over. -/
def numbersFrom (first count : Nat) : List Nat :=
  (List.range count).map fun k => (first + k) % UInt64.size

theorem span_eight : Bytes.span 8 = UInt64.size := rfl

theorem following_counter (typeName : String) (drawn : Nat) :
    following typeName (counter drawn) = .ok (drawn % UInt64.size) := by
  cases drawn with
  | zero => rfl
  | succ drawn =>
    simp only [counter, following, Bytes.length_be, if_true, Bytes.ofBe_be, span_eight, Nat.mod_mod,
      Nat.mod_add_mod]

theorem mod_eq_of_counter_eq {drawn drawn' : Nat} (h : counter drawn = counter drawn') :
    drawn % UInt64.size = drawn' % UInt64.size := by
  have hnext := following_counter "" drawn
  rw [h, following_counter] at hnext
  exact (Except.ok.inj hnext).symm

theorem add_mod_eq {n n' : Nat} (h : n % UInt64.size = n' % UInt64.size) (k : Nat) :
    (n + k) % UInt64.size = (n' + k) % UInt64.size := by
  rw [Nat.add_mod, h, ← Nat.add_mod]

theorem counter_add {drawn drawn' : Nat} (h : counter drawn = counter drawn') (count : Nat) :
    counter (drawn + count) = counter (drawn' + count) := by
  cases count with
  | zero => exact h
  | succ count =>
    have hmod : (drawn + count) % UInt64.size = (drawn' + count) % UInt64.size :=
      add_mod_eq (mod_eq_of_counter_eq h) count
    rw [← Nat.add_assoc, ← Nat.add_assoc, counter, counter, hmod]

theorem numbersFrom_succ (first count : Nat) :
    numbersFrom first (count + 1) = numbersFrom first count ++ [(first + count) % UInt64.size] := by
  simp [numbersFrom, List.range_succ]

theorem numbersFrom_add (first count more : Nat) :
    numbersFrom first (count + more) = numbersFrom first count ++ numbersFrom (first + count) more := by
  simp [numbersFrom, List.range_add, Nat.add_assoc]

theorem numbersFrom_congr {first first' : Nat} (h : counter first = counter first') (count : Nat) :
    numbersFrom first count = numbersFrom first' count :=
  List.map_congr_left fun k _ => add_mod_eq (mod_eq_of_counter_eq h) k

theorem numbersFrom_eq_range {count : Nat} (h : count ≤ UInt64.size) :
    numbersFrom 0 count = List.range count := by
  refine (List.map_congr_left fun k hk => ?_).trans (List.map_id _)
  have hlt : k < UInt64.size := (List.mem_range.mp hk).trans_le h
  rw [Nat.zero_add, Nat.mod_eq_of_lt hlt, id]

-- ---------------------------------------------------------------------------
-- One transaction
-- ---------------------------------------------------------------------------

theorem next_run {t : Transaction} {typeName : String} {drawn : Nat}
    (h : t.view.get? (counterKey typeName) = counter drawn) (events : List Event) :
    next typeName ⟨t, events⟩ =
      if t.readOnly then (.error (.store .readOnly), ⟨t.recordReads [counterKey typeName], events⟩)
      else (.ok (drawn % UInt64.size), ⟨(t.recordReads [counterKey typeName]).assign
        (counterKey typeName) (counter (drawn + 1)), events⟩) := by
  have hread : Work.ofReading (ε := EngineError) (Reading.get (counterKey typeName)) ⟨t, events⟩ =
      (.ok (counter drawn), ⟨t.recordReads [counterKey typeName], events⟩) := by
    rw [← h]
    rfl
  have hfollowing := following_counter typeName drawn
  simp only [next, ← counterKey.eq_def, run_bind, hread, Work.ofExcept, hfollowing]
  cases hro : t.readOnly with
  | true => rw [if_pos rfl, Index.put_readOnly (t := t.recordReads [counterKey typeName]) hro]
  | false =>
    rw [if_neg (by simp), Index.put_run (t := t.recordReads [counterKey typeName]) hro]
    rfl

/-- The numbers that an open transaction has drawn for a type are those after the first `before`, and
in its view the counter is that much further. -/
structure Drawing (typeName : String) (base : Data) (t : Transaction) (drawn : List Nat)
    (before : Nat) : Prop where
  base : base.get? (counterKey typeName) = counter before
  numbered : drawn = numbersFrom before drawn.length
  view : t.view.get? (counterKey typeName) = counter (before + drawn.length)
  idle : drawn = [] → t.writes.get? (counterKey typeName) = none
  busy : drawn ≠ [] → counterKey typeName ∈ t.reads ∧ (t.writes.get? (counterKey typeName)).isSome

namespace Drawing

variable {typeName other : String} {base : Data} {t t' : Transaction} {drawn : List Nat}
  {before : Nat} {keys : Bytes → Prop}

theorem unused (h : t.view = base) (hwrites : t.writes = ∅)
    (hbase : base.get? (counterKey typeName) = counter before) :
    Drawing typeName base t [] before where
  base := hbase
  numbered := rfl
  view := by rw [h, hbase, List.length_nil, Nat.add_zero]
  idle _ := by rw [hwrites, Table.get?_empty]
  busy h := absurd rfl h

theorem changedWithin (h : Drawing typeName base t drawn before) (hchanged : t.ChangedWithin keys t')
    (hspared : ¬ keys (counterKey typeName)) : Drawing typeName base t' drawn before where
  base := h.base
  numbered := h.numbered
  view := (hchanged.view _ hspared).trans h.view
  idle hnil := (hchanged.writes _ hspared).trans (h.idle hnil)
  busy hne := ⟨hchanged.reads _ (h.busy hne).1, hchanged.written _ (h.busy hne).2⟩

theorem next (h : Drawing typeName base t drawn before) (events : List Event) :
    Drawing typeName base (Sequence.next typeName ⟨t, events⟩).2.txn
      (drawn ++ numbers typeName (drawnBy typeName ⟨t, events⟩)) before := by
  have hrun := next_run h.view events
  rw [drawnBy, hrun]
  split
  · simp only [numbers, List.filter_nil, List.map_nil, List.append_nil]
    have hread : t.ChangedWithin (fun _ => False) (t.recordReads [counterKey typeName]) :=
      .recordReads t _
    exact h.changedWithin hread id
  · rename_i hw
    have hnumber : numbers typeName [⟨typeName, (before + drawn.length) % UInt64.size⟩] =
        [(before + drawn.length) % UInt64.size] := by simp [numbers]
    simp only [hnumber]
    refine ⟨h.base, ?_, ?_, fun hnil => absurd hnil (by simp), fun _ => ⟨?_, ?_⟩⟩
    · rw [List.length_append, List.length_singleton, numbersFrom_succ, ← h.numbered]
    · rw [Transaction.view_assign, if_pos rfl, List.length_append, List.length_singleton]
      rfl
    · rw [Transaction.reads_assign, Transaction.mem_reads_recordReads]
      exact .inl List.mem_cons_self
    · rw [Transaction.writes_assign, if_pos rfl]
      rfl

theorem next_other (h : Drawing typeName base t drawn before) (hne : typeName ≠ other)
    (events : List Event) :
    Drawing typeName base (Sequence.next other ⟨t, events⟩).2.txn
      (drawn ++ numbers typeName (drawnBy other ⟨t, events⟩)) before := by
  have hnone : numbers typeName (drawnBy other ⟨t, events⟩) = [] := by
    unfold drawnBy
    split
    · simp [numbers, Ne.symm hne]
    · rfl
  rw [hnone, List.append_nil]
  exact h.changedWithin (next_within other ⟨t, events⟩) fun heq => hne (counterKey_inj heq)

theorem step (h : Drawing typeName base t drawn before) (other : String) (events : List Event) :
    Drawing typeName base (Sequence.next other ⟨t, events⟩).2.txn
      (drawn ++ numbers typeName (drawnBy other ⟨t, events⟩)) before := by
  by_cases heq : typeName = other
  · subst heq
    exact h.next events
  · exact h.next_other heq events

end Drawing

theorem insertNext_changed (settings : Settings) (entity : Entity) (value : Document)
    {schema : Schema} (hvalid : entity.validSchema = .ok schema) (session : Session) :
    (next schema.typeName session).2.txn.ChangedWithin SparesCounters
      (Records.insertNext settings entity value session).2.txn := by
  have hopen : Records.schema entity session = (.ok schema, session) := by
    rw [Records.schema, hvalid]
    rfl
  rw [Records.insertNext, run_bind, hopen]
  dsimp only
  rw [run_bind, Work.adapt]
  rcases next schema.typeName session with ⟨e | n, s⟩
  · exact .refl s.txn
  · have hinsert (key : PrimaryKey) (value : Document) :
        (Records.insert settings entity key value).Within SparesCounters :=
      Mutation.work_spares_counters settings (m := .insert entity key value) not_false
    have hrest : (Work.ofExcept (Records.numbered entity schema n value) >>= fun number =>
        Records.insert settings entity (.number n) number >>= fun _ =>
          (pure (n, number) : Work Failure (Nat × Document))).Within SparesCounters :=
      .bind (.ofExcept _) fun _ _ _ _ => .bind (hinsert _ _) fun _ _ _ _ => .pure _
    exact hrest s

theorem drawnBy_of_insertNext {settings : Settings} {entity : Entity} {value stored : Document}
    {session session' : Session} {n : Nat}
    (h : Records.insertNext settings entity value session = (.ok (n, stored), session')) :
    entity.schema.check = .ok () ∧
      drawnBy entity.schema.typeName session = [⟨entity.schema.typeName, n⟩] := by
  obtain ⟨schema, _, hschema, hdraw⟩ := run_bind_ok h
  obtain ⟨hcheck, rfl, rfl⟩ := Records.schema_ok hschema
  obtain ⟨m, _, hnext, hinsert⟩ := run_bind_ok hdraw
  obtain ⟨numbered, _, -, hstore⟩ := run_bind_ok hinsert
  obtain ⟨_, last, -, hnumber⟩ := run_bind_ok hstore
  cases hnumber
  exact ⟨hcheck, by rw [drawnBy, Work.adapt_ok hnext]⟩

/-- The number that an insertion answers is the one that is counted as drawn for it. -/
theorem Turn.draws_insertNext {settings : Settings} {run : Run} {id : Nat} {o : Open Ledger}
    (ho : run.state.opened.get? id = some o) {entity : Entity} {value stored : Document} {n : Nat}
    {session : Session} (h : Records.insertNext settings entity value ⟨o.txn, o.note.events⟩ =
      (.ok (n, stored), session)) :
    (((Turn.insertNext id entity value).apply settings run).state.opened.get? id).map
        (fun open' => (open'.txn, open'.note.draws)) =
      some (session.txn, o.note.draws ++ [⟨entity.schema.typeName, n⟩]) := by
  obtain ⟨hcheck, hdrawn⟩ := drawnBy_of_insertNext h
  have hvalid : entity.validSchema = .ok entity.schema := by
    simp only [Entity.validSchema, Schema.validate, hcheck]
    rfl
  simp only [apply, proceed, ho, hvalid, hdrawn, h, State.proceed, Table.get?_insert, if_true,
    Option.map_some]

-- ---------------------------------------------------------------------------
-- Transactions side by side
-- ---------------------------------------------------------------------------

/-- For each type the committed numbers are the first ones, and the counter stands behind them. Open
transactions go on from the counter that they have found. -/
structure Counted (run : Run) : Prop where
  sound : Sound run.state
  data : ∀ typeName, run.state.store.current.data.get? (counterKey typeName) =
    counter (numbers typeName run.committed).length
  committed : ∀ typeName,
    numbers typeName run.committed = numbersFrom 0 (numbers typeName run.committed).length
  opened : ∀ id o, run.state.opened.get? id = some o → ∀ typeName, ∃ before,
    Drawing typeName o.base o.txn (numbers typeName o.note.draws) before

theorem counted_initial : Counted ⟨.initial, []⟩ where
  sound := sound_initial
  data _ := rfl
  committed _ := rfl
  opened _ _ h := by cases h

namespace Counted

variable {run : Run} {id : Nat} {o : Open Ledger}

theorem start (h : Counted run) (hid : run.state.opened.get? id = none) (readOnly : Bool) :
    Counted { run with state := run.state.start id readOnly ⟨[], []⟩ } where
  sound := h.sound.start hid readOnly _
  data typeName := by simpa [State.start] using h.data typeName
  committed := h.committed
  opened := Table.forall_insert (fun typeName => ⟨_, .unused rfl rfl (h.data typeName)⟩) h.opened

theorem abandon (h : Counted run) (ho : run.state.opened.get? id = some o) :
    Counted { run with state := run.state.abandon id o } where
  sound := h.sound.abandon ho
  data typeName := by simpa [State.abandon] using h.data typeName
  committed := h.committed
  opened := Table.forall_erase h.opened

theorem proceed (h : Counted run) {drawn : Session → List Draw} {after : Session → Session}
    (hchanged : ∀ session : Session, session.txn.ChangedWithin (fun _ => True) (after session).txn)
    (hdrawing : ∀ session typeName base before already,
      Drawing typeName base session.txn already before →
        Drawing typeName base (after session).txn (already ++ numbers typeName (drawn session)) before) :
    Counted (Turn.proceed run id drawn after) := by
  unfold Turn.proceed
  cases ho : run.state.opened.get? id with
  | none => exact h
  | some o =>
    have hstep := hchanged ⟨o.txn, o.note.events⟩
    refine ⟨?_, h.data, h.committed, ?_⟩
    · exact h.sound.proceed ho hstep.readSeq hstep.readOnly
        (hstep.stands _ (h.sound.opened id o ho).stands) _
    · refine Table.forall_insert (fun typeName => ?_) h.opened
      obtain ⟨before, hbefore⟩ := h.opened id o ho typeName
      refine ⟨before, ?_⟩
      rw [numbers_append]
      exact hdrawing ⟨o.txn, o.note.events⟩ typeName _ _ _ hbefore

theorem draws_eq_nil (h : Counted run) (ho : run.state.opened.get? id = some o)
    (hidle : o.txn.readOnly = true ∨ o.txn.writes.isEmpty = true) : o.note.draws = [] := by
  have hnone : ∀ key, o.txn.writes.get? key = none := by
    rcases hidle with hro | hempty
    · rw [(h.sound.opened id o ho).stands.readOnly hro]
      exact Table.get?_empty
    · exact Table.get?_eq_none_of_isEmpty hempty
  rw [List.eq_nil_iff_forall_not_mem]
  intro draw hdraw
  obtain ⟨before, hdrawing⟩ := h.opened id o ho draw.typeName
  have hdrawn : numbers draw.typeName o.note.draws ≠ [] := by
    refine List.ne_nil_of_mem (a := draw.number) (List.mem_map_of_mem ?_)
    exact List.mem_filter.mpr ⟨hdraw, beq_self_eq_true _⟩
  have hwritten := (hdrawing.busy hdrawn).2
  rw [hnone] at hwritten
  cases hwritten

/-- The draws of a transaction whose reads are current go on where the committed ones end. -/
theorem install (h : Counted run) (ho : run.state.opened.get? id = some o)
    (hw : o.txn.readOnly = false)
    (hfresh : run.state.store.current.stale o.txn.readSeq o.txn.reads = false) {swept : Version}
    (hswept : Store.SweptFrom swept (run.state.store.current.advance o.txn.writes)
      run.state.store.pinned) :
    Counted ⟨⟨{ run.state.store with current := swept }.release o.txn, run.state.opened.erase id,
      ⟨o.txn.writes, o.note⟩ :: run.state.commits⟩, run.committed ++ o.note.draws⟩ := by
  have hnext : ∀ typeName, (swept.data.get? (counterKey typeName) =
      counter (numbers typeName (run.committed ++ o.note.draws)).length) ∧
      numbers typeName (run.committed ++ o.note.draws) =
        numbersFrom 0 (numbers typeName (run.committed ++ o.note.draws)).length := by
    intro typeName
    obtain ⟨before, hdrawing⟩ := h.opened id o ho typeName
    have hstands := (h.sound.opened id o ho).stands.view (counterKey typeName)
    rw [hswept.data, Version.get?_advance_data, numbers_append, List.length_append]
    by_cases hnil : numbers typeName o.note.draws = []
    · rw [hdrawing.idle hnil, hnil, List.length_nil, Nat.add_zero, List.append_nil, Option.getD_none]
      exact ⟨h.data typeName, h.committed typeName⟩
    · obtain ⟨hread, hwritten⟩ := hdrawing.busy hnil
      obtain ⟨value, hvalue⟩ := Option.isSome_iff_exists.mp hwritten
      -- It has read the counter, and the store lets it commit, so the counter is as it has found it.
      have hcounter : counter before = counter (numbers typeName run.committed).length := by
        rw [← hdrawing.base, ← h.data typeName,
          h.sound.get?_eq_of_not_stale ho hw hfresh hread]
      rw [hvalue, Option.getD_some] at hstands
      rw [hvalue, Option.getD_some, ← hstands, hdrawing.view]
      refine ⟨counter_add hcounter _, ?_⟩
      rw [numbersFrom_add, ← h.committed typeName, Nat.zero_add,
        ← numbersFrom_congr hcounter, ← hdrawing.numbered]
  refine ⟨h.sound.install ho hswept, fun typeName => ?_, fun typeName => (hnext typeName).2,
    Table.forall_erase h.opened⟩
  rw [Store.current_release]
  exact (hnext typeName).1

theorem apply (h : Counted run) (settings : Settings) {turn : Turn}
    (hturn : ∀ id work, turn = .work id work → work.Within SparesCounters) :
    Counted (turn.apply settings run) := by
  have hspares : ∀ typeName, ¬ SparesCounters (counterKey typeName) := fun typeName hspares =>
    hspares typeName rfl
  cases turn with
  | start id readOnly =>
    simp only [Turn.apply]
    cases hid : run.state.opened.get? id with
    | some o => exact h
    | none => exact h.start hid readOnly
  | draw id typeName =>
    simp only [Turn.apply]
    refine h.proceed (fun session => ?_) fun session other base before already hdrawing => ?_
    · exact (next_within typeName session).mono fun _ _ => trivial
    · exact hdrawing.step typeName session.events
  | insertNext id entity value =>
    simp only [Turn.apply]
    cases hvalid : entity.validSchema with
    | error e =>
      have hrefused (session : Session) :
          Records.insertNext settings entity value session = (.error e, session) := by
        simp only [Records.insertNext, Records.schema, run_bind, Work.ofExcept, hvalid]
      refine h.proceed (fun session => ?_) fun session other base before already hdrawing => ?_
      · rw [hrefused]
        exact .refl session.txn
      · rw [hrefused]
        simpa [numbers] using hdrawing
    | ok schema =>
      have hrest := insertNext_changed settings entity value hvalid
      refine h.proceed (fun session => ?_) fun session other base before already hdrawing => ?_
      · exact ((next_within schema.typeName session).mono fun _ _ => trivial).trans
          ((hrest session).mono fun _ _ => trivial)
      · exact (hdrawing.step schema.typeName session.events).changedWithin (hrest session)
          (hspares other)
  | work id work =>
    have hwork := hturn id work rfl
    simp only [Turn.apply]
    refine h.proceed (fun session => ?_) fun session other base before already hdrawing => ?_
    · exact (hwork session).mono fun _ _ => trivial
    · simp only [numbers, List.filter_nil, List.map_nil, List.append_nil]
      exact hdrawing.changedWithin (hwork session) (hspares other)
  | commit id =>
    simp only [Turn.apply]
    cases ho : run.state.opened.get? id with
    | none => exact h
    | some o =>
      dsimp only
      rw [Store.commit_eq_commitSweeping]
      rcases run.state.commit_cases Store.atInterval id o with
        ⟨hidle, heq⟩ | ⟨-, -, -, heq⟩ | ⟨hw, -, hfresh, swept, hswept, heq⟩
      · rw [heq]
        simp only [h.draws_eq_nil ho hidle, List.append_nil]
        exact h.abandon ho
      · rw [heq]
        exact h.abandon ho
      · rw [heq]
        exact h.install ho hw hfresh hswept
  | abandon id =>
    simp only [Turn.apply]
    cases ho : run.state.opened.get? id with
    | none => exact h
    | some o => exact h.abandon ho

theorem foldl (h : Counted run) (settings : Settings) {turns : List Turn}
    (hturns : ∀ id work, .work id work ∈ turns → work.Within SparesCounters) :
    Counted (turns.foldl (Turn.apply settings) run) := by
  induction turns generalizing run with
  | nil => exact h
  | cons turn rest ih =>
    have hhead : Counted (turn.apply settings run) :=
      h.apply settings fun id work hturn => hturns id work (hturn ▸ List.mem_cons_self)
    exact ih hhead fun id work hmem => hturns id work (List.mem_cons_of_mem _ hmem)

end Counted

/-- Whatever transactions do side by side, for each type the numbers drawn by those that have
committed are 0, 1, 2, … in the order of the commits, and within a transaction in the order of its
draws. -/
theorem numbers_committed (settings : Settings) (turns : List Turn)
    (hturns : ∀ id work, .work id work ∈ turns → work.Within SparesCounters) (typeName : String)
    (hcount : (numbers typeName (Turn.reached settings turns).committed).length ≤ UInt64.size) :
    numbers typeName (Turn.reached settings turns).committed =
      List.range (numbers typeName (Turn.reached settings turns).committed).length := by
  have hcounted : Counted (Turn.reached settings turns) := counted_initial.foldl settings hturns
  rw [← numbersFrom_eq_range hcount]
  exact hcounted.committed typeName

def orderEntity : Entity := ⟨⟨"order", some "id", [], []⟩, [], .ok⟩

def orderSettings : Settings := ⟨.bson, 2⟩

/-- The second transaction has drawn the number of the first one and loses, the fourth one is given
up, and a record is refused under the first number of the fifth one. -/
def orderTurns : List Turn :=
  [.start 1 false, .draw 1 "order", .start 2 false, .insertNext 2 orderEntity ⟨[]⟩, .commit 1,
    .commit 2, .start 3 false, .insertNext 3 orderEntity ⟨[]⟩, .draw 3 "item", .draw 3 "order",
    .work 3 (Records.insert orderSettings orderEntity (.number 3) ⟨[]⟩), .commit 3, .start 4 false,
    .draw 4 "order", .abandon 4, .start 5 false, .insertNext 5 orderEntity ⟨[]⟩, .draw 5 "order",
    .commit 5]

theorem numbers_committed_orders :
    (∀ id work, .work id work ∈ orderTurns → work.Within SparesCounters) ∧
      (Turn.reached orderSettings orderTurns).state.commits.length = 3 ∧
      (numbers "order" (Turn.reached orderSettings orderTurns).committed).length ≤ UInt64.size ∧
      numbers "order" (Turn.reached orderSettings orderTurns).committed = List.range 5 := by
  have hlength : (numbers "order" (Turn.reached orderSettings orderTurns).committed).length = 5 := by
    decide +kernel
  have hcount : (numbers "order" (Turn.reached orderSettings orderTurns).committed).length ≤
      UInt64.size := by
    rw [hlength]
    decide
  have hturns : ∀ id work, .work id work ∈ orderTurns → work.Within SparesCounters := by
    intro id work hwork
    simp only [orderTurns, List.mem_cons, Turn.work.injEq, reduceCtorEq, List.not_mem_nil, false_or,
      or_false] at hwork
    obtain ⟨-, rfl⟩ := hwork
    exact Mutation.work_spares_counters orderSettings
      (m := .insert orderEntity (.number 3) ⟨[]⟩) not_false
  refine ⟨hturns, by decide +kernel, hcount, ?_⟩
  rw [numbers_committed orderSettings orderTurns hturns "order" hcount, hlength]

end DocStore.Sequence
