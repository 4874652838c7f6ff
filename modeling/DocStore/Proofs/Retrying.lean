import DocStore.Database
import DocStore.Proofs.Sweeping

/-!
# Writing with retries

A write runs its work in one transaction after the other, while other transactions go on beside it.
`Course` describes one such run as actions on the store: the calls of the transaction, and among
them in any order what others do. What the others do comes to the same without the transaction
(`Without.after`) unless it commits. So a write takes effect once, by the commit of its last run, or
not at all (`write_once`).
-/

namespace DocStore

namespace Interleaving

-- ---------------------------------------------------------------------------
-- Schedules without one transaction
-- ---------------------------------------------------------------------------

def Action.id : Action → Nat
  | .start id _ | .call id _ | .commit id | .rollback id | .drop id => id

def Action.isCall : Action → Bool
  | .call _ _ => true
  | _ => false

def aside (id : Nat) (actions : List Action) : List Action := actions.filter fun a => a.id != id

def State.after (s : State Trace) (actions : List Action) : State Trace :=
  (run Store.commit s actions).2

variable {s s' : State Trace} {id : Nat} {o : Open Trace}

@[simp] theorem State.after_nil (s : State Trace) : s.after [] = s := rfl

@[simp] theorem State.after_cons (s : State Trace) (a : Action) (rest : List Action) :
    s.after (a :: rest) = (step Store.commit s a).2.after rest := rfl

@[simp] theorem State.after_append (s : State Trace) (actions more : List Action) :
    s.after (actions ++ more) = (s.after actions).after more := by
  induction actions generalizing s with
  | nil => rfl
  | cons a rest ih => exact ih _

@[simp] theorem aside_append (id : Nat) (actions more : List Action) :
    aside id (actions ++ more) = aside id actions ++ aside id more := by
  simp only [aside, List.filter_append]

theorem Traced.step_commit (h : Traced s) (a : Action) :
    Traced (Interleaving.step Store.commit s a).2 := by
  rw [Store.commit_eq_commitSweeping]
  exact h.step _ a

theorem Traced.after (h : Traced s) (actions : List Action) : Traced (s.after actions) := by
  unfold State.after
  rw [Store.commit_eq_commitSweeping]
  exact h.run _ actions

theorem opened_step (s : State Trace) {a : Action} {other : Nat} (ha : other ≠ a.id) :
    (step Store.commit s a).2.opened.get? other = s.opened.get? other := by
  have hstepped := stepped Store.commit s a
  generalize step Store.commit s a = next at hstepped ⊢
  cases hstepped with
  | idle => rfl
  | start | call => exact (Table.get?_insert ..).trans (if_neg ha)
  | commit | rollback | drop => exact (Table.get?_erase ..).trans (if_neg ha)

theorem commits_step (s : State Trace) {a : Action} (ha : ∀ id, a ≠ .commit id) :
    (step Store.commit s a).2.commits = s.commits := by
  have hstepped := stepped Store.commit s a
  generalize step Store.commit s a = next at hstepped ⊢
  cases hstepped with
  | commit => exact absurd rfl (ha _)
  | _ => rfl

theorem opened_ext (hid : s.opened.get? id = none) (hid' : s'.opened.get? id = none)
    (h : ∀ other, other ≠ id → s.opened.get? other = s'.opened.get? other) :
    s.opened = s'.opened := by
  refine Table.ext_get? fun other => ?_
  by_cases hother : other = id
  · rw [hother, hid, hid']
  · exact h other hother

theorem Traced.pinned_congr (h : Traced s) (h' : Traced s') (hopened : s.opened = s'.opened) :
    s.store.pinned = s'.store.pinned := by
  refine Table.ext_get? fun seq => ?_
  have hholders : s.holders seq = s'.holders seq := by simp only [State.holders, hopened]
  rw [h.sound.pinned, h'.sound.pinned, hholders]

/-- The store of `s` is the store of `s'` after a single commit of `writes`, or the same if there
are none. -/
structure State.Gained (writes : Writes) (s s' : State Trace) : Prop where
  data : ∀ key, s.store.current.data.get? key =
    (writes.get? key).getD (s'.store.current.data.get? key)
  seq : s.store.current.seq = s'.store.current.seq + if writes.isEmpty then 0 else 1
  commits : s.commits.map Commit.writes =
    (if writes.isEmpty then [] else [writes]) ++ s'.commits.map Commit.writes
  pinned : s.store.pinned = s'.store.pinned

theorem Traced.gained (h : Traced s) (h' : Traced s') {writes : Writes} (note : Trace)
    (hcommits : s.commits = (if writes.isEmpty then [] else [⟨writes, note⟩]) ++ s'.commits)
    (hopened : s.opened = s'.opened) : s.Gained writes s' where
  data key := by
    rw [h.sound.data, h'.sound.data, hcommits]
    cases hempty : writes.isEmpty with
    | true => simp [Table.get?_eq_none_of_isEmpty hempty key]
    | false => rfl
  seq := by
    rw [h.sound.seq, h'.sound.seq, hcommits]
    split <;> simp
  commits := by
    rw [hcommits]
    split <;> rfl
  pinned := h.pinned_congr h' hopened

/-- `s'` is `s` without the transaction `id`. -/
structure Without (id : Nat) (s s' : State Trace) : Prop where
  traced : Traced s
  traced' : Traced s'
  absent : s'.opened.get? id = none
  opened : ∀ other, other ≠ id → s.opened.get? other = s'.opened.get? other
  commits : s.commits = s'.commits

namespace Without

theorem refl (h : Traced s) (hid : s.opened.get? id = none) : Without id s s :=
  ⟨h, h, hid, fun _ _ => rfl, rfl⟩

theorem seq (h : Without id s s') : s.store.current.seq = s'.store.current.seq := by
  rw [h.traced.sound.seq, h.traced'.sound.seq, h.commits]

theorem data (h : Without id s s') : s.store.current.data = s'.store.current.data := by
  refine Table.ext_get? fun key => ?_
  rw [h.traced.sound.data, h.traced'.sound.data, h.commits]

theorem step_aside (h : Without id s s') {a : Action} (ha : a.id ≠ id) :
    Without id (step Store.commit s a).2 (step Store.commit s' a).2 := by
  have habsent : (step Store.commit s' a).2.opened.get? id = none :=
    (opened_step s' (Ne.symm ha)).trans h.absent
  have hget := h.opened a.id ha
  suffices hsame : (∀ other, other ≠ id → (step Store.commit s a).2.opened.get? other =
      (step Store.commit s' a).2.opened.get? other) ∧
      (step Store.commit s a).2.commits = (step Store.commit s' a).2.commits from
    ⟨h.traced.step_commit a, h.traced'.step_commit a, habsent, hsame.1, hsame.2⟩
  have herase (other : Nat) (hother : other ≠ id) :
      (s.opened.erase a.id).get? other = (s'.opened.erase a.id).get? other := by
    simp only [Table.get?_erase, h.opened other hother]
  have hinsert (o : Open Trace) (other : Nat) (hother : other ≠ id) :
      (s.opened.insert a.id o).get? other = (s'.opened.insert a.id o).get? other := by
    simp only [Table.get?_insert, h.opened other hother]
  cases a with
  | start other readOnly =>
    simp only [step, Action.id] at hget hinsert ⊢
    rw [← hget]
    cases s.opened.get? other with
    | some o => exact ⟨h.opened, h.commits⟩
    | none =>
      refine ⟨?_, h.commits⟩
      simp only [State.start, Store.start, ← h.data, ← h.seq, ← h.commits]
      exact hinsert _
  | call other c =>
    simp only [step, Action.id] at hget hinsert ⊢
    rw [← hget]
    cases s.opened.get? other with
    | none => exact ⟨h.opened, h.commits⟩
    | some o => exact ⟨hinsert _, h.commits⟩
  | commit other =>
    simp only [step, Action.id] at hget herase ⊢
    rw [← hget]
    cases ho : s.opened.get? other with
    | none => exact ⟨h.opened, h.commits⟩
    | some o =>
      refine ⟨herase, ?_⟩
      -- The decision is read off the history, and that is the same in both states.
      have hresult := h.traced.same_outcome h.traced' ho (hget ▸ ho) h.commits Store.atInterval
        Store.atInterval
      rw [← Store.commit_eq_commitSweeping] at hresult
      simp only [State.commit] at hresult ⊢
      rw [hresult, h.commits]
  | rollback other | drop other =>
    simp only [step, Action.id] at hget herase ⊢
    rw [← hget]
    cases s.opened.get? other with
    | none => exact ⟨h.opened, h.commits⟩
    | some o => exact ⟨herase, h.commits⟩

/-- What the transaction itself does cannot be seen unless it adds to the history. -/
theorem step_own (h : Without id s s') {a : Action} (ha : a.id = id)
    (hcommits : (step Store.commit s a).2.commits = s.commits) :
    Without id (step Store.commit s a).2 s' where
  traced := h.traced.step_commit a
  traced' := h.traced'
  absent := h.absent
  opened other hother := (opened_step s (ha ▸ hother)).trans (h.opened other hother)
  commits := hcommits.trans h.commits

/-- A transaction that does not commit makes no difference to what others do. -/
theorem after (h : Without id s s') {actions : List Action} (hcommit : .commit id ∉ actions) :
    Without id (s.after actions) (s'.after (aside id actions)) := by
  induction actions generalizing s s' with
  | nil => exact h
  | cons a rest ih =>
    rw [List.mem_cons, not_or] at hcommit
    obtain ⟨ha, hrest⟩ := hcommit
    by_cases hid : a.id = id
    · have hskip : aside id (a :: rest) = aside id rest := by simp [aside, hid]
      rw [hskip]
      refine ih (h.step_own hid (commits_step s fun other hother => ?_)) hrest
      subst hother
      exact ha (congrArg Action.commit hid.symm)
    · have hkeep : aside id (a :: rest) = a :: aside id rest := by simp [aside, hid]
      rw [hkeep]
      exact ih (h.step_aside hid) hrest

end Without

end Interleaving

-- ---------------------------------------------------------------------------
-- The course of a run
-- ---------------------------------------------------------------------------

open Interleaving

/-- What happens to the store while some work runs in a transaction of its own, and what the work
returns. -/
structure Course (α : Type) where
  actions : List Action
  result : Except Failure α

namespace Course

variable {α : Type} (id : Nat)

def working (c : Course α) : List Action := .start id false :: c.actions

def ending (c : Course α) : Action :=
  match c.result with
  | .ok _ => .commit id
  | .error _ => .rollback id

def whole (c : Course α) : List Action := c.working id ++ [c.ending id]

def commitFailure : StoreError → Failure
  | .conflict => .conflict 1
  | e => .store e

/-- The outcome of a run that begins in the state `s`: what the work returns, unless the commit
fails. -/
def ended (c : Course α) (s : State Trace) : Except Failure α :=
  match c.result, (step Store.commit (s.after (c.working id)) (.commit id)).1 with
  | .ok _, some (.outcome (.error e)) => .error (commitFailure e)
  | result, _ => result

/-- What work begins with that is run in the state `s`: a new transaction, and the database. -/
def fresh (s : State Trace) (options : Options) (events : List Event) : Session × Database :=
  (⟨(s.store.start false).1, events⟩, ⟨(s.store.start false).2, options⟩)

/-- The work does what the course says if it runs in a transaction started in the state `s`. It
neither starts nor ends that transaction itself. -/
structure Describes (c : Course α) (work : Attempt α) (options : Options) (s : State Trace) :
    Prop where
  own : ∀ a ∈ c.actions, a.id = id → a.isCall = true
  run : ∀ events, ∃ o events', (s.after (c.working id)).opened.get? id = some o ∧
    work (fresh s options events) =
      (c.result, (⟨o.txn, events'⟩, ⟨(s.after (c.working id)).store, options⟩))

variable {id} {c : Course α} {s s' : State Trace} {o : Open Trace} {commits : List (Commit Trace)}

section Endings

variable (ho : (s.after (c.working id)).opened.get? id = some o)
include ho

theorem after_whole_error {e : Failure} (hresult : c.result = .error e) :
    s.after (c.whole id) = (s.after (c.working id)).abandon id o := by
  simp only [whole, ending, hresult, State.after_append, State.after_cons, State.after_nil, step, ho]

theorem after_whole_ok {v : α} (hresult : c.result = .ok v) :
    s.after (c.whole id) = ((s.after (c.working id)).commit id Store.commit o).2 := by
  simp only [whole, ending, hresult, State.after_append, State.after_cons, State.after_nil, step, ho]

theorem ended_ok {v : α} (hresult : c.result = .ok v) : c.ended id s =
    (((s.after (c.working id)).commit id Store.commit o).1.mapError commitFailure).map fun _ => v := by
  simp only [ended, hresult, step, ho]
  rcases ((s.after (c.working id)).commit id Store.commit o).1 with e | _ <;> rfl

omit ho in
theorem ended_error {e : Failure} (hresult : c.result = .error e) : c.ended id s = .error e := by
  simp only [ended, hresult]

theorem ended_eq_ok_iff {v : α} : c.ended id s = .ok v ↔ c.result = .ok v ∧
    (step Store.commit (s.after (c.working id)) (.commit id)).1 = some (.outcome (.ok ())) := by
  simp only [step, ho]
  cases hresult : c.result with
  | error e => simp [ended_error hresult]
  | ok v' =>
    rw [ended_ok ho hresult]
    rcases ((s.after (c.working id)).commit id Store.commit o).1 with e | _ <;>
      simp [Except.mapError, Except.map]

theorem closed : (s.after (c.whole id)).opened.get? id = none := by
  cases hresult : c.result with
  | error e => rw [after_whole_error ho hresult, State.abandon, Table.get?_erase, if_pos rfl]
  | ok v => rw [after_whole_ok ho hresult, State.commit, Table.get?_erase, if_pos rfl]

/-- Only a run that succeeds adds to the history. -/
theorem commits_of_error {e : Failure} (he : c.ended id s = .error e) :
    (s.after (c.whole id)).commits = (s.after (c.working id)).commits := by
  cases hresult : c.result with
  | error e => rw [after_whole_error ho hresult, State.abandon]
  | ok v =>
    rw [ended_ok ho hresult] at he
    rw [after_whole_ok ho hresult]
    simp only [State.commit] at he ⊢
    cases hcommit : ((s.after (c.working id)).store.commit o.txn).1 with
    | error e' => rfl
    | ok _ =>
      rw [hcommit] at he
      cases he

theorem commits_of_ok {v : α} (hv : c.ended id s = .ok v) (hsound : o.Sound commits) :
    (s.after (c.whole id)).commits =
      (if o.txn.writes.isEmpty then [] else [⟨o.txn.writes, o.note⟩]) ++
        (s.after (c.working id)).commits := by
  obtain ⟨hresult, hcommit⟩ := (ended_eq_ok_iff ho).mp hv
  simp only [step, ho, Option.some.injEq, Answer.outcome.injEq, State.commit] at hcommit
  rw [after_whole_ok ho hresult]
  simp only [State.commit, hcommit, State.commitsOf]
  cases hro : o.txn.readOnly with
  | true =>
    rw [hsound.stands.readOnly hro]
    rfl
  | false => rfl

end Endings

variable {work : Attempt α} {options : Options}

/-- The database runs the work and ends it as the course says. -/
theorem Describes.attempt (h : c.Describes id work options s) (events : List Event) :
    ∃ events', Database.attempt work ⟨⟨s.store, options⟩, events⟩ =
      (c.ended id s, ⟨⟨(s.after (c.whole id)).store, options⟩, events'⟩) := by
  obtain ⟨o, events', ho, hrun⟩ := h.run events
  unfold fresh at hrun
  unfold Database.attempt Database.start
  cases hresult : c.result with
  | error e =>
    rw [hresult] at hrun
    rw [ended_error hresult, after_whole_error ho hresult]
    exact ⟨events', by simp only [hrun, State.abandon]⟩
  | ok v =>
    rw [hresult] at hrun
    rw [ended_ok ho hresult, after_whole_ok ho hresult]
    simp only [hrun, Database.commit, State.commit]
    rcases (s.after (c.working id)).store.commit o.txn with ⟨e | _, store, more⟩
    · cases e <;> exact ⟨_, rfl⟩
    · exact ⟨_, rfl⟩

-- ---------------------------------------------------------------------------
-- What a run leaves behind
-- ---------------------------------------------------------------------------

theorem Describes.unseen (h : c.Describes id work options s) (hw : Without id s s') (n : Nat) :
    Without id (s.after ((c.working id).take n)) (s'.after (aside id ((c.working id).take n))) := by
  refine hw.after fun hcommit => ?_
  rcases List.mem_cons.mp (List.mem_of_mem_take hcommit) with hstart | hactions
  · cases hstart
  · cases h.own _ hactions rfl

theorem id_ending (c : Course α) : (c.ending id).id = id := by
  unfold ending
  split <;> rfl

theorem aside_whole (c : Course α) : aside id (c.whole id) = aside id (c.working id) := by
  simp [whole, aside, id_ending]

theorem Describes.worked (h : c.Describes id work options s) (hw : Without id s s') :
    Without id (s.after (c.working id)) (s'.after (aside id (c.whole id))) := by
  have hall := h.unseen hw (c.working id).length
  rwa [List.take_length, ← aside_whole] at hall

theorem Describes.failed (h : c.Describes id work options s) (hw : Without id s s') {e : Failure}
    (he : c.ended id s = .error e) :
    Without id (s.after (c.whole id)) (s'.after (aside id (c.whole id))) := by
  obtain ⟨o, -, ho, -⟩ := h.run []
  have hcommits := commits_of_error ho he
  simp only [whole, State.after_append, State.after_cons, State.after_nil] at hcommits ⊢
  exact (h.worked hw).step_own c.id_ending hcommits

theorem Describes.succeeded (h : c.Describes id work options s) (hw : Without id s s') {v : α}
    (hv : c.ended id s = .ok v) (ho : (s.after (c.working id)).opened.get? id = some o) :
    (s.after (c.whole id)).Gained o.txn.writes (s'.after (aside id (c.whole id))) := by
  have hworked := h.worked hw
  have hopened : (s.after (c.whole id)).opened = (s'.after (aside id (c.whole id))).opened := by
    refine opened_ext (closed ho) hworked.absent fun other hother => ?_
    rw [← hworked.opened other hother]
    simp only [whole, State.after_append, State.after_cons, State.after_nil]
    exact opened_step _ (c.id_ending ▸ hother)
  have hcommits := commits_of_ok ho hv (hworked.traced.sound.opened id o ho)
  rw [hworked.commits] at hcommits
  exact (hw.traced.after _).gained hworked.traced' o.note hcommits hopened

theorem attempt_congr {work' : Attempt α} {events : List Event}
    (h : work' (fresh s options events) = work (fresh s options events)) :
    Database.attempt work' ⟨⟨s.store, options⟩, events⟩ =
      Database.attempt work ⟨⟨s.store, options⟩, events⟩ := by
  unfold fresh at h
  simp only [Database.attempt, Database.start, h]

end Course

-- ---------------------------------------------------------------------------
-- One run after the other
-- ---------------------------------------------------------------------------

/-- The runs of a write, each with its course. The transaction of each run is open under `id`. -/
structure Runs (α : Type) where
  id : Nat
  start : State Trace
  course : Nat → Course α

namespace Runs

variable {α : Type} (r : Runs α)

def schedule : Nat → List Action
  | 0 => []
  | k + 1 => schedule k ++ (r.course k).whole r.id

def before (k : Nat) : State Trace := r.start.after (r.schedule k)

def worked (k : Nat) : State Trace := (r.before k).after ((r.course k).working r.id)

def outcome (k : Nat) : Except Failure α := (r.course k).ended r.id (r.before k)

/-- The state that the others would have reached by the beginning of the run `k` on their own. -/
def alone (k : Nat) : State Trace := r.start.after (aside r.id (r.schedule k))

def Describe (work : Nat → Attempt α) (options : Options) (made : Nat) : Prop :=
  ∀ k < made, (r.course k).Describes r.id (work k) options (r.before k)

/-- Another run may avoid what the run `k` ended with. -/
def Retryable (k : Nat) : Prop := ∃ e, r.outcome k = .error e ∧ e.isConflict = true

variable {r}

theorem before_succ (k : Nat) : r.before (k + 1) = (r.before k).after ((r.course k).whole r.id) :=
  State.after_append ..

theorem alone_succ (k : Nat) :
    r.alone (k + 1) = (r.alone k).after (aside r.id ((r.course k).whole r.id)) := by
  simp only [alone, schedule, aside_append, State.after_append]

variable {work : Nat → Attempt α} {options : Options} {total done left : Nat}

/-- A write that has made `done` runs is through after `made` of them. -/
structure Through (r : Runs α) (total done made : Nat) (result : Except Failure α) (store : Store) :
    Prop where
  le_total : made ≤ total
  store : store = (r.before made).store
  again : ∀ k, done ≤ k → k + 1 < made → r.Retryable k
  last : (∃ k, done ≤ k ∧ made = k + 1 ∧ result = r.outcome k ∧ ¬ r.Retryable k) ∨
    made = total ∧ result = .error (.conflict total) ∧ ∀ k, done ≤ k → k < total → r.Retryable k

theorem writeFrom_last (htotal : done + (left + 1) = total) {journal journal' : Journal}
    {result : Except Failure α} (hattempt : Database.attempt (work done) journal = (result, journal'))
    (hlast : ¬ ∃ e, result = .error e ∧ e.isConflict = true) :
    Database.writeFrom work total (left + 1) journal = ((result, done + 1), journal') := by
  have hdone : total - (left + 1) = done := by omega
  simp only [Database.writeFrom, hdone, hattempt]
  cases result with
  | ok v => rfl
  | error e => exact if_neg fun he => hlast ⟨e, rfl, he⟩

theorem writeFrom_again (htotal : done + (left + 1) = total) {journal journal' : Journal}
    {e : Failure} (hattempt : Database.attempt (work done) journal = (.error e, journal'))
    (he : e.isConflict = true) :
    Database.writeFrom work total (left + 1) journal =
      Database.writeFrom work total left ⟨journal'.db,
        if left = 0 then journal'.events else journal'.events ++ [.retrying (done + 1)]⟩ := by
  have hdone : total - (left + 1) = done := by omega
  simp only [Database.writeFrom, hdone, hattempt, he, if_true]
  split <;> rfl

theorem le_made (work : Nat → Attempt α) (htotal : done + left = total) (journal : Journal) :
    done + min left 1 ≤ (Database.writeFrom work total left journal).1.2 := by
  induction left generalizing done journal with
  | zero => simp [Database.writeFrom, ← htotal]
  | succ left ih =>
    rcases hattempt : Database.attempt (work done) journal with ⟨result, journal'⟩
    by_cases hlast : ∃ e, result = .error e ∧ e.isConflict = true
    · obtain ⟨e, rfl, he⟩ := hlast
      have hnext : done + 1 + left = total := by omega
      rw [writeFrom_again htotal hattempt he]
      exact Nat.le_trans (by omega) (ih hnext _)
    · rw [writeFrom_last htotal hattempt hlast]
      simp

theorem Through.earlier {made : Nat} {result : Except Failure α} {store : Store}
    (h : r.Through total (done + 1) made result store) (hretry : r.Retryable done) :
    r.Through total done made result store where
  le_total := h.le_total
  store := h.store
  again k hle hlt := by
    rcases Nat.eq_or_lt_of_le hle with rfl | hlater
    · exact hretry
    · exact h.again k hlater hlt
  last := by
    rcases h.last with ⟨k, hle, hlast⟩ | ⟨hmade, hresult, hall⟩
    · exact .inl ⟨k, Nat.le_of_succ_le hle, hlast⟩
    · refine .inr ⟨hmade, hresult, fun k hle hlt => ?_⟩
      rcases Nat.eq_or_lt_of_le hle with rfl | hlater
      · exact hretry
      · exact hall k hlater hlt

theorem attempt_eq (hdescribes : (r.course done).Describes r.id (work done) options (r.before done))
    (events : List Event) :
    ∃ events', Database.attempt (work done) ⟨⟨(r.before done).store, options⟩, events⟩ =
      (r.outcome done, ⟨⟨(r.before (done + 1)).store, options⟩, events'⟩) := by
  rw [before_succ]
  exact hdescribes.attempt events

theorem through_writeFrom (htotal : done + left = total) (events : List Event)
    (hruns : r.Describe work options
      (Database.writeFrom work total left ⟨⟨(r.before done).store, options⟩, events⟩).1.2) :
    let written := Database.writeFrom work total left ⟨⟨(r.before done).store, options⟩, events⟩
    r.Through total done written.1.2 written.1.1 written.2.db.store := by
  induction left generalizing done events with
  | zero =>
    obtain rfl : done = total := htotal
    refine ⟨Nat.le_refl _, rfl, fun k hle hlt => ?_, .inr ⟨rfl, rfl, fun k hle hlt => ?_⟩⟩
    · simp only [Database.writeFrom] at hlt
      omega
    · exact absurd hlt (Nat.not_lt_of_le hle)
  | succ left ih =>
    have hmade := le_made work htotal ⟨⟨(r.before done).store, options⟩, events⟩
    obtain ⟨events', hattempt⟩ := attempt_eq (hruns done (by omega)) events
    by_cases hretry : r.Retryable done
    · obtain ⟨e, hended, he⟩ := hretry
      rw [hended] at hattempt
      rw [writeFrom_again htotal hattempt he] at hruns ⊢
      exact (ih (by omega) _ hruns).earlier ⟨e, hended, he⟩
    · rw [writeFrom_last htotal hattempt hretry]
      refine ⟨?_, rfl, fun k hle hlt => ?_, .inl ⟨done, Nat.le_refl _, rfl, rfl, hretry⟩⟩
      · simp only
        omega
      · simp only at hlt
        omega

/-- A write depends on what the work does in new transactions, and in no more of them than it makes
runs. -/
theorem writeFrom_congr {work' : Nat → Attempt α} (htotal : done + left = total)
    (events : List Event) {made : Nat}
    (hmade : made =
      (Database.writeFrom work total left ⟨⟨(r.before done).store, options⟩, events⟩).1.2)
    (hruns : r.Describe work options made)
    (hsame : ∀ k < made, ∀ events, work' k (Course.fresh (r.before k) options events) =
      work k (Course.fresh (r.before k) options events)) :
    Database.writeFrom work' total left ⟨⟨(r.before done).store, options⟩, events⟩ =
      Database.writeFrom work total left ⟨⟨(r.before done).store, options⟩, events⟩ := by
  induction left generalizing done events with
  | zero => rfl
  | succ left ih =>
    have hle := le_made work htotal ⟨⟨(r.before done).store, options⟩, events⟩
    have hlt : done < made := by omega
    obtain ⟨events', hattempt⟩ := attempt_eq (hruns done hlt) events
    have hattempt' := (Course.attempt_congr (hsame done hlt events)).trans hattempt
    by_cases hretry : r.Retryable done
    · obtain ⟨e, hended, he⟩ := hretry
      rw [hended] at hattempt hattempt'
      rw [writeFrom_again htotal hattempt he] at hmade
      rw [writeFrom_again htotal hattempt he, writeFrom_again htotal hattempt' he]
      exact ih (by omega) _ hmade
    · rw [writeFrom_last htotal hattempt hretry, writeFrom_last htotal hattempt' hretry]

section Whole

variable {journal : Journal} (hstore : journal.db.store = r.start.store)
  (hruns : r.Describe work journal.db.options (Database.writeCounted work journal).1.2)
include hstore hruns

theorem through_write : r.Through (max journal.db.options.retry.maxAttempts 1) 0
    (Database.writeCounted work journal).1.2 (Database.write work journal).1
    (Database.write work journal).2.db.store := by
  obtain ⟨⟨store, options⟩, events⟩ := journal
  obtain rfl : store = r.start.store := hstore
  exact through_writeFrom (Nat.zero_add _) events hruns

theorem write_congr {work' : Nat → Attempt α}
    (hsame : ∀ k < (Database.writeCounted work journal).1.2, ∀ events,
      work' k (Course.fresh (r.before k) journal.db.options events) =
        work k (Course.fresh (r.before k) journal.db.options events)) :
    Database.write work' journal = Database.write work journal := by
  obtain ⟨⟨store, options⟩, events⟩ := journal
  obtain rfl : store = r.start.store := hstore
  have hcongr := writeFrom_congr (Nat.zero_add _) events rfl hruns hsame
  exact Prod.ext (congrArg (·.1.1) hcongr) (congrArg (·.2) hcongr)

end Whole

-- ---------------------------------------------------------------------------
-- Once or not at all
-- ---------------------------------------------------------------------------

section Effects

variable {made : Nat} (hstart : Traced r.start) (hid : r.start.opened.get? r.id = none)
  (hruns : r.Describe work options made)
include hid hruns

include hstart in
/-- As long as every run fails, the others cannot tell that there are any. -/
theorem without_before {k : Nat} (hk : k ≤ made) (hfail : ∀ j < k, ∃ e, r.outcome j = .error e) :
    Without r.id (r.before k) (r.alone k) := by
  induction k with
  | zero => exact .refl hstart hid
  | succ k ih =>
    obtain ⟨e, he⟩ := hfail k (Nat.lt_succ_self k)
    rw [before_succ, alone_succ]
    have hw := ih (Nat.le_of_succ_le hk) fun j hj => hfail j (Nat.lt_succ_of_lt hj)
    exact (hruns k hk).failed hw he

theorem closed_before {k : Nat} (hk : k ≤ made) : (r.before k).opened.get? r.id = none := by
  cases k with
  | zero => exact hid
  | succ k =>
    obtain ⟨o, -, ho, -⟩ := (hruns k hk).run []
    rw [before_succ]
    exact Course.closed ho

end Effects

/-- The runs `0` to `last` out of `total` come to a single commit, or to nothing. -/
structure Once (r : Runs α) (total last : Nat) (result : Except Failure α) (store : Store) :
    Prop where
  lt_total : last < total
  store : store = (r.before (last + 1)).store
  again : ∀ k < last, r.Retryable k
  ok_iff : ∀ v, result = .ok v ↔ (r.course last).result = .ok v ∧
    (step Store.commit (r.worked last) (.commit r.id)).1 = some (.outcome (.ok ()))
  /-- A failure that is no conflict is the last one. -/
  fatal : ∀ k ≤ last, ∀ e, r.outcome k = .error e → e.isConflict = false →
    k = last ∧ result = .error e
  conflict_iff : ∀ n, result = .error (.conflict n) ↔
    n = total ∧ last + 1 = total ∧ ∀ k < total, r.Retryable k
  /-- No run shows before its work has returned. -/
  unseen : ∀ k ≤ last, ∀ n, let during := ((r.course k).working r.id).take n
    ((r.before k).after during).store.current.data =
      ((r.alone k).after (aside r.id during)).store.current.data
  failed : ∀ e, result = .error e → (r.before (last + 1)).Gained ∅ (r.alone (last + 1))
  succeeded : ∀ v, result = .ok v → ∃ o, (r.worked last).opened.get? r.id = some o ∧
    (r.before (last + 1)).Gained o.txn.writes (r.alone (last + 1))

section Once

variable {last : Nat} {result : Except Failure α} {store : Store}
  (h : r.Through total 0 (last + 1) result store)
include h

theorem Through.result_cases : result = r.outcome last ∧ ¬ r.Retryable last ∨
    last + 1 = total ∧ result = .error (.conflict total) ∧ r.Retryable last := by
  rcases h.last with ⟨k, -, hk, hresult, hnot⟩ | ⟨htotal, hresult, hall⟩
  · obtain rfl : last = k := Nat.succ.inj hk
    exact .inl ⟨hresult, hnot⟩
  · exact .inr ⟨htotal, hresult, hall last (Nat.zero_le _) (by omega)⟩

theorem Through.retryable_of_lt {k : Nat} (hk : k < last) : r.Retryable k :=
  h.again k (Nat.zero_le _) (Nat.succ_lt_succ hk)

theorem Through.result_ok_iff {v : α} : result = .ok v ↔ r.outcome last = .ok v := by
  rcases h.result_cases with ⟨hresult, -⟩ | ⟨-, hresult, e, he, -⟩
  · rw [hresult]
  · rw [hresult, he]
    exact ⟨nofun, nofun⟩

theorem Through.error_of_result {e : Failure} (he : result = .error e) :
    ∀ k < last + 1, ∃ e', r.outcome k = .error e' := by
  intro k hk
  rcases Nat.lt_or_eq_of_le (Nat.le_of_lt_succ hk) with hlt | rfl
  · obtain ⟨e', he', -⟩ := h.retryable_of_lt hlt
    exact ⟨e', he'⟩
  · cases hend : r.outcome k with
    | error e' => exact ⟨e', rfl⟩
    | ok v => cases (h.result_ok_iff.mpr hend).symm.trans he

theorem Through.fatal {k : Nat} (hk : k ≤ last) {e : Failure} (he : r.outcome k = .error e)
    (hfatal : e.isConflict = false) : k = last ∧ result = .error e := by
  have hnot : ¬ r.Retryable k := by
    rintro ⟨e', he', hconflict⟩
    cases he.symm.trans he'
    simp [hfatal] at hconflict
  obtain rfl : k = last := by
    by_contra hne
    exact hnot (h.retryable_of_lt (Nat.lt_of_le_of_ne hk hne))
  rcases h.result_cases with ⟨hresult, -⟩ | ⟨-, -, hretry⟩
  · exact ⟨rfl, hresult.trans he⟩
  · exact absurd hretry hnot

theorem Through.conflict_iff (n : Nat) : result = .error (.conflict n) ↔
    n = total ∧ last + 1 = total ∧ ∀ k < total, r.Retryable k := by
  rcases h.result_cases with ⟨hresult, hnot⟩ | ⟨htotal, hresult, hretry⟩
  · constructor
    · exact fun he => absurd ⟨_, hresult.symm.trans he, rfl⟩ hnot
    · rintro ⟨-, htotal, hall⟩
      exact absurd (hall last (by omega)) hnot
  · rw [hresult, Except.error.injEq, Failure.conflict.injEq]
    refine ⟨fun hn => ⟨hn.symm, htotal, fun k hk => ?_⟩, fun hn => hn.1.symm⟩
    rcases Nat.lt_or_eq_of_le (Nat.le_of_lt_succ (htotal ▸ hk)) with hlt | rfl
    · exact h.retryable_of_lt hlt
    · exact hretry

theorem Through.once (hstart : Traced r.start) (hid : r.start.opened.get? r.id = none)
    (hruns : r.Describe work options (last + 1)) : r.Once total last result store := by
  have hlast := Nat.lt_succ_self last
  have hwithout {k : Nat} (hk : k ≤ last) : Without r.id (r.before k) (r.alone k) := by
    refine without_before hstart hid hruns (Nat.le_succ_of_le hk) fun j hj => ?_
    obtain ⟨e, he, -⟩ := h.retryable_of_lt (Nat.lt_of_lt_of_le hj hk)
    exact ⟨e, he⟩
  obtain ⟨o, -, ho, -⟩ := (hruns last hlast).run []
  refine ⟨h.le_total, h.store, fun k hk => h.retryable_of_lt hk, fun v => ?_, fun k hk e => h.fatal hk,
    h.conflict_iff, fun k hk n => ?_, fun e he => ?_, fun v hv => ?_⟩
  · rw [h.result_ok_iff]
    exact Course.ended_eq_ok_iff ho
  · exact ((hruns k (Nat.lt_succ_of_le hk)).unseen (hwithout hk) n).data
  · have hw := without_before hstart hid hruns (Nat.le_refl _) (h.error_of_result he)
    have hclosed := closed_before hid hruns (Nat.le_refl _)
    exact hw.traced.gained hw.traced' [] hw.commits (opened_ext hclosed hw.absent hw.opened)
  · refine ⟨o, ho, ?_⟩
    rw [before_succ, alone_succ]
    exact (hruns last hlast).succeeded (hwithout (Nat.le_refl _)) (h.result_ok_iff.mp hv) ho

end Once

end Runs

/-- Whatever work does in its runs and others do meanwhile, a write makes at least one run and no
more than it is allowed, each in a new transaction. It returns a value if the last run does so and
then commits, and then the store has changed by the writes of that run in one commit. Otherwise it
returns an error and the others have the store to themselves. -/
theorem write_once {α : Type} {actions : List Action} {r : Runs α} {work : Nat → Attempt α}
    {journal : Journal} (hstart : r.start = reached actions)
    (hid : r.start.opened.get? r.id = none) (hstore : journal.db.store = r.start.store)
    (hruns : r.Describe work journal.db.options (Database.writeCounted work journal).1.2) :
    let made := (Database.writeCounted work journal).1.2
    let written := Database.write work journal
    (∃ last, made = last + 1 ∧
      r.Once (max journal.db.options.retry.maxAttempts 1) last written.1 written.2.db.store) ∧
    ∀ work', (∀ k < made, ∀ events, work' k (Course.fresh (r.before k) journal.db.options events) =
        work k (Course.fresh (r.before k) journal.db.options events)) →
      Database.write work' journal = Database.write work journal := by
  constructor
  · have hmade : 0 < (Database.writeCounted work journal).1.2 :=
      Nat.lt_of_lt_of_le (by omega) (Runs.le_made work (Nat.zero_add _) journal)
    obtain ⟨last, hlast⟩ := Nat.exists_eq_succ_of_ne_zero (Nat.ne_of_gt hmade)
    have hthrough := Runs.through_write hstore hruns
    rw [hlast] at hthrough hruns
    exact ⟨last, hlast, hthrough.once (hstart ▸ traced_reached actions) hid hruns⟩
  · exact fun work' hsame => Runs.write_congr hstore hruns hsame

/-- Puts a byte behind what a key holds. In its first run another write gets in between. -/
def putBehind (run : Nat) : Attempt Unit := do
  let found ← .ofWork (Work.ofReading (Reading.get [1]))
  if run = 0 then
    .ofOperation (Database.write fun _ => .ofWork (Work.adapt .ofEngine (Work.put [1] [7])))
  .ofWork (Work.adapt .ofEngine (Work.put [1] (found.getD [] ++ [8])))

def putBehindRuns : Runs Unit where
  id := 1
  start := .initial
  course
    | 0 => ⟨[.call 1 (.get [1]), .start 2 false, .call 2 (.put [1] [7]), .commit 2,
        .call 1 (.put [1] [8])], .ok ()⟩
    | _ => ⟨[.call 1 (.get [1]), .call 1 (.put [1] [7, 8])], .ok ()⟩

theorem describe_putBehind : putBehindRuns.Describe putBehind .default 2 := by
  intro k hk
  match k with
  | 0 => exact ⟨by decide, fun events => ⟨_, _, rfl, rfl⟩⟩
  | 1 => exact ⟨by decide, fun events => ⟨_, _, rfl, rfl⟩⟩

/-- The first run loses a conflict and leaves nothing; the second one puts its byte behind the byte
that got in between. -/
theorem write_once_putBehind :
    let journal : Journal := ⟨⟨Store.empty, .default⟩, []⟩
    let r := putBehindRuns
    r.start = reached [] ∧ r.start.opened.get? r.id = none ∧ journal.db.store = r.start.store ∧
      r.Describe putBehind journal.db.options (Database.writeCounted putBehind journal).1.2 ∧
      r.Retryable 0 ∧ (Database.write putBehind journal).1 = .ok () ∧
      ∃ o, (r.worked 1).opened.get? r.id = some o ∧ o.txn.writes.entries = [([1], some [7, 8])] ∧
        (r.before 2).Gained o.txn.writes (r.alone 2) := by
  intro journal r
  have hmade : (Database.writeCounted putBehind journal).1.2 = 2 := by decide +kernel
  have hresult : (Database.write putBehind journal).1 = .ok () := by decide +kernel
  have hruns : r.Describe putBehind journal.db.options
      (Database.writeCounted putBehind journal).1.2 := by
    rw [hmade]
    exact describe_putBehind
  have hstart : r.start = reached [] := rfl
  obtain ⟨⟨last, hlast, honce⟩, -⟩ := write_once hstart rfl rfl hruns
  obtain rfl : last = 1 := by omega
  obtain ⟨o, ho, hgained⟩ := honce.succeeded () hresult
  refine ⟨hstart, rfl, rfl, hruns, honce.again 0 Nat.one_pos, hresult, o, ho, ?_, hgained⟩
  have hwrites : ((r.worked 1).opened.get? r.id).map (·.txn.writes.entries) =
      some [([1], some [7, 8])] := by decide +kernel
  rw [ho] at hwrites
  exact Option.some.inj hwrites

end DocStore
