import DocStore.Proofs.Exchange
import DocStore.Records

/-!
# Answers in advance

What a predicate asks for on the way does not change during a search. So a query finds the same if
each of its predicates gets the outcomes that its queries have when they run on their own in the same
transaction (`find_settled`): it makes no difference that they run in the middle of a scan, which they
interrupt and whose bookmark they use. Predicates can be changed in this way because tests that answer
alike can be exchanged (`interchangeable_settled`).
-/

namespace DocStore

variable {α : Type}

-- ---------------------------------------------------------------------------
-- Predicates that are told the outcomes
-- ---------------------------------------------------------------------------

namespace Records

variable {settings : Settings} {session : Session}

def scene (settings : Settings) (session : Session) : Scene :=
  ⟨session.txn.view, settings.codec, settings.batchSize⟩

def trail (session : Session) : Trail := ⟨session.txn.reads, session.events, .start⟩

theorem searching_run (work : Scene → Exec α) (session : Session) :
    searching settings work session =
      let ran := work (scene settings session) (trail session)
      (ran.1, { txn := { session.txn with reads := ran.2.reads }, events := ran.2.events }) := rfl

theorem find_answer (entity : Entity) (q : Query Predicate) :
    (find settings entity q session).1 = (Search.findDocuments (scene settings session) entity
      (q.ready (scene settings session)) (trail session)).1 := by
  simp only [find, schema, findRows, searching_run, Search.findDocuments, run_bind, Work.ofExcept,
    Exec.ofExcept]
  cases entity.validSchema with
  | error e => rfl
  | ok schema =>
    dsimp only
    rcases Search.findRows (scene settings session) schema (q.ready (scene settings session))
      (trail session) with ⟨_ | _, _⟩ <;> rfl

theorem aggregate_answer (entity : Entity) (q : Query Predicate) (fields : List String) :
    (aggregate settings entity q fields session).1 =
      (Search.aggregateEntity (scene settings session) entity (q.ready (scene settings session))
        fields (trail session)).1 := by
  simp only [aggregate, schema, searching_run, Search.aggregateEntity, run_bind, Work.ofExcept,
    Exec.ofExcept]
  cases entity.validSchema <;> rfl

end Records

/-- What the predicate comes to if its queries have the outcomes that they have when they run on their
own in the session. -/
def Inquiry.settle (settings : Settings) (session : Session) : Inquiry → Except Failure Bool
  | .answer holds => .ok holds
  | .fail failure => .error failure
  | .find entity query next =>
    (next (Records.find settings entity query session).1).settle settings session
  | .aggregate entity query fields next =>
    (next (Records.aggregate settings entity query fields session).1).settle settings session

/-- The predicate that asks for nothing, but is told the outcomes. -/
def Predicate.settled (settings : Settings) (session : Session) (p : Predicate) : Predicate :=
  fun value doc => .ofExcept ((p value doc).settle settings session)

def Query.settled (settings : Settings) (session : Session) (q : Query Predicate) : Query Predicate :=
  q.map (Predicate.settled settings session)

section Settled

variable (settings : Settings) (session : Session)

theorem Inquiry.run_settle (trail : Trail) (inquiry : Inquiry) :
    (inquiry.run (Records.scene settings session) trail).1 = inquiry.settle settings session := by
  cases inquiry with
  | answer holds => rfl
  | fail failure => rfl
  | find entity query next =>
    have hsteady : Steady (Search.findDocuments (Records.scene settings session) entity
        (query.ready (Records.scene settings session))) :=
      Search.findDocuments_steady (query.ready_steady _) entity
    rw [Inquiry.settle, Records.find_answer, hsteady.answer (Records.trail session) trail]
    exact Inquiry.run_settle _ (next _)
  | aggregate entity query fields next =>
    have hsteady : Steady (Search.aggregateEntity (Records.scene settings session) entity
        (query.ready (Records.scene settings session)) fields) :=
      Search.aggregateEntity_steady (query.ready_steady _) entity fields
    rw [Inquiry.settle, Records.aggregate_answer, hsteady.answer (Records.trail session) trail]
    exact Inquiry.run_settle _ (next _)

end Settled

section Ready

variable (scene : Scene)

theorem readyClauses_eq_map (clauses : List (Clause Predicate)) :
    readyClauses scene clauses =
      clauses.map (Clause.map fun p value doc => (p value doc).run scene) := by
  induction clauses with
  | nil => rfl
  | cons c rest ih =>
    obtain ⟨field, criterion⟩ := c
    rw [readyClauses, List.map_cons, ih]
    cases criterion <;> rfl

mutual
theorem Query.ready_eq_map :
    (q : Query Predicate) → q.ready scene = q.map fun p value doc => (p value doc).run scene
  | ⟨clauses, ors, _, _, _, _, _, _⟩ => by
    rw [Query.ready, Query.map, readyOrs_eq_map ors, readyClauses_eq_map]
theorem readyOrs_eq_map : (ors : List (Query Predicate)) →
    readyOrs scene ors = Query.mapOrs (fun p value doc => (p value doc).run scene) ors
  | [] => rfl
  | q :: rest => by rw [readyOrs, Query.mapOrs, Query.ready_eq_map q, readyOrs_eq_map rest]
end

end Ready

/-- Asking in the middle of a scan is as good as being told in advance. -/
theorem interchangeable_settled (settings : Settings) (session : Session) :
    Interchangeable true
      (fun (p : Predicate) value doc => (p value doc).run (Records.scene settings session))
      (fun p value doc => (p.settled settings session value doc).run (Records.scene settings session)) where
  left p value doc := Inquiry.run_steady _ (p value doc)
  right p value doc := Inquiry.run_steady _ (p.settled settings session value doc)
  same p value doc trail _ := by
    rw [Inquiry.run_settle, Predicate.settled]
    cases (p value doc).settle settings session <;> rfl

theorem find_settled (settings : Settings) (entity : Entity) (q : Query Predicate)
    (session : Session) :
    (Records.find settings entity q session).1 =
      (Records.find settings entity (q.settled settings session) session).1 := by
  rw [Records.find_answer, Records.find_answer, Query.settled, Query.ready_eq_map, Query.ready_eq_map,
    Query.map_map]
  exact Search.findDocuments_echo (interchangeable_settled settings session)
    (fun schema _ => Scene.shows_refl _ schema) (.inl (.inl rfl)) _ (.inl rfl)

end DocStore
