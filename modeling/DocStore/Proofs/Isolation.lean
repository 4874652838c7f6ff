import DocStore.Proofs.Batches

/-!
# Types apart

All types share one space of keys, and scans go by how keys begin. Yet an operation on one type changes
nothing of another one, and nothing that is asked about the other one has another answer afterwards
(`isolated`), unless a predicate asks about the first type itself (`Inquiry.Avoids`). The names of types
may begin with each other. Dropping an index takes away its entries, and nothing else of its own type.
-/

namespace DocStore

variable {α β : Type} {settings : Settings} {session session' : Session} {typeName : String}

-- ---------------------------------------------------------------------------
-- Views that differ in one type
-- ---------------------------------------------------------------------------

/-- Nothing differs but what belongs to the type. -/
def Data.SameBesides (typeName : String) (view view' : Data) : Prop :=
  ∀ k : Key, Schema.hasChar k.typeName '\x00' = false → k.typeName ≠ typeName →
    view'.get? k.encode = view.get? k.encode

theorem Data.SameBesides.sameFor {schema : Schema} {view view' : Data}
    (h : SameBesides typeName view view') (hcheck : schema.check = .ok ())
    (hother : schema.typeName ≠ typeName) : SameFor schema view view' where
  record pk := h (.record schema.typeName pk) (Schema.named_of_check hcheck).typeName hother
  entry spec _ value :=
    h (.index schema.typeName spec.name value) (Schema.named_of_check hcheck).typeName hother

theorem Mutation.MayWrite.exists_key {m : Mutation} {key : Bytes} (h : m.MayWrite key) :
    ∃ k : Key, k.encode = key ∧ k.typeName = m.entity.schema.typeName := by
  rcases h with ⟨pk, rfl | ⟨spec, -, value, rfl⟩⟩ | ⟨-, rfl⟩
  · exact ⟨.record _ pk, rfl, rfl⟩
  · exact ⟨.index _ spec.name value, rfl, rfl⟩
  · exact ⟨.sequence _, rfl, rfl⟩

theorem Mutation.work_besides (settings : Settings) (session : Session) {m : Mutation}
    (hcheck : m.entity.schema.check = .ok ()) : Data.SameBesides m.entity.schema.typeName
      session.txn.view (m.work settings session).2.txn.view := by
  intro k hname hother
  refine (m.work_within settings session).view _ fun hwrites => ?_
  obtain ⟨k', heq, htype⟩ := hwrites.exists_key
  have hname' : Schema.hasChar k'.typeName '\x00' = false :=
    htype ▸ (Schema.named_of_check hcheck).typeName
  exact hother ((Key.typeName_inj hname hname' heq.symm).trans htype)

-- ---------------------------------------------------------------------------
-- Answers
-- ---------------------------------------------------------------------------

theorem run_bind_congr {ε σ : Type} {w : ExceptT ε (StateM σ) α} {f : α → ExceptT ε (StateM σ) β}
    {s s' : σ} (hw : (w s').1 = (w s).1)
    (hf : ∀ a, (w s).1 = .ok a → (f a (w s').2).1 = (f a (w s).2).1) :
    ((w >>= f) s').1 = ((w >>= f) s).1 := by
  rw [run_bind, run_bind]
  rcases hrun : w s with ⟨result, t⟩
  rcases hrun' : w s' with ⟨result', t'⟩
  rw [hrun, hrun'] at hw hf
  cases hw
  cases result with
  | error e => rfl
  | ok a => exact hf a rfl

namespace Records

theorem load_congr {schema : Schema} {pk : Bytes} (h : session'.txn.view.get? (recordKey schema pk) =
      session.txn.view.get? (recordKey schema pk)) :
    (load settings schema pk session').1 = (load settings schema pk session).1 := by
  obtain ⟨t, events⟩ := session
  obtain ⟨t', events'⟩ := session'
  cases hget : t.view.get? (recordKey schema pk) with
  | none => rw [load_absent hget, load_absent (h.trans hget)]
  | some bytes => rw [load_present hget, load_present (h.trans hget)]

theorem get_congr {entity : Entity} (key : PrimaryKey)
    (h : ∀ pk, session'.txn.view.get? (recordKey entity.schema pk) =
      session.txn.view.get? (recordKey entity.schema pk)) :
    (get settings entity key session').1 = (get settings entity key session).1 := by
  refine run_bind_congr rfl fun schema hschema => run_bind_congr rfl fun pk _ => ?_
  obtain ⟨-, rfl⟩ := Entity.validSchema_ok hschema
  refine run_bind_congr (load_congr (h pk)) fun found _ => ?_
  cases found <;> rfl

end Records

theorem Sequence.next_congr {typeName : String} (hro : session'.txn.readOnly = session.txn.readOnly)
    (h : session'.txn.view.get? (counterKey typeName) = session.txn.view.get? (counterKey typeName)) :
    (next typeName session').1 = (next typeName session).1 := by
  simp only [next, ← counterKey.eq_def, run_bind, Work.ofReading, Reading.get, Work.ofExcept, h]
  cases following typeName (session.txn.view.get? (counterKey typeName)) with
  | error e => rfl
  | ok n =>
    simp only [Work.put, Transaction.put, hro]
    cases session.txn.readOnly <;> rfl

-- ---------------------------------------------------------------------------
-- Questions about other types
-- ---------------------------------------------------------------------------

/-- No query that is asked on the way is about the type. -/
inductive Inquiry.Avoids (settings : Settings) (session : Session) (typeName : String) : Inquiry → Prop
  | answer (holds : Bool) : Avoids settings session typeName (.answer holds)
  | fail (failure : Failure) : Avoids settings session typeName (.fail failure)
  | find {entity : Entity} {query : Query Predicate} {next : Except Failure (List Document) → Inquiry}
      (hentity : entity.schema.typeName ≠ typeName)
      (hpredicates : ∀ p, query.Uses p → ∀ value doc, Avoids settings session typeName (p value doc))
      (hnext : Avoids settings session typeName
        (next (Records.find settings entity query session).1)) :
      Avoids settings session typeName (.find entity query next)
  | aggregate {entity : Entity} {query : Query Predicate} {fields : List String}
      {next : Except Failure (List Group) → Inquiry} (hentity : entity.schema.typeName ≠ typeName)
      (hpredicates : ∀ p, query.Uses p → ∀ value doc, Avoids settings session typeName (p value doc))
      (hnext : Avoids settings session typeName
        (next (Records.aggregate settings entity query fields session).1)) :
      Avoids settings session typeName (.aggregate entity query fields next)

def Query.Avoids (settings : Settings) (session : Session) (typeName : String) (q : Query Predicate) :
    Prop :=
  ∀ p, q.Uses p → ∀ value doc, (p value doc).Avoids settings session typeName

theorem Exec.Echo.answer {w w' : Exec α} (h : w.Echo true w') (hsteady : Steady w') (t t' : Trail) :
    (w' t').1 = (w t).1 :=
  (hsteady.answer t' t).trans (h t (.inl rfl)).symm

/-- Wherever they run, both have the outcome that the first one has on some trail. -/
theorem Exec.Echo.outcome {w w' : Exec α} (h : w.Echo true w') (hsteady : Steady w) (t t' : Trail) :
    (w t').1 = (w t).1 ∧ (w' t').1 = (w t).1 :=
  have hleft : (w t').1 = (w t).1 := hsteady.answer t' t
  ⟨hleft, (h t' (.inl rfl)).symm.trans hleft⟩

theorem Data.SameBesides.shows (settings : Settings) {entity : Entity}
    (hsame : Data.SameBesides typeName session.txn.view session'.txn.view)
    (hentity : entity.schema.typeName ≠ typeName) :
    ∀ schema, entity.validSchema = .ok schema →
      (Records.scene settings session).Shows (Records.scene settings session') schema := by
  intro schema hschema
  obtain ⟨hcheck, rfl⟩ := Entity.validSchema_ok hschema
  exact ⟨rfl, hsame.sameFor hcheck hentity⟩

/-- A predicate that avoids a type cannot tell what happens to it. -/
theorem Inquiry.Avoids.run_echo {inquiry : Inquiry} (h : inquiry.Avoids settings session typeName)
    (hsame : Data.SameBesides typeName session.txn.view session'.txn.view) :
    Exec.Echo true (inquiry.run (Records.scene settings session))
      (inquiry.run (Records.scene settings session')) := by
  induction h with
  | answer holds => exact fun _ _ => rfl
  | fail failure => exact fun _ _ => rfl
  | @find entity query next hentity hpredicates hnext ihPredicates ihNext =>
    have hecho := Search.findDocuments_ready ihPredicates (hsame.shows settings hentity) (.inl (.inl rfl))
    refine run_echo_of_outcome (fun trail _ => ?_) ihNext
    rw [Records.find_answer]
    exact hecho.outcome (Search.findDocuments_steady (query.ready_steady _) entity) _ trail
  | @aggregate entity query fields next hentity hpredicates hnext ihPredicates ihNext =>
    have hecho :=
      Search.aggregateEntity_ready ihPredicates (hsame.shows settings hentity) (.inl (.inl rfl)) fields
    refine run_echo_of_outcome (fun trail _ => ?_) ihNext
    rw [Records.aggregate_answer]
    exact hecho.outcome (Search.aggregateEntity_steady (query.ready_steady _) entity fields) _ trail

-- ---------------------------------------------------------------------------
-- Dropping an index
-- ---------------------------------------------------------------------------

def Data.under (view : Data) (start : Bytes) : Data := view.filter fun entry => start.isPrefixOf entry.1

namespace Index

theorem deleteAll_clears (entries : List Bytes) (session : Session) :
    Triple (deleteAll entries) session
      (fun _ s => ∀ key, s.txn.view.get? key = if key ∈ entries then none else session.txn.view.get? key)
      (fun _ => session.txn.readOnly = true) := by
  induction entries generalizing session with
  | nil => exact Triple.pure fun key => by rw [if_neg List.not_mem_nil]
  | cons first rest ih =>
    obtain ⟨t, events⟩ := session
    cases hro : t.readOnly with
    | true => exact Triple.bind_of_run_error (delete_readOnly hro first events) rfl
    | false =>
      refine Triple.bind_of_run (delete_run hro first events)
        ((ih ⟨t.assign first none, events⟩).mono (fun _ s hview key => ?_)
          fun _ hfail => hro.symm.trans hfail)
      rw [hview key, Transaction.view_assign]
      by_cases hrest : key ∈ rest
      · rw [if_pos hrest, if_pos (List.mem_cons_of_mem _ hrest)]
      · simp only [List.mem_cons, hrest, or_false, if_false]

theorem remove_clears {schema : Schema} {name : String} {spec : IndexSpec}
    (hfind : schema.findIndex name = some spec) (session : Session) :
    Triple (remove schema name) session
      (fun n s => n = (session.txn.view.under (Key.indexPrefix schema.typeName spec.name)).size ∧
        ∀ value, s.txn.view.get? (entryAt schema spec value) = none)
      (fun _ => session.txn.readOnly = true) := by
  let start := Key.indexPrefix schema.typeName spec.name
  let found := session.txn.view.scan start
  have hrest : found = session.txn.view.rest start none := Data.scan_eq_rest _ _
  have hfound : found = (session.txn.view.under start).entries := hrest.trans (Data.rest_none_eq _ _)
  let session' : Session :=
    ⟨{ session.txn with reads := (found.map Prod.fst).reverse ++ session.txn.reads }, session.events⟩
  have hscan : Work.ofReading (ε := EngineError) (Reading.scan start) session =
      (.ok found, session') := rfl
  unfold remove
  simp only [hfind]
  refine Triple.bind_of_run hscan
    ((deleteAll_clears (found.map Prod.fst) session').bind fun _ s hview => ?_)
  refine ⟨congrArg List.length hfound, fun value => ?_⟩
  rw [hview]
  split
  · rfl
  · rename_i habsent
    cases hget : session.txn.view.get? (entryAt schema spec value) with
    | none => rfl
    | some bytes =>
      have hmem : (entryAt schema spec value, bytes) ∈ found := by
        rw [hrest, Data.mem_rest_none]
        exact ⟨hget, value, rfl⟩
      exact absurd (List.mem_map_of_mem hmem) habsent

end Index

-- ---------------------------------------------------------------------------
-- Isolation
-- ---------------------------------------------------------------------------

namespace Records

/-- Whatever is asked about the records of the entity has the same answer in both sessions, unless a
predicate asks about the type on the way. -/
structure SameAnswers (settings : Settings) (typeName : String) (entity : Entity)
    (session session' : Session) : Prop where
  get : ∀ key, (Records.get settings entity key session').1 = (Records.get settings entity key session).1
  find : ∀ q : Query Predicate, q.Avoids settings session typeName →
    (Records.find settings entity q session').1 = (Records.find settings entity q session).1
  count : ∀ q : Query Predicate, q.Avoids settings session typeName →
    (Records.count settings entity q session').1 = (Records.count settings entity q session).1
  aggregate : ∀ (q : Query Predicate) (fields : List String), q.Avoids settings session typeName →
    (Records.aggregate settings entity q fields session').1 =
      (Records.aggregate settings entity q fields session).1
  next : (Sequence.next entity.schema.typeName session').1 =
    (Sequence.next entity.schema.typeName session).1

theorem sameAnswers_of_besides {entity : Entity} (hcheck : entity.schema.check = .ok ())
    (hother : entity.schema.typeName ≠ typeName)
    (hsame : Data.SameBesides typeName session.txn.view session'.txn.view)
    (hro : session'.txn.readOnly = session.txn.readOnly) :
    SameAnswers settings typeName entity session session' := by
  have hname := (Schema.named_of_check hcheck).typeName
  have hshows := hsame.shows settings hother
  have hpredicates {q : Query Predicate} (havoids : q.Avoids settings session typeName) :
      ∀ p, q.Uses p → ∀ value doc, Exec.Echo true ((p value doc).run (scene settings session))
        ((p value doc).run (scene settings session')) :=
    fun p hp value doc => (havoids p hp value doc).run_echo hsame
  refine ⟨fun key => ?_, fun q havoids => ?_, fun q havoids => ?_, fun q fields havoids => ?_, ?_⟩
  · exact get_congr key (hsame.sameFor hcheck hother).record
  · rw [find_answer, find_answer]
    exact (Search.findDocuments_ready (hpredicates havoids) hshows (.inl (.inl rfl))).answer
      (Search.findDocuments_steady (q.ready_steady _) entity) _ _
  · refine run_bind_congr rfl fun schema hschema => ?_
    exact (Search.count_ready (hpredicates havoids) hshows (.inl (.inl rfl)) hschema).answer
      (Search.count_steady (q.ready_steady _)) (trail session) (trail session')
  · rw [aggregate_answer, aggregate_answer]
    exact (Search.aggregateEntity_ready (hpredicates havoids) hshows (.inl (.inl rfl)) fields).answer
      (Search.aggregateEntity_steady (q.ready_steady _) entity fields) _ _
  · exact Sequence.next_congr hro (hsame (.sequence _) hname hother)

section Dropping

variable {entity : Entity} {name : String} (hcheck : entity.schema.check = .ok ())
include hcheck

theorem removeIndex_clears (hdeclared : (entity.schema.findIndex name).isSome) (session : Session) :
    Triple (removeIndex entity name) session
      (fun n s => n = (session.txn.view.under (Key.indexPrefix entity.schema.typeName name)).size ∧
        ∀ value, s.txn.view.get? (Key.encode (.index entity.schema.typeName name value)) = none)
      (fun _ => session.txn.readOnly = true) := by
  obtain ⟨spec, hfind⟩ := Option.isSome_iff_exists.mp hdeclared
  have hname : spec.name = name := by simpa using List.find?_some hfind
  subst hname
  exact Triple.bind_of_run (schema_run hcheck session)
    (Work.triple_adapt (Index.remove_clears hfind session))

theorem removeIndex_spares {k : Key} (hk : k.Named)
    (hother : ∀ value, k ≠ .index entity.schema.typeName name value) (session : Session) :
    (removeIndex entity name session).2.txn.view.get? k.encode = session.txn.view.get? k.encode := by
  have hnamed : entity.schema.Named := Schema.named_of_check hcheck
  have hwithin : (removeIndex entity name).Within fun key =>
      ∃ spec, entity.schema.findIndex name = some spec ∧
        ∃ value, key = Index.entryAt entity.schema spec value :=
    checked_within (.adapt (Index.remove_within fun spec hfind value => ⟨spec, hfind, value, rfl⟩) _)
  refine (hwithin session).view k.encode ?_
  rintro ⟨spec, hfind, value, heq⟩
  have hname : spec.name = name := by simpa using List.find?_some hfind
  have hentry : Key.Named (.index entity.schema.typeName spec.name value) :=
    ⟨hnamed.typeName, hnamed.indexes spec (List.mem_of_find?_eq_some hfind)⟩
  exact hother value (hname ▸ (Key.encode_inj hk hentry).mp heq)

end Dropping

/-- However an operation on one type ends, everything that belongs to other types is as it was, and what
is asked about them has the same answer as before. An index that is dropped loses all its entries, which
are counted, and this changes nothing else in the type itself: no record, no other index and no counter. -/
theorem isolated (settings : Settings) (session : Session) {entity : Entity}
    (hcheck : entity.schema.check = .ok ()) :
    (∀ m : Mutation, m.entity = entity →
      let after := (m.work settings session).2
      Data.SameBesides entity.schema.typeName session.txn.view after.txn.view ∧
        ∀ other : Entity, other.schema.check = .ok () → other.schema.typeName ≠ entity.schema.typeName →
          SameAnswers settings entity.schema.typeName other session after) ∧
      ∀ name, (entity.schema.findIndex name).isSome →
        let removed := removeIndex entity name session
        (session.txn.readOnly = false → ∃ n, removed.1 = .ok n) ∧
          (∀ n, removed.1 = .ok n →
            n = (session.txn.view.under (Key.indexPrefix entity.schema.typeName name)).size ∧
              ∀ value, removed.2.txn.view.get? (Key.encode (.index entity.schema.typeName name value)) =
                none) ∧
          ∀ k : Key, k.Named → (∀ value, k ≠ .index entity.schema.typeName name value) →
            removed.2.txn.view.get? k.encode = session.txn.view.get? k.encode := by
  refine ⟨?_, fun name hdeclared => ?_⟩
  · rintro m rfl
    have hsame := Mutation.work_besides settings session hcheck
    exact ⟨hsame, fun other hvalid hother => sameAnswers_of_besides hvalid hother hsame
      (m.work_within settings session).readOnly⟩
  · have hcleared := removeIndex_clears hcheck hdeclared session
    refine ⟨fun hw => ?_, fun n hn => ?_, fun k hk hother => removeIndex_spares hcheck hk hother session⟩
    · rcases hrun : removeIndex entity name session with ⟨_ | n, last⟩
      · exact absurd (hw.symm.trans (hcleared.fail_of_run hrun)) Bool.false_ne_true
      · exact ⟨n, rfl⟩
    · exact hcleared.post_of_run (Prod.ext hn rfl)

/-- The name of this type begins with the name of another one. -/
def sellerEntity : Entity := ⟨⟨"bookseller", none, [⟨"code", "code", true⟩], []⟩, [], .ok⟩

def soleSeller : Predicate := fun value _ =>
  .find sellerEntity (Query.and .all "code" (.condition (.eq (.value value)))) fun
    | .ok docs => .answer (docs.length = 1)
    | .error e => .fail e

def sellerTurns : List Turn :=
  [.start 1 false, .change 1 (.insert Turn.bookEntity (.number 1) (Turn.book 1 "a")),
    .change 1 (.insert Turn.bookEntity (.number 2) (Turn.book 1 "b")),
    .change 1 (.insertNext sellerEntity ⟨[("code", .string "a")]⟩), .commit 1]

theorem isolated_sellers :
    let session : Session := ⟨((Turn.reached Turn.bookSettings sellerTurns).store.start false).1, []⟩
    let q := Query.and .all "code" (.predicate soleSeller)
    let after := ((Mutation.deleteMatching Turn.bookEntity .all).work Turn.bookSettings session).2
    Turn.bookSchema.check = .ok () ∧ q.Avoids Turn.bookSettings session "book" ∧
      session.txn.view.size = 8 ∧ after.txn.view.size = 3 ∧
      (count Turn.bookSettings sellerEntity q after).1 = .ok 1 ∧
      (Sequence.next "bookseller" after).1 = .ok 1 ∧
      ∃ n, (removeIndex Turn.bookEntity "code" session).1 = .ok n ∧ n = 2 := by
  intro session q after
  have havoids : q.Avoids Turn.bookSettings session "book" := by
    rintro p ⟨b, hb, c, hc, hp⟩ value doc
    cases List.mem_singleton.mp hb
    cases List.mem_singleton.mp hc
    cases hp
    refine .find (by decide) ?_ ?_
    · rintro p ⟨b, hb, c, hc, hp⟩
      cases List.mem_singleton.mp hb
      cases List.mem_singleton.mp hc
      cases hp
    · cases (find Turn.bookSettings sellerEntity _ session).1 with
      | ok docs => exact .answer _
      | error e => exact .fail e
  have hcheck : Turn.bookEntity.schema.check = .ok () := by decide
  obtain ⟨hops, hdrops⟩ := isolated Turn.bookSettings session hcheck
  obtain ⟨-, hanswers⟩ := hops (.deleteMatching Turn.bookEntity .all) rfl
  have hsellers := hanswers sellerEntity (by decide) (by decide)
  obtain ⟨hok, hcount, -⟩ := hdrops "code" (by decide)
  obtain ⟨n, hn⟩ := hok rfl
  refine ⟨hcheck, havoids, by decide +kernel, by decide +kernel,
    (hsellers.count q havoids).trans (by decide +kernel), hsellers.next.trans (by decide +kernel),
    n, hn, ?_⟩
  rw [(hcount n hn).1]
  decide +kernel

end Records

end DocStore
