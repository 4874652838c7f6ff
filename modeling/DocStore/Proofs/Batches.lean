import DocStore.Proofs.Exchange
import DocStore.Proofs.Matching

/-!
# Sizes of pages

A cursor reads a page of an index at once, so an entry that cannot be read fails the whole page, also for
the entries before it. A search that stops early may have no need of that entry, and so it may fail where
it would succeed in smaller pages (`find_page_fails`). Pages of one entry do not fail in this way:
whatever a query finds in pages of some size it finds in those. The size of the pages cannot be seen at
all in a query that goes through everything or through indexes that can be read to their end
(`find_batches`). Nor can a predicate see it that asks such queries and hands on their failures
(`Inquiry.Blind`).
-/

namespace DocStore

variable {α β : Type}

-- ---------------------------------------------------------------------------
-- The predicates of a query
-- ---------------------------------------------------------------------------

namespace Query

variable {π π' : Type} {f g : π → π'}

def Uses (q : Query π) (p : π) : Prop :=
  ∃ b ∈ q.branches, ∃ c ∈ b.clauses, c.criterion = .predicate p

theorem clauses_map_congr {clauses : List (Clause π)}
    (h : ∀ p, (∃ c ∈ clauses, c.criterion = .predicate p) → f p = g p) :
    clauses.map (Clause.map f) = clauses.map (Clause.map g) := by
  refine List.map_congr_left fun c hc => ?_
  obtain ⟨field, criterion⟩ := c
  cases criterion with
  | condition condition => rfl
  | predicate p => simp only [Clause.map, Criterion.map, h p ⟨_, hc, rfl⟩]

mutual
theorem map_congr : (q : Query π) → (∀ p, q.Uses p → f p = g p) → q.map f = q.map g
  | ⟨clauses, ors, indexName, sortFields, reversed, skip, limit, error⟩, h => by
    have hclauses : clauses.map (Clause.map f) = clauses.map (Clause.map g) :=
      clauses_map_congr fun p hp => h p ⟨_, List.mem_cons_self, hp⟩
    have hors : mapOrs f ors = mapOrs g ors :=
      mapOrs_congr ors fun p ⟨b, hb, hp⟩ => h p ⟨b, List.mem_cons_of_mem _ hb, hp⟩
    rw [map, map, hclauses, hors]
theorem mapOrs_congr : (ors : List (Query π)) →
    (∀ p, (∃ b ∈ branchesOf ors, ∃ c ∈ b.clauses, c.criterion = .predicate p) → f p = g p) →
      mapOrs f ors = mapOrs g ors
  | [], _ => rfl
  | q :: rest, h => by
    have hfirst : q.map f = q.map g :=
      map_congr q fun p ⟨b, hb, hp⟩ => h p ⟨b, List.mem_append_left _ hb, hp⟩
    have hrest : mapOrs f rest = mapOrs g rest :=
      mapOrs_congr rest fun p ⟨b, hb, hp⟩ => h p ⟨b, List.mem_append_right _ hb, hp⟩
    rw [mapOrs, mapOrs, hfirst, hrest]
end

theorem exists_interchangeable {exact : Bool} {f g : π → Test} (q : Query π)
    (hf : ∀ p value doc, DocStore.Steady (f p value doc))
    (hg : ∀ p value doc, DocStore.Steady (g p value doc))
    (h : ∀ p, q.Uses p → ∀ value doc, Exec.Echo exact (f p value doc) (g p value doc)) :
    ∃ f', q.map f' = q.map f ∧ Interchangeable exact f' g := by
  classical
  refine ⟨fun p => if q.Uses p then f p else g p, map_congr q fun p hp => if_pos hp, ?_, hg, ?_⟩
  · intro p value doc
    split
    · exact hf p value doc
    · exact hg p value doc
  · intro p value doc
    split
    · rename_i hp
      exact h p hp value doc
    · exact fun _ _ => rfl

end Query

-- ---------------------------------------------------------------------------
-- Queries in two scenes
-- ---------------------------------------------------------------------------

namespace Search

section Ready

variable {exact : Bool} {scene scene' : Scene} {q : Query Predicate} (hpredicates : ∀ p, q.Uses p →
  ∀ value doc, Exec.Echo exact ((p value doc).run scene) ((p value doc).run scene'))
include hpredicates

theorem exists_ready : ∃ f, q.ready scene = q.map f ∧
    Interchangeable exact f fun p value doc => (p value doc).run scene' := by
  obtain ⟨f, hf, hexchange⟩ := q.exists_interchangeable
    (fun p value doc => Inquiry.run_steady scene (p value doc))
    (fun p value doc => Inquiry.run_steady scene' (p value doc)) hpredicates
  exact ⟨f, (q.ready_eq_map scene).trans hf.symm, hexchange⟩

variable {entity : Entity} (hshows : ∀ schema, entity.validSchema = .ok schema → scene.Shows scene' schema)
  (hpages : q.Pace exact scene.batchSize scene'.batchSize ∨ ∀ schema, entity.validSchema = .ok schema →
    ∀ b ∈ q.branches, ∀ f : Predicate → Test, Resolved scene schema (b.map f))
include hshows hpages

theorem findDocuments_ready : (findDocuments scene entity (q.ready scene)).Echo exact
    (findDocuments scene' entity (q.ready scene')) := by
  obtain ⟨f, hf, hexchange⟩ := exists_ready hpredicates
  rw [hf, q.ready_eq_map scene']
  exact findDocuments_echo hexchange hshows
    (hpages.imp_right fun h schema hschema b hb => h schema hschema b hb f)

theorem aggregateEntity_ready (fields : List String) :
    (aggregateEntity scene entity (q.ready scene) fields).Echo exact
      (aggregateEntity scene' entity (q.ready scene') fields) := by
  obtain ⟨f, hf, hexchange⟩ := exists_ready hpredicates
  rw [hf, q.ready_eq_map scene']
  exact aggregateEntity_echo hexchange hshows
    (hpages.imp_right fun h schema hschema b hb => h schema hschema b hb f) fields

theorem count_ready {schema : Schema} (hschema : entity.validSchema = .ok schema) :
    (count scene schema (q.ready scene)).Echo exact (count scene' schema (q.ready scene')) := by
  obtain ⟨f, hf, hexchange⟩ := exists_ready hpredicates
  rw [hf, q.ready_eq_map scene']
  exact count_echo hexchange (hshows schema hschema)
    (hpages.imp_right fun h b hb => h schema hschema b hb f)

end Ready

end Search

theorem Inquiry.run_echo_of_outcome {exact : Bool} {scene scene' : Scene} {asked asked' : Exec β}
    {next : Except Failure β → Inquiry} {outcome : Except Failure β}
    (hsame : ∀ trail, Counts exact ((next (asked trail).1).run scene (asked trail).2).1 →
      (asked trail).1 = outcome ∧ (asked' trail).1 = outcome)
    (hnext : Exec.Echo exact ((next outcome).run scene) ((next outcome).run scene')) :
    Exec.Echo exact (fun trail => (next (asked trail).1).run scene (asked trail).2)
      (fun trail => (next (asked' trail).1).run scene' (asked' trail).2) := by
  intro trail hcounts
  obtain ⟨hleft, hright⟩ := hsame trail hcounts
  have hrest : Steady ((next outcome).run scene') := Inquiry.run_steady _ _
  beta_reduce at hcounts ⊢
  rw [hleft] at hcounts
  rw [hleft, hright]
  exact (hnext _ hcounts).trans (hrest.answer _ _)

-- ---------------------------------------------------------------------------
-- Queries in pages of any size
-- ---------------------------------------------------------------------------

namespace Search

theorem Resolved.sized {π : Type} {scene : Scene} {schema : Schema} {b : Query π} {f : π → Test}
    (h : Resolved scene schema (b.map f)) (n : Nat) (g : π → Test) :
    Resolved (scene.sized n) schema (b.map g) := by
  intro spec filtered hplan
  have hplan' : Plan.make scene.codec schema (b.map f) = .ok (.indexScan spec filtered) := by
    rw [Plan.make_map f, ← Plan.make_map g]
    exact hplan
  obtain ⟨found, hfound⟩ := h spec filtered hplan'
  refine ⟨found, ?_⟩
  rw [Evaluation.indexFilter_map g f]
  exact (congrArg Prod.fst (Cursor.candidates_sized n _)).trans hfound

end Search

namespace Records

variable {settings : Settings} {session : Session} {entity : Entity} {q : Query Predicate}

/-- The indexes that the query goes through can be read to their end. -/
def Resolved (settings : Settings) (session : Session) (entity : Entity) (q : Query Predicate) : Prop :=
  ∀ schema, entity.validSchema = .ok schema → ∀ b ∈ (q.ready (scene settings session)).branches,
    Search.Resolved (scene settings session) schema b

theorem Resolved.sized (h : Resolved settings session entity q) (n : Nat) (f : Predicate → Test)
    (schema : Schema) (hschema : entity.validSchema = .ok schema) :
    ∀ b ∈ q.branches, Search.Resolved ((scene settings session).sized n) schema (b.map f) := by
  rw [Resolved, Query.ready_eq_map, Query.branches_map] at h
  exact fun b hb => (h schema hschema _ (List.mem_map_of_mem hb)).sized n f

section Sized

variable {exact : Bool} {n m : Nat} (hpredicates : ∀ p, q.Uses p → ∀ value doc,
    Exec.Echo exact ((p value doc).run ((scene settings session).sized n))
      ((p value doc).run ((scene settings session).sized m)))
  (hpages : q.Pace exact n m ∨ Resolved settings session entity q)
include hpredicates hpages

/-- The pages of a query may be of another size if its predicates do not mind. -/
theorem findDocuments_sized :
    (Search.findDocuments ((scene settings session).sized n) entity
        (q.ready ((scene settings session).sized n))).Echo exact
      (Search.findDocuments ((scene settings session).sized m) entity
        (q.ready ((scene settings session).sized m))) :=
  Search.findDocuments_ready hpredicates (fun schema _ => Scene.shows_sized _ schema n m)
    (hpages.imp_right fun h schema hschema b hb f => h.sized n f schema hschema b hb)

theorem aggregateEntity_sized (fields : List String) :
    (Search.aggregateEntity ((scene settings session).sized n) entity
        (q.ready ((scene settings session).sized n)) fields).Echo exact
      (Search.aggregateEntity ((scene settings session).sized m) entity
        (q.ready ((scene settings session).sized m)) fields) :=
  Search.aggregateEntity_ready hpredicates (fun schema _ => Scene.shows_sized _ schema n m)
    (hpages.imp_right fun h schema hschema b hb f => h.sized n f schema hschema b hb) fields

end Sized

end Records

-- ---------------------------------------------------------------------------
-- Predicates
-- ---------------------------------------------------------------------------

/-- Whatever the size of the pages, a predicate goes on from this outcome of its query, or else it hands
on a failure that does not count. `told` is `true` if the query has the same failures, too. -/
def GoesOn {β : Type} (exact told : Bool) (outcome : Except Failure β)
    (next : Except Failure β → Inquiry) : Prop :=
  told = true ∨ (∃ found, outcome = .ok found) ∨ exact = false ∧ ∀ e, ∃ e', next (.error e) = .fail e'

/-- The predicate comes to the same whatever the size of the pages in which its queries are read, and if
not `exact` it may fail in different ways: each of its queries goes through everything, or through
indexes that can be read to their end, and it does not take up a failure that depends on the pages. -/
inductive Inquiry.Blind (settings : Settings) (session : Session) : Bool → Inquiry → Prop
  | answer {exact : Bool} (holds : Bool) : Blind settings session exact (.answer holds)
  | fail {exact : Bool} (failure : Failure) : Blind settings session exact (.fail failure)
  | find {exact told : Bool} {entity : Entity} {query : Query Predicate}
      {next : Except Failure (List Document) → Inquiry}
      (hpredicates : ∀ p, query.Uses p → ∀ value doc, Blind settings session told (p value doc))
      (hpages : told = false ∧ query.Exhaustive ∨ Records.Resolved settings session entity query)
      (hgoes : GoesOn exact told (Records.find settings entity query session).1 next)
      (hnext : Blind settings session exact (next (Records.find settings entity query session).1)) :
      Blind settings session exact (.find entity query next)
  | aggregate {exact told : Bool} {entity : Entity} {query : Query Predicate} {fields : List String}
      {next : Except Failure (List Group) → Inquiry}
      (hpredicates : ∀ p, query.Uses p → ∀ value doc, Blind settings session told (p value doc))
      (hpages : told = false ∧ query.Exhaustive ∨ Records.Resolved settings session entity query)
      (hgoes : GoesOn exact told (Records.aggregate settings entity query fields session).1 next)
      (hnext : Blind settings session exact
        (next (Records.aggregate settings entity query fields session).1)) :
      Blind settings session exact (.aggregate entity query fields next)

section Blind

variable {settings : Settings} {session : Session} {exact told : Bool}

theorem GoesOn.run_echo {β : Type} {asked : Nat → Exec β} {next : Except Failure β → Inquiry} {k : Nat}
    {outcome : Except Failure β} (hgoes : GoesOn exact told outcome next)
    (hsteady : ∀ n, Steady (asked n)) (hasked : ∀ n m, (asked n).Echo told (asked m))
    (houtcome : (asked k (Records.trail session)).1 = outcome) {n m : Nat}
    (hnext : Exec.Echo exact ((next outcome).run ((Records.scene settings session).sized n))
      ((next outcome).run ((Records.scene settings session).sized m))) :
    Exec.Echo exact
      (fun trail => (next (asked n trail).1).run ((Records.scene settings session).sized n)
        (asked n trail).2)
      (fun trail => (next (asked m trail).1).run ((Records.scene settings session).sized m)
        (asked m trail).2) := by
  refine Inquiry.run_echo_of_outcome (fun trail hcounts => ?_) hnext
  have hbase : (asked k trail).1 = outcome := ((hsteady k).answer _ _).trans houtcome
  have hfrom {j : Nat} (hj : Counts told (asked j trail).1) (i : Nat) :
      (asked j trail).1 = (asked i trail).1 := hasked j i trail hj
  rcases hgoes with rfl | ⟨found, rfl⟩ | ⟨rfl, hfails⟩
  · exact ⟨(hfrom (.inl rfl) k).trans hbase, (hfrom (.inl rfl) k).trans hbase⟩
  · have hk : Counts told (asked k trail).1 := hbase ▸ counts_ok told found
    exact ⟨(hfrom hk n).symm.trans hbase, (hfrom hk m).symm.trans hbase⟩
  · have hn : Counts told (asked n trail).1 := by
      cases hrun : (asked n trail).1 with
      | ok found => exact counts_ok told found
      | error e =>
        obtain ⟨e', he'⟩ := hfails e
        obtain ⟨_, hok⟩ := hcounts.resolve_left Bool.false_ne_true
        rw [hrun, he'] at hok
        cases hok
    exact ⟨(hfrom hn k).trans hbase, ((hfrom hn m).symm.trans (hfrom hn k)).trans hbase⟩

/-- A predicate that cannot see the size of the pages answers alike in pages of all sizes. -/
theorem Inquiry.Blind.run_echo {inquiry : Inquiry} (h : inquiry.Blind settings session exact) (n m : Nat) :
    Exec.Echo exact (inquiry.run ((Records.scene settings session).sized n))
      (inquiry.run ((Records.scene settings session).sized m)) := by
  induction h generalizing n m with
  | answer holds => exact fun _ _ => rfl
  | fail failure => exact fun _ _ => rfl
  | @find exact told entity query next hpredicates hpages hgoes hnext ihPredicates ihNext =>
    refine hgoes.run_echo (k := settings.batchSize)
      (fun n => Search.findDocuments_steady (query.ready_steady _) entity) (fun n m => ?_)
      (Records.find_answer entity query).symm (ihNext n m)
    exact Records.findDocuments_sized (fun p hp value doc => ihPredicates p hp value doc n m)
      (hpages.imp_left fun h => .inr ⟨h.1, .inr h.2⟩)
  | @aggregate exact told entity query fields next hpredicates hpages hgoes hnext ihPredicates ihNext =>
    refine hgoes.run_echo (k := settings.batchSize)
      (fun n => Search.aggregateEntity_steady (query.ready_steady _) entity fields) (fun n m => ?_)
      (Records.aggregate_answer entity query fields).symm (ihNext n m)
    exact Records.aggregateEntity_sized (fun p hp value doc => ihPredicates p hp value doc n m)
      (hpages.imp_left fun h => .inr ⟨h.1, .inr h.2⟩) fields

end Blind

-- ---------------------------------------------------------------------------
-- Queries
-- ---------------------------------------------------------------------------

namespace Records

/-- If the predicates of a query cannot see the size of the pages, whatever it finds in pages of some
size it finds in pages of one entry. A query that goes through everything, or through indexes that can be
read to their end, finds the same in pages of all sizes or fails in pages of all sizes, and in the latter
case with the same failure if the predicates come to the same failures. -/
theorem find_batches (settings : Settings) (entity : Entity) (q : Query Predicate) (session : Session)
    (hpredicates : ∀ p, q.Uses p → ∀ value doc, (p value doc).Blind settings session false)
    (n m : Nat) :
    let found (batchSize : Nat) := (find { settings with batchSize } entity q session).1
    (∀ docs, found n = .ok docs → found 1 = .ok docs) ∧
      (q.Exhaustive ∨ Resolved settings session entity q →
        ∀ docs, found n = .ok docs ↔ found m = .ok docs) ∧
      ((∀ p, q.Uses p → ∀ value doc, (p value doc).Blind settings session true) →
        Resolved settings session entity q → found n = found m) := by
  intro found
  have hfound {exact : Bool} (n m : Nat)
      (hpredicates : ∀ p, q.Uses p → ∀ value doc, (p value doc).Blind settings session exact)
      (hpages : q.Pace exact n m ∨ Resolved settings session entity q)
      (hcounts : Counts exact (found n)) : found n = found m := by
    simp only [found, find_answer] at hcounts ⊢
    exact findDocuments_sized (fun p hp value doc => (hpredicates p hp value doc).run_echo n m) hpages
      (trail session) hcounts
  refine ⟨fun docs hdocs => ?_, fun hpages docs => ?_, fun hexact hresolved => ?_⟩
  · rw [← hdocs]
    exact (hfound n 1 hpredicates (.inl (.inr ⟨rfl, .inl rfl⟩)) (hdocs ▸ counts_ok false docs)).symm
  · have hpace (n m : Nat) : q.Pace false n m ∨ Resolved settings session entity q :=
      hpages.imp_left fun h => .inr ⟨rfl, .inr h⟩
    constructor <;> intro hdocs <;> rw [← hdocs]
    · exact (hfound n m hpredicates (hpace n m) (hdocs ▸ counts_ok false docs)).symm
    · exact (hfound m n hpredicates (hpace m n) (hdocs ▸ counts_ok false docs)).symm
  · exact hfound n m hexact (.inr hresolved) (.inl rfl)

def accompanied : Predicate := fun _ _ =>
  .find Turn.bookEntity (Query.and .all "place.shelf" (.condition (.ge (.value (.int32 1)))))
    fun
    | .ok docs => .answer (1 < docs.length)
    | .error e => .fail e

/-- The first book by its code, found in pages of any size. -/
theorem find_batches_books :
    let session : Session := ⟨((Turn.reached Turn.bookSettings
      (Turn.bookTurns.take 11)).store.start true).1, []⟩
    let q := (Query.and .all "code" (.predicate accompanied)).limitTo 1
    let code (doc : Document) := (doc.lookup "code").map Value.text
    (∀ p, q.Uses p → ∀ value doc, (p value doc).Blind Turn.bookSettings session false) ∧
      Resolved Turn.bookSettings session Turn.bookEntity q ∧
      ∃ docs, docs.map code = [some "a"] ∧ ∀ n,
        (find { Turn.bookSettings with batchSize := n } Turn.bookEntity q session).1 = .ok docs := by
  intro session q code
  have hpredicates : ∀ p, q.Uses p → ∀ value doc,
      (p value doc).Blind Turn.bookSettings session false := by
    rintro p ⟨b, hb, c, hc, hp⟩ value doc
    cases List.mem_singleton.mp hb
    cases List.mem_singleton.mp hc
    cases hp
    refine .find ?_ (.inl ⟨rfl, .inl rfl⟩ : false = false ∧ _ ∨ _) ?_ ?_
    · rintro p ⟨b, hb, c, hc, hp⟩
      cases List.mem_singleton.mp hb
      cases List.mem_singleton.mp hc
      cases hp
    · exact .inr (.inr ⟨rfl, fun e => ⟨e, rfl⟩⟩)
    · cases (find Turn.bookSettings Turn.bookEntity _ session).1 with
      | ok docs => exact .answer _
      | error e => exact .fail e
  have hresolved : Resolved Turn.bookSettings session Turn.bookEntity q := by
    intro schema hschema b hb spec filtered hplan
    cases hschema
    cases List.mem_singleton.mp hb
    cases hplan
    decide +kernel
  have hcodes : (find Turn.bookSettings Turn.bookEntity q session).1.toOption.map (List.map code) =
      some [some "a"] := by
    decide +kernel
  cases hfind : (find Turn.bookSettings Turn.bookEntity q session).1 with
  | error e =>
    rw [hfind] at hcodes
    cases hcodes
  | ok docs =>
    rw [hfind] at hcodes
    refine ⟨hpredicates, hresolved, docs, Option.some.inj hcodes, fun n => ?_⟩
    exact ((find_batches Turn.bookSettings Turn.bookEntity q session hpredicates 2 n).2.1
      (.inr hresolved) docs).mp hfind

def mixedTurns : List Turn :=
  [.start 1 false, .change 1 (.insert Turn.memoEntity (.number 1) ⟨[("n", .string "x")]⟩),
    .change 1 (.insert Turn.memoEntity (.number 2) ⟨[("n", .int32 1)]⟩), .commit 1]

/-- The only memo that is asked for is found in pages of one entry, while a page that holds both fails. -/
theorem find_page_fails :
    let session : Session := ⟨((Turn.reached Turn.bookSettings mixedTurns).store.start true).1, []⟩
    let q := (Query.and .all "n" (.condition (.lt (.value (.string "y"))))).limitTo 1
    let found (batchSize : Nat) :=
      (find { Turn.bookSettings with batchSize } Turn.memoEntity q session).1.map
        (List.map fun doc => (doc.lookup "n").map Value.text)
    found 1 = .ok [some "x"] ∧ found 2 = .error (.typeMismatch "n" "int64" "string") := by
  decide +kernel

end Records

end DocStore
