import DocStore.Proofs.Interleaving
import DocStore.Proofs.KeyCodecs
import DocStore.Proofs.Mutations

/-!
# Indexes mirror records

Whatever transactions do side by side on a new store, in every version that is committed and in the
view of every open transaction all indexes mirror the records (`mirrors_reached`). Operations may
fail half way and the transaction may go on and commit nevertheless. An index whose entries have been
dropped may lack some of them from then on, but those it has are right.

Each transaction keeps up its own view; that the writes of a commit fit what others have committed
meanwhile comes from the store, which lets no transaction commit that has read something outdated.
-/

namespace DocStore

/-- What may happen to the transactions of a database. The end of one without a commit is a rollback
or that its owner has dropped it. -/
inductive Turn where
  | start (id : Nat) (readOnly : Bool)
  | change (id : Nat) (m : Mutation)
  | commit (id : Nat)
  | abandon (id : Nat)

namespace Turn

open Interleaving

/-- Starting under a number in use does nothing, as does a turn on a transaction that is not open.
The events of a transaction are its note. -/
def apply (settings : Settings) (s : State (List Event)) : Turn → State (List Event)
  | .start id readOnly =>
    match s.opened.get? id with
    | some _ => s
    | none => s.start id readOnly []
  | .change id m =>
    match s.opened.get? id with
    | none => s
    | some o =>
      let (_, session) := m.work settings ⟨o.txn, o.note⟩
      s.proceed id o session.txn session.events
  | .commit id =>
    match s.opened.get? id with
    | none => s
    | some o => (s.commit id Store.commit o).2
  | .abandon id =>
    match s.opened.get? id with
    | none => s
    | some o => s.abandon id o

def reached (settings : Settings) (turns : List Turn) : State (List Event) :=
  turns.foldl (apply settings) .initial

def Spare (turns : List Turn) (schema : Schema) (spec : IndexSpec) : Prop :=
  ∀ id m, .change id m ∈ turns → ¬ m.Drops schema spec

end Turn

namespace Interleaving

variable {codec : Codec} {schemas : List Schema} {kept : Schema → IndexSpec → Prop}
  {s : State (List Event)} {id : Nat} {o : Open (List Event)}

/-- Committed data and the data that transactions have started from are consistent, and the
transactions have kept them so in their views. -/
structure Kept (codec : Codec) (schemas : List Schema) (kept : Schema → IndexSpec → Prop)
    (s : State (List Event)) : Prop where
  sound : Sound s
  data : ∀ schema ∈ schemas, s.store.current.data.Consistent codec schema (kept schema)
  base : ∀ id o, s.opened.get? id = some o →
    ∀ schema ∈ schemas, o.base.Consistent codec schema (kept schema)
  opened : ∀ id o, s.opened.get? id = some o → o.txn.Keeps codec schemas kept o.base

theorem Kept.consistent (h : Kept codec schemas kept s) {schema : Schema} (hschema : schema ∈ schemas)
    {data : Data} (hdata : data = s.store.current.data ∨
      ∃ id o, s.opened.get? id = some o ∧ data = o.txn.view) :
    data.Consistent codec schema (kept schema) := by
  rcases hdata with rfl | ⟨id, o, ho, rfl⟩
  · exact h.data schema hschema
  · exact ((h.opened id o ho).upholds schema hschema).view

theorem kept_initial : Kept codec schemas kept State.initial where
  sound := sound_initial
  data _ _ := Data.consistent_empty
  base _ _ h := by cases h
  opened _ _ h := by cases h

theorem Kept.start (h : Kept codec schemas kept s) (hid : s.opened.get? id = none)
    (readOnly : Bool) (note : List Event) : Kept codec schemas kept (s.start id readOnly note) where
  sound := h.sound.start hid readOnly note
  data schema hschema := by simpa [State.start] using h.data schema hschema
  base := Table.forall_insert h.data h.base
  opened := by
    refine Table.forall_insert ?_ h.opened
    refine ⟨⟨fun key => rfl, fun _ => rfl⟩, fun key hkey => ?_, fun schema hschema => ?_⟩
    · cases hkey
    · exact .of_base (h.data schema hschema) rfl rfl

theorem Kept.abandon (h : Kept codec schemas kept s) (ho : s.opened.get? id = some o) :
    Kept codec schemas kept (s.abandon id o) where
  sound := h.sound.abandon ho
  data schema hschema := by simpa [State.abandon] using h.data schema hschema
  base := Table.forall_erase h.base
  opened := Table.forall_erase h.opened

theorem Kept.proceed (h : Kept codec schemas kept s) (ho : s.opened.get? id = some o)
    {txn : Transaction} (hadvanced : Advanced codec schemas kept o.base o.txn txn)
    (note : List Event) : Kept codec schemas kept (s.proceed id o txn note) where
  sound := h.sound.proceed ho hadvanced.changed.readSeq hadvanced.changed.readOnly
    hadvanced.keeps.stands note
  data := h.data
  base := Table.forall_insert (h.base id o ho) h.base
  opened := Table.forall_insert hadvanced.keeps h.opened

/-- The writes of a transaction that has read nothing outdated fit the committed data. -/
theorem Kept.install (h : Kept codec schemas kept s) (ho : s.opened.get? id = some o)
    (hw : o.txn.readOnly = false)
    (hfresh : s.store.current.stale o.txn.readSeq o.txn.reads = false) {swept : Version}
    (hswept : Store.SweptFrom swept (s.store.current.advance o.txn.writes) s.store.pinned) :
    Kept codec schemas kept ⟨{ s.store with current := swept }.release o.txn, s.opened.erase id,
      ⟨o.txn.writes, o.note⟩ :: s.commits⟩ where
  sound := h.sound.install ho hswept
  data schema hschema := by
    have hopen := h.opened id o ho
    refine (hopen.upholds schema hschema).merge hopen.stands hopen.covered
      (h.base id o ho schema hschema) (h.data schema hschema)
      (fun key hkey => h.sound.get?_eq_of_not_stale ho hw hfresh hkey) fun key => ?_
    -- Sweeping forgets write records only.
    rw [Store.current_release, hswept.data, Version.get?_advance_data]
  base := Table.forall_erase h.base
  opened := Table.forall_erase h.opened

theorem Kept.commit (h : Kept codec schemas kept s) (ho : s.opened.get? id = some o) :
    Kept codec schemas kept (s.commit id Store.commit o).2 := by
  rw [Store.commit_eq_commitSweeping]
  rcases s.commit_cases _ id o with ⟨-, heq⟩ | ⟨-, -, -, heq⟩ | ⟨hw, -, hfresh, swept, hswept, heq⟩
  · rw [heq]
    exact h.abandon ho
  · rw [heq]
    exact h.abandon ho
  · rw [heq]
    exact h.install ho hw hfresh hswept

end Interleaving

-- ---------------------------------------------------------------------------
-- Turns
-- ---------------------------------------------------------------------------

namespace Turn

open Interleaving

variable {settings : Settings} {schemas : List Schema} {kept : Schema → IndexSpec → Prop}
  {s : State (List Event)}

theorem kept_apply (hdirectory : Directory schemas) (h : Kept settings.codec schemas kept s)
    {turn : Turn} (hturn : ∀ id m, turn = .change id m → m.Settled settings schemas ∧
      ∀ schema spec, m.Drops schema spec → ¬ kept schema spec) :
    Kept settings.codec schemas kept (turn.apply settings s) := by
  cases turn with
  | start id readOnly =>
    simp only [apply]
    cases hid : s.opened.get? id with
    | some o => exact h
    | none => exact h.start hid readOnly []
  | change id m =>
    simp only [apply]
    cases hid : s.opened.get? id with
    | none => exact h
    | some o =>
      obtain ⟨hm, hdropped⟩ := hturn id m rfl
      have hkeeping := Mutation.work_keeps (h.opened id o hid) hdirectory hm hdropped
      have hlast := (hkeeping o.note).final (fun _ _ hpost => hpost) fun _ hfail => hfail
      exact h.proceed hid hlast _
  | commit id =>
    simp only [apply]
    cases hid : s.opened.get? id with
    | none => exact h
    | some o => exact h.commit hid
  | abandon id =>
    simp only [apply]
    cases hid : s.opened.get? id with
    | none => exact h
    | some o => exact h.abandon hid

theorem kept_foldl (hdirectory : Directory schemas) (h : Kept settings.codec schemas kept s)
    {turns : List Turn} (hturns : ∀ id m, .change id m ∈ turns → m.Settled settings schemas ∧
      ∀ schema spec, m.Drops schema spec → ¬ kept schema spec) :
    Kept settings.codec schemas kept (turns.foldl (apply settings) s) := by
  induction turns generalizing s with
  | nil => exact h
  | cons turn rest ih =>
    have hhead : Kept settings.codec schemas kept (turn.apply settings s) :=
      kept_apply hdirectory h fun id m hturn => hturns id m (hturn ▸ List.mem_cons_self)
    exact ih hhead fun id m hmem => hturns id m (List.mem_cons_of_mem _ hmem)

theorem kept_of_settled (hdirectory : Directory schemas) {turns : List Turn}
    (hturns : ∀ id m, .change id m ∈ turns → m.Settled settings schemas) :
    Kept settings.codec schemas (Spare turns) (reached settings turns) := by
  refine kept_foldl hdirectory kept_initial fun id m hm => ⟨hturns id m hm, ?_⟩
  exact fun schema spec hdrops hspare => hspare id m hm hdrops

theorem kept_reached (hcatalog : Catalog schemas) {turns : List Turn}
    (hturns : ∀ id m, .change id m ∈ turns → m.Admissible settings schemas)
    (hlistable : ∀ id m, .change id m ∈ turns →
      ∀ doc, m.Stores doc → settings.codec.Listable m.entity.schema doc) :
    Kept settings.codec schemas (Spare turns) (reached settings turns) :=
  kept_of_settled hcatalog.directory fun id m hm =>
    (hturns id m hm).settled hcatalog (hlistable id m hm)

/-- Whatever transactions do side by side, every index that is not dropped mirrors the records, and
what the others list is right. This takes documents that the codec restores and can list, and primary
keys short enough to be listed. -/
theorem mirrors_reached (hcatalog : Catalog schemas) (turns : List Turn)
    (hturns : ∀ id m, .change id m ∈ turns → m.Admissible settings schemas)
    (hlistable : ∀ id m, .change id m ∈ turns →
      ∀ doc, m.Stores doc → settings.codec.Listable m.entity.schema doc) :
    ∀ schema ∈ schemas, ∀ spec ∈ schema.indexes, ∀ data,
      (data = (reached settings turns).store.current.data ∨
        ∃ id o, (reached settings turns).opened.get? id = some o ∧ data = o.txn.view) →
      (Spare turns schema spec → data.Mirrors settings.codec schema spec) ∧
        data.Vouches settings.codec schema spec := by
  have hkept : Kept settings.codec schemas (Spare turns) (reached settings turns) :=
    kept_reached hcatalog hturns hlistable
  rintro schema hschema spec hspec data hdata
  have hconsistent : data.Consistent settings.codec schema (Spare turns schema) :=
    hkept.consistent hschema hdata
  exact ⟨hconsistent.mirrors hspec, hconsistent.vouches hspec⟩

-- ---------------------------------------------------------------------------
-- Books
-- ---------------------------------------------------------------------------

def shelfIndex : IndexSpec := ⟨"shelf", "place.shelf", false⟩

def bookSchema : Schema := ⟨"book", some "id", [shelfIndex, ⟨"code", "code", true⟩], []⟩

def bookEntity : Entity := ⟨bookSchema, [], .ok⟩

def bookSettings : Settings := ⟨.bson, 2⟩

def book (shelf : Int32) (code : String) : Document :=
  ⟨[("place", .document [("shelf", .int32 shelf)]), ("code", .string code)]⟩

def onShelf (shelf : Int32) : Query Predicate :=
  Query.and .all "place.shelf" (.condition (.eq (.value (.int32 shelf))))

/-- A book is refused for its code, and a transaction for a book that another one has changed. -/
def bookTurns : List Turn :=
  [.start 1 false, .change 1 (.insert bookEntity (.number 1) (book 1 "a")),
    .change 1 (.upsert bookEntity (.number 2) (book 1 "b")),
    .change 1 (.insert bookEntity (.number 3) (book 2 "b")), .commit 1, .start 2 false,
    .start 3 false, .change 2 (.deleteMatching bookEntity (onShelf 1)),
    .change 3 (.update bookEntity (.number 2) (book 2 "b")), .commit 3, .commit 2, .start 4 false,
    .change 4 (.updateMatching bookEntity (onShelf 1) fun _ _ => .ok (book 3 "a")),
    .change 4 (.removeIndex bookEntity "code"), .commit 4]

theorem admissible_bookTurns :
    ∀ id m, .change id m ∈ bookTurns → m.Admissible bookSettings [bookSchema] := by
  have hbook : ∀ doc ∈ [book 1 "a", book 1 "b", book 2 "b", book 3 "a"], Codec.bson.Restores doc := by
    simp only [List.forall_mem_cons]
    refine ⟨?_, ?_, ?_, ?_, nofun⟩ <;>
      · intro bytes h
        cases h
        rfl
  simp only [List.forall_mem_cons] at hbook
  obtain ⟨ha, hb, hb', ha', -⟩ := hbook
  have hfits (n : Nat) (key : PrimaryKey) (hkey : key = .number n) (pk : Bytes)
      (h : Records.encodeKey bookSettings key = .ok pk) : KeyList.Fits pk := by
    subst hkey
    exact Records.fits_number rfl h
  intro id m hm
  simp only [bookTurns, List.mem_cons, Turn.change.injEq, reduceCtorEq, List.not_mem_nil, false_or,
    or_false] at hm
  rcases hm with ⟨-, rfl⟩ | ⟨-, rfl⟩ | ⟨-, rfl⟩ | ⟨-, rfl⟩ | ⟨-, rfl⟩ | ⟨-, rfl⟩ | ⟨-, rfl⟩
  · exact ⟨List.mem_singleton_self _, fun _ hdoc => Except.ok.inj hdoc ▸ ha, hfits 1⟩
  · exact ⟨List.mem_singleton_self _, fun _ hdoc => Except.ok.inj hdoc ▸ hb, hfits 2⟩
  · exact ⟨List.mem_singleton_self _, fun _ hdoc => Except.ok.inj hdoc ▸ hb', hfits 3⟩
  · exact ⟨List.mem_singleton_self _, nofun, nofun⟩
  · exact ⟨List.mem_singleton_self _, fun _ hdoc => Except.ok.inj hdoc ▸ hb', hfits 2⟩
  · refine ⟨List.mem_singleton_self _, fun doc hdoc => ?_, nofun⟩
    obtain ⟨_, _, _, hvalue, hdoc⟩ := hdoc
    cases hvalue
    cases hdoc
    exact ha'
  · exact ⟨List.mem_singleton_self _, nofun, nofun⟩

theorem catalog_books : Catalog [bookSchema] := ⟨by decide, by decide, by decide⟩

theorem spare_books (schema : Schema) (spec : IndexSpec) :
    Spare (bookTurns.take 11) schema spec := by
  intro id m hm
  simp only [bookTurns, List.take_succ_cons, List.take_zero, List.mem_cons, Turn.change.injEq,
    reduceCtorEq, List.not_mem_nil, false_or, or_false] at hm
  rcases hm with ⟨-, rfl⟩ | ⟨-, rfl⟩ | ⟨-, rfl⟩ | ⟨-, rfl⟩ | ⟨-, rfl⟩ <;> simp [Mutation.Drops]

theorem mirrors_reached_books :
    Catalog [bookSchema] ∧ Spare bookTurns bookSchema shelfIndex ∧
      (reached bookSettings bookTurns).commits.length = 3 ∧
      (reached bookSettings bookTurns).store.current.data.size = 4 ∧
      (reached bookSettings bookTurns).store.current.data.Mirrors .bson bookSchema shelfIndex := by
  have hspare : Spare bookTurns bookSchema shelfIndex := by
    intro id m hm
    simp only [bookTurns, List.mem_cons, Turn.change.injEq, reduceCtorEq, List.not_mem_nil,
      false_or, or_false] at hm
    rcases hm with ⟨-, rfl⟩ | ⟨-, rfl⟩ | ⟨-, rfl⟩ | ⟨-, rfl⟩ | ⟨-, rfl⟩ | ⟨-, rfl⟩ | ⟨-, rfl⟩ <;>
      simp [Mutation.Drops, shelfIndex]
  refine ⟨catalog_books, hspare, by decide +kernel, by decide +kernel, ?_⟩
  exact (mirrors_reached catalog_books bookTurns admissible_bookTurns
    (fun _ _ _ doc _ => Codec.bson_keysStored.listable _ doc) bookSchema (List.mem_singleton_self _)
    shelfIndex List.mem_cons_self _ (.inl rfl)).1 hspare

end Turn

end DocStore
