import DocStore.Proofs.Matching

/-!
# What failing work leaves behind

A write of one record that fails has written nothing. Work that writes several times is not like
that: what comes before the failing write stays in the transaction, and is committed with it. If a
record is refused for which a number was drawn, the number stays drawn. If a row of an update cannot be
changed, the rows before it stay changed, each of them in full. Nothing else is left
(`Records.failing_leaves`).
-/

namespace DocStore

variable {settings : Settings} {schema : Schema} {entity : Entity} {kept : IndexSpec → Prop}
  {f : Nat → Document → Except Failure Document} {rows : List Row} {s s' : Session} {done n : Nat}
  {q : Query Predicate} {e : Failure} {key : PrimaryKey} {value doc : Document}

theorem Transaction.OnlyRead.view {t t' : Transaction} (h : t.OnlyRead t') : t'.view = t.view := by
  obtain ⟨reads, rfl⟩ := h
  rfl

-- ---------------------------------------------------------------------------
-- One record
-- ---------------------------------------------------------------------------

namespace Records

theorem keyed_of_encodeRecord {bytes : Bytes} (hcodec : settings.codec.KeysStored)
    (h : encodeRecord settings entity value = .ok (doc, bytes)) :
    settings.codec.Keyed doc schema.indexes :=
  hcodec.listable schema doc bytes (encodeRecord_eq_ok_iff.mp h).2

theorem insert_ends (hcodec : settings.codec.KeysStored)
    (hview : s.txn.view.Consistent settings.codec entity.schema kept) :
    Triple (insert settings entity key value) s (fun _ _ => True) fun last =>
      s.txn.OnlyRead last.txn := by
  refine schema_spec (fun hcheck => Work.triple_ofExcept (fun pk _ => ?_) (.refl _)) (.refl _)
  refine (load_spec hview s.events).bind ?_
  rintro found ⟨t, events⟩ ⟨rfl, hfound⟩
  have hread := Transaction.OnlyRead.recordReads s.txn [recordKey entity.schema pk]
  cases found with
  | some found => exact Triple.throw hread
  | none =>
    refine Work.triple_ofExcept (fun record hrecord => ?_) hread
    have hreplaceable : Replaceable settings.codec entity.schema pk none
        (s.txn.recordReads [recordKey entity.schema pk]) :=
      hview.replaceable (Schema.named_of_check hcheck) hfound rfl
    exact (writeRecord_ends hreplaceable (keyed_of_encodeRecord hcodec hrecord) events).mono
      (fun _ _ _ => trivial) fun _ hlast => hread.trans hlast

end Records

-- ---------------------------------------------------------------------------
-- A number and a record
-- ---------------------------------------------------------------------------

theorem Data.SameFor.assign_counter (t : Transaction) (typeName : String) (value : Option Bytes) :
    Data.SameFor schema t.view (t.assign (Sequence.counterKey typeName) value).view where
  record pk := by
    rw [Transaction.view_assign, if_neg]
    exact fun heq => Sequence.counterKey_ne_touched typeName (.inl heq.symm)
  entry spec hspec listed := by
    rw [Transaction.view_assign, if_neg]
    have hnone : ¬ schema.Touches [] (Sequence.counterKey typeName) :=
      Sequence.counterKey_ne_touched typeName
    exact fun heq => hnone (.inr ⟨spec, hspec, listed, heq.symm⟩)

namespace Records

/-- What a failing insertion under a drawn number leaves is the draw at most. -/
theorem insertNext_ends (hcodec : settings.codec.KeysStored)
    (hview : s.txn.view.Consistent settings.codec entity.schema kept) :
    Triple (insertNext settings entity value) s (fun _ _ => True) fun last =>
      last.txn.view = s.txn.view ∨ ∃ n,
        Sequence.following entity.schema.typeName
          (s.txn.view.get? (Sequence.counterKey entity.schema.typeName)) = .ok n ∧
        last.txn.view =
          s.txn.view.insert (Sequence.counterKey entity.schema.typeName) (Bytes.be 8 n) := by
  refine schema_spec (fun _ => ?_) (.inl rfl)
  refine ((Work.triple_adapt (Sequence.next_spec entity.schema.typeName s.events)).mono
    (fun _ _ hpost => hpost) fun _ hread => .inl hread.view).bind ?_
  rintro n ⟨t, events⟩ ⟨-, hn, rfl⟩
  let drawn := (s.txn.recordReads [Sequence.counterKey entity.schema.typeName]).assign
    (Sequence.counterKey entity.schema.typeName) (some (Bytes.be 8 n))
  have hdrawn : drawn.view.Consistent settings.codec entity.schema kept :=
    hview.congr (.assign_counter (s.txn.recordReads _) _ _)
  -- Everything that comes behind the draw fails before it has written anything.
  refine Work.triple_ofExcept (fun number _ => ?_) (.inr ⟨n, hn, rfl⟩)
  have hinsert : Triple (insert settings entity (.number n) number) ⟨drawn, events⟩
      (fun _ _ => True) (fun last => drawn.OnlyRead last.txn) := insert_ends hcodec hdrawn
  exact (hinsert.mono (fun _ _ hpost => hpost) fun _ hread => .inr ⟨n, hn, hread.view⟩).bind
    fun _ _ _ => Triple.pure trivial

end Records

-- ---------------------------------------------------------------------------
-- Row after row
-- ---------------------------------------------------------------------------

/-- While one record is replaced, the others stay replaceable. -/
theorem Replaced.replaceable {codec : Codec} {pk other : Bytes} {old new : Option Document}
    {contents : Option Bytes} {t t' : Transaction}
    (h : Replaced codec schema pk old new contents t t') (hpk : KeyList.Fits pk)
    {found : Option Document} (hother : Replaceable codec schema other found t) (hne : other ≠ pk) :
    Replaceable codec schema other found t' := by
  refine ⟨hother.named, h.relisted.tidy, h.relisted.fit hother.fit hpk, hother.keyed,
    fun spec hspec value hlisted => ?_⟩
  obtain ⟨heq, -⟩ | ⟨-, hbefore⟩ := (h.relisted.listed spec hspec value other).mp hlisted
  · exact absurd heq hne
  · exact hother.only spec hspec value hbefore

namespace Records

theorem updateRows_error (hcodec : settings.codec.KeysStored)
    (hdistinct : (rows.map Row.key).Nodup) (hrows : ∀ row ∈ rows, KeyList.Fits row.key ∧
      Replaceable settings.codec schema row.key (some row.doc) s.txn)
    (h : updateRows settings entity schema f done rows s = (.error e, s')) :
    ∃ k < rows.length, ∃ mid,
      updateRows settings entity schema f done (rows.take k) s = (.ok (), mid) ∧
        mid.txn.OnlyRead s'.txn := by
  induction rows generalizing done s with
  | nil => cases h
  | cons row rest ih =>
    -- Whatever fails before the first row is written leaves everything as it was.
    have hfirst (hread : s.txn.OnlyRead s'.txn) : ∃ k < (row :: rest).length, ∃ mid,
        updateRows settings entity schema f done ((row :: rest).take k) s = (.ok (), mid) ∧
          mid.txn.OnlyRead s'.txn := ⟨0, Nat.zero_lt_succ _, s, rfl, hread⟩
    obtain ⟨hnew, hdistinct'⟩ := List.nodup_cons.mp hdistinct
    obtain ⟨hfits, hreplaceable⟩ := hrows row List.mem_cons_self
    rcases run_bind_error h with hread | ⟨found, _, hread, hstore⟩
    · exact hfirst ((Prod.mk.inj hread).2 ▸ .refl _)
    obtain ⟨hfound, rfl⟩ := Prod.mk.inj hread
    rcases run_bind_error hstore with hcall | ⟨value, _, hcall, hencode⟩
    · exact hfirst ((Prod.mk.inj hcall).2 ▸ .refl _)
    obtain ⟨hvalue, rfl⟩ := Prod.mk.inj hcall
    rcases run_bind_error hencode with hencoded | ⟨⟨doc, bytes⟩, _, hencoded, hwrites⟩
    · exact hfirst ((Prod.mk.inj hencoded).2 ▸ .refl _)
    obtain ⟨hrecord, rfl⟩ := Prod.mk.inj hencoded
    have hkeyed : settings.codec.Keyed doc schema.indexes := keyed_of_encodeRecord hcodec hrecord
    rcases run_bind_error hwrites with hwrite | ⟨_, written, hwrite, hrest⟩
    · exact hfirst ((writeRecord_ends hreplaceable hkeyed _).fail_of_run hwrite)
    obtain ⟨-, hreplaced⟩ := (writeRecord_spec hreplaceable hfits hkeyed _).post_of_run hwrite
    have hothers : ∀ other ∈ rest, KeyList.Fits other.key ∧
        Replaceable settings.codec schema other.key (some other.doc) written.txn := by
      intro other hother
      obtain ⟨hfits', hother'⟩ := hrows other (List.mem_cons_of_mem _ hother)
      exact ⟨hfits', hreplaced.replaceable hfits hother' fun heq =>
        hnew (heq ▸ List.mem_map_of_mem hother)⟩
    obtain ⟨k, hk, mid, hpart, hlast⟩ := ih hdistinct' hothers hrest
    refine ⟨k + 1, Nat.succ_lt_succ hk, mid, ?_, hlast⟩
    simp only [List.take_succ_cons, updateRows, run_bind, Work.ofExcept, hfound, hvalue, hrecord,
      hwrite, hpart]

theorem changeRows_error {change : Schema → List Row → Work Failure Unit}
    (h : (do
      let schema ← Records.schema entity
      let rows ← findRows settings schema q
      change schema rows
      pure rows.length : Work Failure Nat) s = (.error e, s')) :
    s.txn.OnlyRead s'.txn ∨ ∃ rows mid, entity.schema.check = .ok () ∧
      findRows settings entity.schema q s = (.ok rows, mid) ∧
      change entity.schema rows mid = (.error e, s') := by
  rcases run_bind_error h with hschema | ⟨checked, _, hschema, hsearch⟩
  · exact .inl ((Prod.mk.inj hschema).2 ▸ .refl _)
  obtain ⟨hcheck, rfl, rfl⟩ := schema_ok hschema
  rcases run_bind_error hsearch with hfails | ⟨rows, mid, hfound, hrows⟩
  · exact .inl ((findRows_spec entity.schema q _).fail_of_run hfails)
  rcases run_bind_error hrows with hchange | ⟨_, last, -, hcount⟩
  · exact .inr ⟨rows, mid, hcheck, hfound, hchange⟩
  · cases hcount

/-- What failing work leaves behind in a view that is consistent: of an insertion under a drawn number
the draw, of an update of all matches the rows before the one that fails, each of them written in
full. A commit that follows makes this permanent. -/
theorem failing_leaves (hcodec : settings.codec.KeysStored)
    (hview : s.txn.view.Consistent settings.codec entity.schema kept) :
    (∀ value e after, insertNext settings entity value s = (.error e, after) →
      after.txn.view = s.txn.view ∨ ∃ n,
        Sequence.following entity.schema.typeName
          (s.txn.view.get? (Sequence.counterKey entity.schema.typeName)) = .ok n ∧
        after.txn.view =
          s.txn.view.insert (Sequence.counterKey entity.schema.typeName) (Bytes.be 8 n)) ∧
    (∀ q f e after, updateMatching settings entity q f s = (.error e, after) →
      after.txn.view = s.txn.view ∨ ∃ rows done, Matches settings entity q s rows ∧
        0 < done ∧ done < rows.length ∧
        Rewritten settings entity f 0 (rows.take done) after.txn.view ∧
        entity.schema.ChangedAt (rows.take done) s.txn.view after.txn.view ∧
        ∃ mid last, findRows settings entity.schema q s = (.ok rows, mid) ∧
          updateRows settings entity entity.schema f 0 (rows.take done) mid = (.ok (), last) ∧
          after.txn.view = last.txn.view) := by
  constructor
  · exact fun value e after h => (insertNext_ends hcodec hview).fail_of_run h
  · intro q f e after h
    rcases changeRows_error h with hread | ⟨rows, mid, hcheck, hfound, hupdate⟩
    · exact .inl hread.view
    obtain ⟨hread, hrows⟩ := (findRows_spec entity.schema q s).post_of_run hfound
    have hmatches := matches_of_found hcheck hfound
    have hnamed := Schema.named_of_check hcheck
    have hreplaceable : ∀ row ∈ rows, KeyList.Fits row.key ∧
        Replaceable settings.codec entity.schema row.key (some row.doc) mid.txn := by
      intro row hrow
      obtain ⟨bytes, hget, hdecode⟩ := hmatches.stored row hrow
      exact ⟨hview.fit row.key bytes hget,
        hview.replaceable hnamed (hview.readAs hget hdecode) hread.view⟩
    obtain ⟨done, hdone, last, hpart, hlast⟩ :=
      updateRows_error hcodec hmatches.distinct hreplaceable hupdate
    cases done with
    | zero =>
      cases hpart
      exact .inl (hlast.view.trans hread.view)
    | succ done => ?_
    have hdistinct : ((rows.take (done + 1)).map Row.key).Nodup :=
      hmatches.distinct.sublist ((List.take_sublist _ _).map _)
    have hwithin : (updateRows settings entity entity.schema f 0 (rows.take (done + 1))).Within _ :=
      updateRows_within 0 _
    have hchanged := hwithin mid
    rw [hpart] at hchanged
    refine .inr ⟨rows, done + 1, hmatches, Nat.zero_lt_succ _, hdone, ?_, ?_, mid, last, hfound, hpart,
      hlast.view⟩
    · rw [hlast.view]
      exact (updateRows_ok hdistinct hpart).1
    · rw [hlast.view, ← hread.view]
      exact .of_changedWithin hchanged

end Records

-- ---------------------------------------------------------------------------
-- Books
-- ---------------------------------------------------------------------------

namespace Turn

theorem consistent_books : ∃ o, (reached bookSettings (bookTurns.take 3)).opened.get? 1 = some o ∧
    o.txn.readOnly = false ∧
    o.txn.view.Consistent .bson bookSchema (Spare (bookTurns.take 3) bookSchema) := by
  obtain ⟨o, ho⟩ := Option.isSome_iff_exists.mp
    (by decide +kernel : ((reached bookSettings (bookTurns.take 3)).opened.get? 1).isSome)
  have hw : ((reached bookSettings (bookTurns.take 3)).opened.get? 1).all fun o =>
      !o.txn.readOnly := by
    decide +kernel
  rw [ho] at hw
  have hkept : Interleaving.Kept .bson [bookSchema] (Spare (bookTurns.take 3))
      (reached bookSettings (bookTurns.take 3)) :=
    kept_reached catalog_books
      (fun id m hm => admissible_bookTurns id m (List.mem_of_mem_take hm))
      fun _ _ _ doc _ => Codec.bson_keysStored.listable _ doc
  exact ⟨o, ho, by simpa using hw, ((hkept.opened 1 o ho).upholds _ (List.mem_singleton_self _)).view⟩

def moveOne (done : Nat) (_ : Document) : Except Failure Document :=
  if done = 0 then .ok (book 3 "c") else .error (.callback "stop")

theorem refused_book :
    ((reached bookSettings (bookTurns.take 3)).opened.get? 1).map (fun o =>
      let inserted := Records.insertNext bookSettings bookEntity (book 5 "a") ⟨o.txn, o.note⟩
      (inserted.1.map Prod.fst, o.txn.view.get? (Sequence.counterKey "book"),
        inserted.2.txn.view.get? (Sequence.counterKey "book"))) =
      some (.error (.uniqueExists "book" "code"), none, some (Bytes.be 8 0)) := by
  decide +kernel

theorem unmoved_book :
    ((reached bookSettings (bookTurns.take 3)).opened.get? 1).map (fun o =>
      let updated := Records.updateMatching bookSettings bookEntity (onShelf 1) moveOne ⟨o.txn, o.note⟩
      let first := Records.recordKey bookSchema [18, 128, 0, 0, 0, 0, 0, 0, 1]
      let found := Records.findRows bookSettings bookEntity.schema (onShelf 1) ⟨o.txn, o.note⟩
      (updated.1, found.1.map List.length,
        decide (updated.2.txn.view.get? first = o.txn.view.get? first))) =
      some (.error (.callback "stop"), .ok 2, false) := by
  decide +kernel

/-- Of the refused book the number 0 is left, of the move of two books that of the first one. -/
theorem failing_leaves_books :
    ∃ o inserted updated rows, (reached bookSettings (bookTurns.take 3)).opened.get? 1 = some o ∧
      o.txn.view.Consistent .bson bookSchema (Spare (bookTurns.take 3) bookSchema) ∧
      Records.insertNext bookSettings bookEntity (book 5 "a") ⟨o.txn, o.note⟩ =
        (.error (.uniqueExists "book" "code"), inserted) ∧
      inserted.txn.view = o.txn.view.insert (Sequence.counterKey "book") (Bytes.be 8 0) ∧
      Records.updateMatching bookSettings bookEntity (onShelf 1) moveOne ⟨o.txn, o.note⟩ =
        (.error (.callback "stop"), updated) ∧
      Records.Matches bookSettings bookEntity (onShelf 1) ⟨o.txn, o.note⟩ rows ∧ rows.length = 2 ∧
      Records.Rewritten bookSettings bookEntity moveOne 0 (rows.take 1) updated.txn.view ∧
      bookSchema.ChangedAt (rows.take 1) o.txn.view updated.txn.view := by
  obtain ⟨o, ho, -, hview⟩ := consistent_books
  have hinsert := refused_book
  have hupdate := unmoved_book
  rw [ho] at hinsert hupdate
  simp only [Option.map_some, Option.some.injEq, Prod.mk.injEq, decide_eq_false_iff_not] at hinsert hupdate
  obtain ⟨hrefused, hbefore, hdrawn⟩ := hinsert
  obtain ⟨hstopped, hcount, hmoved⟩ := hupdate
  obtain ⟨inserted, hinserted⟩ : ∃ inserted, Records.insertNext bookSettings bookEntity (book 5 "a")
      ⟨o.txn, o.note⟩ = (.error (.uniqueExists "book" "code"), inserted) :=
    ⟨_, Prod.ext (eq_error_of_map hrefused) rfl⟩
  obtain ⟨updated, hupdated⟩ : ∃ updated, Records.updateMatching bookSettings bookEntity (onShelf 1)
      moveOne ⟨o.txn, o.note⟩ = (.error (.callback "stop"), updated) := ⟨_, Prod.ext hstopped rfl⟩
  have hstart : (⟨o.txn, o.note⟩ : Session).txn.view.Consistent bookSettings.codec bookEntity.schema
      (Spare (bookTurns.take 3) bookSchema) := hview
  obtain ⟨hdraws, hmoves⟩ := Records.failing_leaves Codec.bson_keysStored hstart
  rw [hinserted] at hdrawn
  rw [hupdated] at hmoved
  have hdraw : inserted.txn.view = o.txn.view.insert (Sequence.counterKey "book") (Bytes.be 8 0) := by
    rcases hdraws _ _ _ hinserted with hsame | ⟨n, hn, hview⟩
    · rw [hsame, hbefore] at hdrawn
      cases hdrawn
    · have hfirst : Sequence.following "book" none = .ok n := hbefore ▸ hn
      cases hfirst
      exact hview
  rcases hmoves _ _ _ _ hupdated with hsame | ⟨rows, done, hmatches, hpos, hdone, hwritten, hchanged, -⟩
  · exact absurd (by rw [hsame]) hmoved
  · have hlength : rows.length = 2 := by
      rw [hmatches.found] at hcount
      exact Except.ok.inj hcount
    obtain rfl : done = 1 := by omega
    exact ⟨o, inserted, updated, rows, ho, hview, hinserted, hdraw, hupdated, hmatches, hlength,
      hwritten, hchanged⟩

/-- The counter stands where the draw for the refused book has left it, and the first book is gone
from the shelf, though both operations have failed. -/
theorem failing_leaves_traces :
    ∃ o, (reached bookSettings (bookTurns.take 3)).opened.get? 1 = some o ∧
      o.txn.readOnly = false ∧
      o.txn.view.Consistent .bson bookSchema (Spare (bookTurns.take 3) bookSchema) ∧
      let before : Session := ⟨o.txn, o.note⟩
      let inserted := Records.insertNext bookSettings bookEntity (book 5 "a") before
      let updated := Records.updateMatching bookSettings bookEntity (onShelf 1) moveOne before
      inserted.1 = .error (.uniqueExists "book" "code") ∧ inserted.2.txn.view ≠ o.txn.view ∧
        updated.1 = .error (.callback "stop") ∧ updated.2.txn.view ≠ o.txn.view := by
  obtain ⟨o, ho, hw, hview⟩ := consistent_books
  have hinsert := refused_book
  have hupdate := unmoved_book
  rw [ho] at hinsert hupdate
  simp only [Option.map_some, Option.some.injEq, Prod.mk.injEq, decide_eq_false_iff_not] at hinsert hupdate
  refine ⟨o, ho, hw, hview, eq_error_of_map hinsert.1, fun hsame => ?_, hupdate.1, fun hsame => ?_⟩
  · have hdrawn := hinsert.2.2
    rw [hsame, hinsert.2.1] at hdrawn
    cases hdrawn
  · exact hupdate.2.2 (by rw [hsame])

end Turn

end DocStore
