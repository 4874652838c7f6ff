import DocStore.Proofs.Footprint
import DocStore.Proofs.Mirroring

/-!
# Records that are not listed

A record is put before its entries. If an entry fails, the record stays in the transaction all the same
(`Records.insert_leaves`), and with it the entries that came before. And four bytes tell the length of a
key that is listed, so a longer key is listed nowhere (`Data.Mirrors.fits`).

So indexes mirror the records only if whatever is stored can be encoded as a key, and primary keys are
short. The codecs for BSON and for MessagePack have keys for all that they can encode
(`Codec.bson_keysStored`, `Codec.messagePack_keysStored`). That a codec restores the documents it
encodes ensures neither (`Turn.mirrors_unlisted`).
-/

namespace DocStore

variable {codec : Codec} {schema : Schema} {settings : Settings} {entity : Entity} {spec : IndexSpec}
  {key : PrimaryKey} {pk bytes : Bytes} {value doc : Document} {t : Transaction} {s checked : Session}

-- ---------------------------------------------------------------------------
-- Records without entries
-- ---------------------------------------------------------------------------

theorem Index.checkUniqueIn_plain {specs : List IndexSpec} (h : ∀ spec ∈ specs, spec.unique = false) :
    checkUniqueIn codec schema pk doc specs = pure () := by
  induction specs with
  | nil => rfl
  | cons spec rest ih =>
    have hrest := ih fun other hother => h other (List.mem_cons_of_mem _ hother)
    rw [checkUniqueIn, h spec List.mem_cons_self, hrest]
    rfl

namespace Records

/-- Once the unique values are checked, a new record is there, however its listing ends. -/
theorem writeRecord_leaves
    (hcheck : Index.checkUnique settings.codec schema pk doc s = (.ok (), checked))
    (hw : checked.txn.readOnly = false) (bytes : Bytes) :
    (writeRecord settings schema pk none doc bytes s).2.txn.view.get? (recordKey schema pk) =
      some bytes := by
  let stored := checked.txn.assign (recordKey schema pk) (some bytes)
  have hput : Work.put (recordKey schema pk) bytes checked = (.ok (), ⟨stored, checked.events⟩) :=
    Index.put_run hw _ _ checked.events
  have hentries : (Index.add settings.codec schema pk doc).Within (· ≠ recordKey schema pk) :=
    Index.addIn_within fun spec _ value => (recordKey_ne_entryAt pk spec value).symm
  have hlast := (hentries ⟨stored, checked.events⟩).view (recordKey schema pk) (· rfl)
  have hrun : (writeRecord settings schema pk none doc bytes s).2 =
      (Index.add settings.codec schema pk doc ⟨stored, checked.events⟩).2 := by
    simp only [writeRecord_eq, Work.adapt, run_bind, hcheck, leave, run_pure, hput]
    rcases Index.add settings.codec schema pk doc ⟨stored, checked.events⟩ with ⟨_, _⟩
    rfl
  rw [hrun, hlast, Transaction.view_assign, if_pos rfl]

theorem insert_leaves (hvalid : entity.schema.check = .ok ())
    (hplain : ∀ spec ∈ entity.schema.indexes, spec.unique = false) (hw : t.readOnly = false)
    (hkey : encodeKey settings key = .ok pk)
    (hnew : t.view.get? (recordKey entity.schema pk) = none)
    (hrecord : encodeRecord settings entity value = .ok (doc, bytes)) (events : List Event) :
    (insert settings entity key value ⟨t, events⟩).2.txn.view.get? (recordKey entity.schema pk) =
      some bytes := by
  let loaded : Session := ⟨t.recordReads [recordKey entity.schema pk], events⟩
  have hcheck : Index.checkUnique settings.codec entity.schema pk doc loaded = (.ok (), loaded) := by
    rw [Index.checkUnique, Index.checkUniqueIn_plain hplain, run_pure]
  simp only [insert, run_bind, schema_run hvalid, Work.ofExcept, hkey, load_absent hnew, hrecord]
  exact writeRecord_leaves hcheck hw bytes

end Records

-- ---------------------------------------------------------------------------
-- Keys that cannot be listed
-- ---------------------------------------------------------------------------

theorem Data.Mirrors.fits {data : Data} (h : data.Mirrors codec schema spec)
    (hrecord : data.get? (Records.recordKey schema pk) = some bytes) : KeyList.Fits pk := by
  obtain ⟨value, hvalue⟩ := h.valued pk bytes hrecord
  exact fits_of_mem_keysAt ((h.lists.mem_keysAt value pk).mpr hvalue)

-- ---------------------------------------------------------------------------
-- Pairs
-- ---------------------------------------------------------------------------

def pair (left right : Bytes) : Document := ⟨[("left", .binary 0 left), ("right", .binary 0 right)]⟩

/-- A codec for pairs. How it encodes keys is left open. -/
def pairCodec (encodeKey : Value → Except CodecError Bytes) : Codec where
  name := "pairs"
  orderedKeys := false
  encode
    | .document [("left", .binary 0 left), ("right", .binary 0 right)] =>
      if left.length < Bytes.span 4 ∧ right.length < Bytes.span 4 then .ok (KeyList.encode [left, right])
      else .error (.unencodable "long")
    | _ => .error (.unencodable "no pair")
  decode bytes :=
    match KeyList.decode? bytes with
    | some [left, right] => .ok (pair left right).toValue
    | _ => .error (.malformedValue "no pair")
  encodeKey
  decodeKey bytes := .ok (.binary 0 bytes)

theorem pairCodec_restores (encodeKey : Value → Except CodecError Bytes) (doc : Document) :
    (pairCodec encodeKey).Restores doc := by
  intro bytes hbytes
  simp only [pairCodec] at hbytes
  split at hbytes
  · rename_i left right hdoc
    split at hbytes
    · rename_i hfits
      cases hbytes
      have hdecode : KeyList.decode? (KeyList.encode [left, right]) = some [left, right] :=
        KeyList.decode?_encode (by simpa [KeyList.Fits] using hfits)
      simp only [pairCodec, hdecode]
      rw [hdoc]
      rfl
    · cases hbytes
  · cases hbytes

def shortKey : Value → Except CodecError Bytes
  | .binary _ bytes => if bytes.length ≤ 8 then .ok bytes else .error (.unencodable "long key")
  | other => OrderedKey.encode other

/-- Numbers are keys of the first length that four bytes cannot tell. -/
def longKey : Value → Except CodecError Bytes
  | .binary _ bytes => .ok bytes
  | _ => .ok (List.replicate (Bytes.span 4) 0)

def leftIndex : IndexSpec := ⟨"left", "left", false⟩

def pairSchema : Schema := ⟨"pair", none, [⟨"right", "right", false⟩, leftIndex], []⟩

def pairEntity : Entity := ⟨pairSchema, [], .ok⟩

namespace Turn

open Interleaving

theorem opened_change {s : State (List Event)} {id : Nat} {o : Open (List Event)}
    (ho : s.opened.get? id = some o) (m : Mutation) :
    ((Turn.change id m).apply settings s).opened.get? id =
      some { o with
        txn := (m.work settings ⟨o.txn, o.note⟩).2.txn
        note := (m.work settings ⟨o.txn, o.note⟩).2.events } := by
  simp only [apply, ho]
  rcases m.work settings ⟨o.txn, o.note⟩ with ⟨_, session⟩
  simp only [State.proceed, Table.get?_insert, if_true]

def pairTurns (doc : Document) : List Turn :=
  [.start 1 false, .change 1 (.insert pairEntity (.number 1) doc), .commit 1]

def widePair : Document := pair [1] (List.replicate 9 0)

def shortSettings : Settings := ⟨pairCodec shortKey, 2⟩

def longSettings : Settings := ⟨pairCodec longKey, 2⟩

theorem wide_unlisted :
    let data := (reached shortSettings (pairTurns widePair)).store.current.data
    (∃ pk, data.HasValue (pairCodec shortKey) pairSchema leftIndex pk [1]) ∧
      data.get? (Index.entryAt pairSchema leftIndex [1]) = none := by
  refine ⟨⟨[18, 128, 0, 0, 0, 0, 0, 0, 1], widePair, ⟨KeyList.encode [[1], List.replicate 9 0], ?_, rfl⟩,
    rfl⟩, ?_⟩ <;> decide +kernel

theorem long_unlisted : ∃ o pk,
    (reached longSettings ((pairTurns (pair [1] [2])).take 2)).opened.get? 1 = some o ∧
      o.txn.view.HasValue (pairCodec longKey) pairSchema leftIndex pk [1] ∧
      ∀ spec, ¬ o.txn.view.Mirrors (pairCodec longKey) pairSchema spec := by
  let started := reached longSettings [.start 1 false]
  let opened : Open (List Event) := ⟨(Store.empty.start false).1, ∅, 0, []⟩
  let inserted : Turn := .change 1 (.insert pairEntity (.number 1) (pair [1] [2]))
  have hopened : started.opened.get? 1 = some opened := rfl
  have hinserted : (inserted.apply longSettings started).opened.get? 1 = _ := opened_change hopened _
  -- Nothing but the length of the number matters, and the number is too long to look at.
  obtain ⟨number, hkey, hlong⟩ : ∃ number,
      Records.encodeKey longSettings (.number 1) = .ok number ∧ ¬ KeyList.Fits number :=
    ⟨List.replicate (Bytes.span 4) 0, rfl, by simp [KeyList.Fits]⟩
  have hvalid : pairEntity.schema.check = .ok () := by decide
  have hplain : ∀ spec ∈ pairEntity.schema.indexes, spec.unique = false := by decide
  have hw : opened.txn.readOnly = false := rfl
  have hnew : opened.txn.view.get? (Records.recordKey pairEntity.schema number) = none := rfl
  have hrecord : Records.encodeRecord longSettings pairEntity (pair [1] [2]) =
      .ok (pair [1] [2], KeyList.encode [[1], [2]]) := rfl
  have hstored := Records.insert_leaves hvalid hplain hw hkey hnew hrecord opened.note
  exact ⟨_, number, hinserted, ⟨pair [1] [2], ⟨_, hstored, rfl⟩, rfl⟩,
    fun spec hmirrors => hlong (hmirrors.fits hstored)⟩

/-- Where the right half of a pair is no key, the pair is stored but not listed under its left half.
Where its number is too long a key, no list is right. -/
theorem mirrors_unlisted :
    Catalog [pairSchema] ∧
      (∀ encodeKey doc, (pairCodec encodeKey).Restores doc) ∧
      (let turns := pairTurns widePair
        let data := (reached shortSettings turns).store.current.data
        (∀ id m, .change id m ∈ turns → m.Admissible shortSettings [pairSchema]) ∧
          (∀ spec, Spare turns pairSchema spec) ∧
          (∃ pk, data.HasValue (pairCodec shortKey) pairSchema leftIndex pk [1]) ∧
          data.get? (Index.entryAt pairSchema leftIndex [1]) = none) ∧
      (pairCodec longKey).KeysStored ∧
      ∃ o pk, (reached longSettings ((pairTurns (pair [1] [2])).take 2)).opened.get? 1 = some o ∧
        o.txn.view.HasValue (pairCodec longKey) pairSchema leftIndex pk [1] ∧
        ∀ spec, ¬ o.txn.view.Mirrors (pairCodec longKey) pairSchema spec := by
  have hchange (id : Nat) (m : Mutation) (hm : .change id m ∈ pairTurns widePair) :
      m = .insert pairEntity (.number 1) widePair := by
    simp only [pairTurns, List.mem_cons, Turn.change.injEq, reduceCtorEq, List.not_mem_nil, false_or,
      or_false] at hm
    exact hm.2
  refine ⟨⟨by decide, by decide, by decide⟩, pairCodec_restores, ⟨fun id m hm => ?_,
    fun spec id m hm => ?_, wide_unlisted⟩, fun doc bytes _ path => ?_, long_unlisted⟩
  · cases hchange id m hm
    refine ⟨List.mem_singleton_self _, fun doc _ => pairCodec_restores shortKey doc, ?_⟩
    rintro key rfl pk hkey
    cases hkey
    simp [KeyList.Fits, OrderedKey.integerBytes, Bytes.span]
  · cases hchange id m hm
    exact not_false
  · change ∃ key, longKey _ = .ok key
    unfold longKey
    split <;> exact ⟨_, rfl⟩

end Turn

end DocStore
