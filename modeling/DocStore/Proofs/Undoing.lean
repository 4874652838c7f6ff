import DocStore.Proofs.Upkeep

/-!
# Adding undone

Adding a key to the indexes and deleting it again gives back the very bytes that were there before,
as long as the key was not listed yet (`delete_undoes_add`). This takes entries that list somebody:
an entry that is empty but there would be gone afterwards. Where adding stops half way at a unique
value that is taken, the check of unique values would have named the same index up front.
-/

namespace DocStore

-- ---------------------------------------------------------------------------
-- Entries that list somebody
-- ---------------------------------------------------------------------------

/-- Every entry of a schema's indexes is a list of keys and lists at least one. -/
def Data.Listing (data : Data) (schema : Schema) : Prop :=
  ∀ spec ∈ schema.indexes, ∀ value bytes, data.get? (Index.entryAt schema spec value) = some bytes →
    ∃ keys, KeyList.decode? bytes = some keys ∧ keys ≠ []

section Listing

variable {data : Data} {schema : Schema} {spec : IndexSpec}

theorem Data.Listing.readable (h : data.Listing schema) (hspec : spec ∈ schema.indexes)
    (value : Bytes) : data.Readable (Index.entryAt schema spec value) := fun bytes hbytes =>
  (h spec hspec value bytes hbytes).imp fun _ hkeys => hkeys.1

theorem Data.Listing.stored_keysAt (h : data.Listing schema) (hspec : spec ∈ schema.indexes)
    (value : Bytes) :
    KeyList.stored (data.keysAt (Index.entryAt schema spec value)) =
      data.get? (Index.entryAt schema spec value) := by
  cases hget : data.get? (Index.entryAt schema spec value) with
  | none => simp [Data.keysAt, hget, KeyList.stored]
  | some bytes =>
    obtain ⟨keys, hkeys, hne⟩ := h spec hspec value bytes hget
    rw [Data.keysAt_of_decode hget hkeys, KeyList.stored_of_ne_nil hne,
      (KeyList.encode_of_decode? hkeys).1]

end Listing

/-- A loop over the indexes that leaves each entry as some data have it leaves these data. -/
theorem Transaction.view_relistAll_eq {t : Transaction} {entry : IndexSpec → Bytes}
    {change : IndexSpec → List Bytes → List Bytes} {specs : List IndexSpec} {data : Data}
    (hw : t.readOnly = false) (hnodup : (specs.map entry).Nodup)
    (hin : ∀ spec ∈ specs,
      KeyList.stored (change spec (t.view.keysAt (entry spec))) = data.get? (entry spec))
    (hout : ∀ key, (¬ ∃ spec ∈ specs, key = entry spec) → t.view.get? key = data.get? key) :
    (t.relistAll entry change specs).view = data := by
  refine Table.ext_get? fun key => ?_
  by_cases hkey : ∃ spec ∈ specs, key = entry spec
  · obtain ⟨spec, hspec, rfl⟩ := hkey
    rw [(relistAll_spec hw hnodup hspec).1, hin spec hspec]
  · rw [(changedWithin_relistAll hw).view key hkey, hout key hkey]

namespace Index

variable {codec : Codec} {schema : Schema} {doc : Document} {pk : Bytes} {t : Transaction}
  {specs : List IndexSpec} {s s' : Session} {spec : IndexSpec}

-- ---------------------------------------------------------------------------
-- How adding ends
-- ---------------------------------------------------------------------------

theorem addIn_cons_cases (pk : Bytes) (specs : List IndexSpec)
    (hread : s.txn.view.Readable (entryIn codec schema doc spec)) :
    (∃ e, (addIn codec schema pk doc (spec :: specs) s).1 = .error (.codec e)) ∨
      (codec.Keyed doc [spec] ∧ taken codec schema s.txn.view pk doc spec = true ∧
        (addIn codec schema pk doc (spec :: specs) s).1 =
          .error (.uniqueExists schema.typeName spec.name)) ∨
      (addIn codec schema pk doc (spec :: specs) s).1 = .error (.store .readOnly) ∨
      (codec.Keyed doc [spec] ∧ taken codec schema s.txn.view pk doc spec = false ∧
        s.txn.readOnly = false ∧
        addIn codec schema pk doc (spec :: specs) s = addIn codec schema pk doc specs
          ⟨s.txn.relist (entryIn codec schema doc spec)
            (enlist pk spec (s.txn.view.keysAt (entryIn codec schema doc spec))), s.events⟩) := by
  cases hvalue : codec.encodeKey (doc.lookupOrNull spec.field) with
  | error e =>
    refine .inl ⟨e, ?_⟩
    simp only [addIn, run_bind, readEntryOf, Work.ofExcept, entryOf, entryKey, hvalue]
    rfl
  | ok value =>
    have hdoc : codec.Keyed doc [spec] := List.forall_mem_singleton.mpr ⟨value, hvalue⟩
    have hrun := readEntryOf_run hdoc List.mem_cons_self hread
    cases htaken : taken codec schema s.txn.view pk doc spec with
    | true =>
      refine .inr (.inl ⟨hdoc, rfl, ?_⟩)
      obtain ⟨hunique, hany⟩ := Bool.and_eq_true_iff.mp htaken
      simp only [addIn, run_bind, hrun, hunique, hany, if_true]
      rfl
    | false =>
      cases hro : s.txn.readOnly with
      | true =>
        refine .inr (.inr (.inl ?_))
        have hro' : (s.txn.recordReads [entryIn codec schema doc spec]).readOnly = true := hro
        simp only [addIn, run_bind, hrun]
        by_cases hunique : spec.unique = true
        · have hany : (s.txn.view.keysAt (entryIn codec schema doc spec)).any (· != pk) = false := by
            simpa using taken_eq_false_iff.mp htaken hunique
          simp only [hunique, hany, if_true, Bool.false_eq_true, if_false, run_bind,
            put_readOnly hro']
        · simp only [hunique, Bool.false_eq_true, if_false, run_bind, put_readOnly hro']
      | false =>
        exact .inr (.inr (.inr ⟨hdoc, rfl, rfl,
          addIn_cons hro hdoc hread (taken_eq_false_iff.mp htaken)⟩))

theorem of_addIn_ok (hnodup : (specs.map (entryIn codec schema doc)).Nodup)
    (hread : ∀ spec ∈ specs, s.txn.view.Readable (entryIn codec schema doc spec))
    (hok : (addIn codec schema pk doc specs s).1 = .ok ()) :
    codec.Keyed doc specs ∧ (specs ≠ [] → s.txn.readOnly = false) ∧
      ∀ spec ∈ specs, taken codec schema s.txn.view pk doc spec = false := by
  induction specs generalizing s with
  | nil => exact ⟨nofun, fun hne => absurd rfl hne, nofun⟩
  | cons spec rest ih =>
    rcases addIn_cons_cases pk rest (hread spec List.mem_cons_self) with
      ⟨e, heq⟩ | ⟨-, -, heq⟩ | heq | ⟨hdoc, hfree, hro, heq⟩
    case inr.inr.inr =>
      rw [heq] at hok
      obtain ⟨hrest, -, hothers⟩ := ih hnodup.of_cons (readable_relist hnodup hread _) hok
      refine ⟨List.forall_mem_cons.mpr ⟨hdoc spec List.mem_cons_self, hrest⟩, fun _ => hro,
        List.forall_mem_cons.mpr ⟨hfree, fun other hother => ?_⟩⟩
      exact (taken_congr (get?_relist hnodup _ other hother)).symm.trans (hothers other hother)
    all_goals
      rw [heq] at hok
      cases hok

theorem checkUniqueIn_of_addIn_refused (hnodup : (specs.map (entryIn codec schema doc)).Nodup)
    (hread : ∀ spec ∈ specs, s.txn.view.Readable (entryIn codec schema doc spec))
    (hview : ∀ spec ∈ specs, t.view.get? (entryIn codec schema doc spec) =
      s.txn.view.get? (entryIn codec schema doc spec))
    {typeName name : String}
    (hrefused : (addIn codec schema pk doc specs s).1 = .error (.uniqueExists typeName name))
    (events : List Event) :
    ∃ reads, checkUniqueIn codec schema pk doc specs ⟨t, events⟩ =
      (.error (.uniqueExists typeName name), ⟨t.recordReads reads, events⟩) := by
  induction specs generalizing s t with
  | nil => cases hrefused
  | cons spec rest ih =>
    have hhead := hview spec List.mem_cons_self
    have hread' : t.view.Readable (entryIn codec schema doc spec) := fun bytes hbytes =>
      hread spec List.mem_cons_self bytes (hhead ▸ hbytes)
    have htaken : taken codec schema t.view pk doc spec =
        taken codec schema s.txn.view pk doc spec := taken_congr hhead
    rcases addIn_cons_cases pk rest (hread spec List.mem_cons_self) with
      ⟨e, heq⟩ | ⟨hdoc, hfound, heq⟩ | heq | ⟨hdoc, hfree, -, heq⟩
    · rw [heq] at hrefused
      cases hrefused
    · rw [heq] at hrefused
      cases hrefused
      exact ⟨_, checkUniqueIn_cons_taken hdoc hread' (htaken.trans hfound) events⟩
    · rw [heq] at hrefused
      cases hrefused
    · rw [heq] at hrefused
      obtain ⟨reads, hgoes⟩ := checkUniqueIn_cons_free hdoc hread' (htaken.trans hfree) rest events
      have hrest : ∀ other ∈ rest, (t.recordReads reads).view.get? (entryIn codec schema doc other) =
          (s.txn.relist (entryIn codec schema doc spec)
            (enlist pk spec (s.txn.view.keysAt (entryIn codec schema doc spec)))).view.get?
              (entryIn codec schema doc other) := fun other hother => by
        rw [get?_relist hnodup _ other hother]
        exact hview other (List.mem_cons_of_mem _ hother)
      obtain ⟨more, hmore⟩ := ih hnodup.of_cons (readable_relist hnodup hread _) hrest hrefused
      refine ⟨reads ++ more, ?_⟩
      rw [hgoes, hmore, Transaction.recordReads_recordReads]

-- ---------------------------------------------------------------------------
-- Adding and deleting
-- ---------------------------------------------------------------------------

theorem eq_nil_of_new {keys : List Bytes} (hnew : pk ∉ keys) (hfree : ∀ key ∈ keys, key = pk) :
    keys = [] :=
  List.eq_nil_iff_forall_not_mem.mpr fun key hkey => hnew (hfree key hkey ▸ hkey)

theorem enlist_new {keys : List Bytes} (hnew : pk ∉ keys)
    (hfree : spec.unique = true → ∀ key ∈ keys, key = pk) : enlist pk spec keys = keys ++ [pk] := by
  unfold enlist
  split
  · rename_i hunique
    rw [eq_nil_of_new hnew (hfree hunique), List.nil_append]
  · rw [if_neg fun hmem => hnew (List.contains_iff_mem.mp hmem)]

theorem enlist_again {keys : List Bytes} (hnew : pk ∉ keys)
    (hfree : spec.unique = true → ∀ key ∈ keys, key = pk) :
    enlist pk spec (keys ++ [pk]) = keys ++ [pk] := by
  unfold enlist
  split
  · rename_i hunique
    rw [eq_nil_of_new hnew (hfree hunique), List.nil_append]
  · rw [if_pos (List.contains_iff_mem.mpr List.mem_concat_self)]

theorem delist_enlisted {keys : List Bytes} (hnew : pk ∉ keys) :
    delist pk spec (keys ++ [pk]) = keys := by
  rw [delist, List.filter_append, List.filter_eq_self.mpr fun key hkey => ?_]
  · simp
  · exact bne_iff_ne.mpr fun heq => hnew (heq ▸ hkey)

def added (codec : Codec) (schema : Schema) (pk : Bytes) (doc : Document) (t : Transaction) :
    Transaction :=
  t.relistAll (entryIn codec schema doc) (enlist pk) schema.indexes

/-- What it takes for a key to be added under the values of a document that do not list it yet. -/
structure Addable (codec : Codec) (schema : Schema) (pk : Bytes) (doc : Document)
    (t : Transaction) : Prop where
  named : schema.Named
  writable : t.readOnly = false
  listing : t.view.Listing schema
  fits : KeyList.Fits pk
  keyed : codec.Keyed doc schema.indexes
  new : ∀ spec ∈ schema.indexes, pk ∉ t.view.keysAt (entryIn codec schema doc spec)
  free : ∀ spec ∈ schema.indexes, spec.unique = true →
    ∀ key ∈ t.view.keysAt (entryIn codec schema doc spec), key = pk

namespace Addable

variable (h : Addable codec schema pk doc t)
include h

theorem nodup : (schema.indexes.map (entryIn codec schema doc)).Nodup := nodup_entryIn h.named codec doc

theorem add_run (events : List Event) :
    add codec schema pk doc ⟨t, events⟩ = (.ok (), ⟨added codec schema pk doc t, events⟩) :=
  addIn_run h.writable h.keyed h.nodup (fun _ hspec => h.listing.readable hspec _) h.free

theorem writable_added : (added codec schema pk doc t).readOnly = false :=
  (Transaction.changedWithin_relistAll h.writable).readOnly.trans h.writable

theorem get?_added (hspec : spec ∈ schema.indexes) :
    (added codec schema pk doc t).view.get? (entryIn codec schema doc spec) =
      KeyList.stored (t.view.keysAt (entryIn codec schema doc spec) ++ [pk]) := by
  rw [added, (Transaction.relistAll_spec h.writable h.nodup hspec).1,
    enlist_new (h.new spec hspec) (h.free spec hspec)]

theorem fits_added (entry : Bytes) : ∀ key ∈ t.view.keysAt entry ++ [pk], KeyList.Fits key := by
  intro key hkey
  rcases List.mem_append.mp hkey with hold | hnew
  · exact Data.fits_of_mem_keysAt hold
  · exact List.mem_singleton.mp hnew ▸ h.fits

theorem keysAt_added (hspec : spec ∈ schema.indexes) :
    (added codec schema pk doc t).view.keysAt (entryIn codec schema doc spec) =
      t.view.keysAt (entryIn codec schema doc spec) ++ [pk] :=
  Data.keysAt_of_stored (h.get?_added hspec) (h.fits_added _)

theorem readable_added (hspec : spec ∈ schema.indexes) :
    (added codec schema pk doc t).view.Readable (entryIn codec schema doc spec) := by
  intro bytes hbytes
  rw [h.get?_added hspec, KeyList.stored_of_ne_nil (List.concat_ne_nil _ _)] at hbytes
  cases hbytes
  exact ⟨_, KeyList.decode?_encode (h.fits_added _)⟩

theorem get?_added_of_ne {key : Bytes}
    (hkey : ¬ ∃ spec ∈ schema.indexes, key = entryIn codec schema doc spec) :
    (added codec schema pk doc t).view.get? key = t.view.get? key :=
  (Transaction.changedWithin_relistAll h.writable).view key hkey

theorem delete_added (events : List Event) :
    ∃ t', delete codec schema pk doc ⟨added codec schema pk doc t, events⟩ =
      (.ok (), ⟨t', events⟩) ∧ t'.view = t.view := by
  refine ⟨_, deleteIn_run h.writable_added h.keyed h.nodup fun _ hspec => h.readable_added hspec, ?_⟩
  refine Transaction.view_relistAll_eq h.writable_added h.nodup (fun spec hspec => ?_)
    fun key => h.get?_added_of_ne
  rw [h.keysAt_added hspec, delist_enlisted (h.new spec hspec)]
  exact h.listing.stored_keysAt hspec _

theorem add_added (events : List Event) :
    ∃ t', add codec schema pk doc ⟨added codec schema pk doc t, events⟩ = (.ok (), ⟨t', events⟩) ∧
      t'.view = (added codec schema pk doc t).view := by
  refine ⟨_, addIn_run h.writable_added h.keyed h.nodup (fun _ hspec => h.readable_added hspec)
    fun spec hspec hunique => ?_, ?_⟩
  · rw [h.keysAt_added hspec, eq_nil_of_new (h.new spec hspec) (h.free spec hspec hunique)]
    exact fun key => List.mem_singleton.mp
  · refine Transaction.view_relistAll_eq h.writable_added h.nodup (fun spec hspec => ?_) fun _ _ => rfl
    rw [h.keysAt_added hspec, enlist_again (h.new spec hspec) (h.free spec hspec)]
    exact (h.get?_added hspec).symm

end Addable

/-- If a key, of less than 2^32 bytes as entries can tell, is added under the values of a document, none of whose
entries listed it, then it comes last in each of them. Adding it once more changes nothing, and
deleting it brings back the view as it was. If a value is taken instead, the check of unique values
says so for the same index without writing anything. -/
theorem delete_undoes_add (codec : Codec) (hvalid : schema.check = .ok ())
    (hlisting : t.view.Listing schema) (pk : Bytes) (doc : Document) (events : List Event) :
    (KeyList.Fits pk →
      (∀ spec ∈ schema.indexes, ∀ entry, entryOf codec schema spec doc = .ok entry →
        pk ∉ t.view.keysAt entry) →
      ∀ s, add codec schema pk doc ⟨t, events⟩ = (.ok (), s) →
        (∀ spec ∈ schema.indexes, ∃ entry, entryOf codec schema spec doc = .ok entry ∧
          s.txn.view.keysAt entry = t.view.keysAt entry ++ [pk]) ∧
        (∃ s', delete codec schema pk doc s = (.ok (), s') ∧ s'.txn.view = t.view) ∧
        ∃ s', add codec schema pk doc s = (.ok (), s') ∧ s'.txn.view = s.txn.view) ∧
    ∀ typeName name s,
      add codec schema pk doc ⟨t, events⟩ = (.error (.uniqueExists typeName name), s) →
        ∃ reads, checkUnique codec schema pk doc ⟨t, events⟩ =
          (.error (.uniqueExists typeName name), ⟨t.recordReads reads, events⟩) := by
  have hnamed := Schema.named_of_check hvalid
  have hnodup := nodup_entryIn hnamed codec doc
  have hread : ∀ spec ∈ schema.indexes, t.view.Readable (entryIn codec schema doc spec) :=
    fun _ hspec => hlisting.readable hspec _
  refine ⟨fun hfits hnew s hadd => ?_, fun typeName name s hadd => ?_⟩
  · obtain ⟨hkeyed, hw, hfree⟩ := of_addIn_ok hnodup hread (congrArg Prod.fst hadd)
    by_cases hnil : schema.indexes = []
    · -- Without an index nothing is written, not even where it could be.
      simp only [add, hnil] at hadd
      cases hadd
      exact ⟨by simp [hnil], ⟨⟨t, events⟩, by simp only [delete, hnil]; rfl, rfl⟩,
        ⟨⟨t, events⟩, by simp only [add, hnil]; rfl, rfl⟩⟩
    · have hentry {spec : IndexSpec} (hspec : spec ∈ schema.indexes) :
          entryOf codec schema spec doc = .ok (entryIn codec schema doc spec) :=
        entryOf_eq hkeyed hspec
      have haddable : Addable codec schema pk doc t := ⟨hnamed, hw hnil, hlisting, hfits, hkeyed,
        fun spec hspec => hnew spec hspec _ (hentry hspec),
        fun spec hspec => taken_eq_false_iff.mp (hfree spec hspec)⟩
      obtain ⟨-, rfl⟩ := Prod.mk.inj (hadd.symm.trans (haddable.add_run events))
      obtain ⟨t', hdelete, hview⟩ := haddable.delete_added events
      obtain ⟨t'', hagain, hsame⟩ := haddable.add_added events
      exact ⟨fun spec hspec => ⟨_, hentry hspec, haddable.keysAt_added hspec⟩,
        ⟨_, hdelete, hview⟩, ⟨_, hagain, hsame⟩⟩
  · exact checkUniqueIn_of_addIn_refused hnodup hread (fun _ _ => rfl) (congrArg Prod.fst hadd) events

def shelves : Schema :=
  ⟨"Book", none, [⟨"shelf", "shelf", false⟩, ⟨"code", "code", true⟩], []⟩

def novel : Document := ⟨[("shelf", .int32 1), ("code", .string "b")]⟩

def oneShelved : Transaction where
  view := (∅ : Data).insert (entryIn .bson shelves novel ⟨"shelf", "shelf", false⟩) (KeyList.encode [[1]])
  readSeq := 0
  writes := ∅
  reads := []
  readOnly := false

theorem get?_oneShelved {entry bytes : Bytes} (h : oneShelved.view.get? entry = some bytes) :
    bytes = KeyList.encode [[1]] := by
  simp only [oneShelved, Table.get?_insert] at h
  split at h
  · exact (Option.some.inj h).symm
  · cases h

/-- Put on the same shelf and taken off it again, with a code that nobody has. -/
theorem delete_undoes_add_novel :
    let session : Session := ⟨oneShelved, []⟩
    ∃ s s', shelves.check = .ok () ∧ oneShelved.view.Listing shelves ∧
      add .bson shelves [2] novel session = (.ok (), s) ∧ s.txn.view.size = 2 ∧
      delete .bson shelves [2] novel s = (.ok (), s') ∧ s'.txn.view = oneShelved.view := by
  intro session
  have hfits : KeyList.Fits [2] := (by decide : 1 < Bytes.span 4)
  have hkeys : KeyList.decode? (KeyList.encode [[1]]) = some [[1]] := by decide
  have hlisting : oneShelved.view.Listing shelves := fun spec hspec value bytes hbytes =>
    ⟨[[1]], get?_oneShelved hbytes ▸ hkeys, List.cons_ne_nil _ _⟩
  have hnew (entry : Bytes) : [2] ∉ oneShelved.view.keysAt entry := by
    unfold Data.keysAt
    cases hget : oneShelved.view.get? entry with
    | none => simp
    | some bytes => simp [get?_oneShelved hget, hkeys]
  have hok : (add .bson shelves [2] novel session).1.isOk := by decide +kernel
  have hsize : (add .bson shelves [2] novel session).2.txn.view.size = 2 := by decide +kernel
  rcases hadd : add .bson shelves [2] novel session with ⟨e | _, s⟩
  · rw [hadd] at hok
    cases hok
  · rw [hadd] at hsize
    obtain ⟨-, ⟨s', hdelete, hview⟩, -⟩ := (delete_undoes_add .bson (t := oneShelved) rfl hlisting [2]
      novel []).1 hfits (fun spec _ entry _ => hnew entry) s hadd
    exact ⟨s, s', rfl, hlisting, rfl, hsize, hdelete, hview⟩

end Index

end DocStore
