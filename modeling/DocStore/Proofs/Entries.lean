import DocStore.Proofs.KeyLayout
import DocStore.Proofs.KeyLists
import DocStore.Proofs.Runs
import DocStore.Proofs.Schedule

/-!
# Work on index entries

What the index does with its entries, said in terms of the transaction. Every change replaces the
list of keys in one entry per index (`relist`), after reading it. `deleteIn_run` and `addIn_run`
find the same loop over the indexes in both; `relistAll_spec` says what that loop leaves behind.
-/

namespace DocStore

def Data.keysAt (data : Data) (entry : Bytes) : List Bytes :=
  ((data.get? entry).bind KeyList.decode?).getD []

def Data.Readable (data : Data) (entry : Bytes) : Prop :=
  ∀ bytes, data.get? entry = some bytes → ∃ keys, KeyList.decode? bytes = some keys

/-- How a list of keys is kept: an empty one is not. -/
def KeyList.stored (keys : List Bytes) : Option Bytes :=
  if keys.isEmpty then none else some (KeyList.encode keys)

theorem KeyList.stored_of_ne_nil {keys : List Bytes} (h : keys ≠ []) :
    stored keys = some (encode keys) :=
  if_neg fun hempty => h (List.isEmpty_iff.mp hempty)

theorem Data.keysAt_of_stored {data : Data} {entry : Bytes} {keys : List Bytes}
    (h : data.get? entry = KeyList.stored keys) (hfits : ∀ key ∈ keys, KeyList.Fits key) :
    data.keysAt entry = keys := by
  unfold KeyList.stored at h
  split at h
  · rename_i hempty
    simp [keysAt, h, List.isEmpty_iff.mp hempty]
  · simp [keysAt, h, KeyList.decode?_encode hfits]

theorem Data.keysAt_congr {data data' : Data} {entry : Bytes}
    (h : data.get? entry = data'.get? entry) : data.keysAt entry = data'.keysAt entry := by
  simp [keysAt, h]

namespace Transaction

variable (t : Transaction)

def assign (key : Bytes) (value : Option Bytes) : Transaction :=
  { t with
    view := match value with
      | some value => t.view.insert key value
      | none => t.view.erase key
    writes := t.writes.insert key value }

def relist (entry : Bytes) (keys : List Bytes) : Transaction :=
  (t.recordReads [entry]).assign entry (KeyList.stored keys)

def relistAll (entry : IndexSpec → Bytes) (change : IndexSpec → List Bytes → List Bytes) :
    List IndexSpec → Transaction → Transaction
  | [], t => t
  | spec :: rest, t =>
    relistAll entry change rest
      (t.relist (entry spec) (change spec (t.view.keysAt (entry spec))))

variable {t}

theorem view_assign (key other : Bytes) (value : Option Bytes) :
    (t.assign key value).view.get? other = if other = key then value else t.view.get? other := by
  cases value with
  | none => exact Table.get?_erase _ _ _
  | some value => exact Table.get?_insert _ _ _ _

theorem writes_assign (key other : Bytes) (value : Option Bytes) :
    (t.assign key value).writes.get? other =
      if other = key then some value else t.writes.get? other :=
  Table.get?_insert _ _ _ _

@[simp] theorem reads_assign (key : Bytes) (value : Option Bytes) :
    (t.assign key value).reads = t.reads := rfl

@[simp] theorem readOnly_assign (key : Bytes) (value : Option Bytes) :
    (t.assign key value).readOnly = t.readOnly := rfl

@[simp] theorem view_recordReads (keys : List Bytes) : (t.recordReads keys).view = t.view := rfl

@[simp] theorem writes_recordReads (keys : List Bytes) :
    (t.recordReads keys).writes = t.writes := rfl

@[simp] theorem readOnly_recordReads (keys : List Bytes) :
    (t.recordReads keys).readOnly = t.readOnly := rfl

theorem recordReads_recordReads (keys more : List Bytes) :
    (t.recordReads keys).recordReads more = t.recordReads (keys ++ more) := by
  simp [recordReads]

theorem mem_reads_recordReads (keys : List Bytes) (key : Bytes) :
    key ∈ (t.recordReads keys).reads ↔ key ∈ keys ∨ key ∈ t.reads := by
  simp [recordReads]

/-- Every key that was written had been read. -/
def Covered (t : Transaction) : Prop := ∀ key, (t.writes.get? key).isSome → key ∈ t.reads

/-- The transaction has gone on from `t` to `t'` and has changed nothing but some of the `keys`. -/
structure ChangedWithin (keys : Bytes → Prop) (t t' : Transaction) : Prop where
  readSeq : t'.readSeq = t.readSeq
  readOnly : t'.readOnly = t.readOnly
  stands : ∀ base, t.StandsOn base → t'.StandsOn base
  reads : ∀ key ∈ t.reads, key ∈ t'.reads
  written : ∀ key, (t.writes.get? key).isSome → (t'.writes.get? key).isSome
  view : ∀ key, ¬ keys key → t'.view.get? key = t.view.get? key
  writes : ∀ key, ¬ keys key → t'.writes.get? key = t.writes.get? key

def OnlyRead (t t' : Transaction) : Prop := ∃ reads, t' = t.recordReads reads

namespace OnlyRead

theorem refl (t : Transaction) : t.OnlyRead t := ⟨[], rfl⟩

theorem recordReads (t : Transaction) (reads : List Bytes) : t.OnlyRead (t.recordReads reads) :=
  ⟨reads, rfl⟩

theorem trans {t' t'' : Transaction} (h : t.OnlyRead t') (h' : t'.OnlyRead t'') : t.OnlyRead t'' := by
  obtain ⟨reads, rfl⟩ := h
  obtain ⟨more, rfl⟩ := h'
  exact ⟨reads ++ more, recordReads_recordReads reads more⟩

end OnlyRead

namespace ChangedWithin

variable {keys keys' : Bytes → Prop} {t' t'' : Transaction}

theorem refl (t : Transaction) : t.ChangedWithin keys t :=
  ⟨rfl, rfl, fun _ h => h, fun _ h => h, fun _ h => h, fun _ _ => rfl, fun _ _ => rfl⟩

theorem trans (h : t.ChangedWithin keys t') (h' : t'.ChangedWithin keys t'') :
    t.ChangedWithin keys t'' where
  readSeq := h'.readSeq.trans h.readSeq
  readOnly := h'.readOnly.trans h.readOnly
  stands base hbase := h'.stands base (h.stands base hbase)
  reads key hkey := h'.reads key (h.reads key hkey)
  written key hkey := h'.written key (h.written key hkey)
  view key hkey := (h'.view key hkey).trans (h.view key hkey)
  writes key hkey := (h'.writes key hkey).trans (h.writes key hkey)

theorem mono (h : t.ChangedWithin keys t') (hkeys : ∀ key, keys key → keys' key) :
    t.ChangedWithin keys' t' :=
  { h with
    view := fun key hkey => h.view key fun hold => hkey (hkeys key hold)
    writes := fun key hkey => h.writes key fun hold => hkey (hkeys key hold) }

theorem recordReads (t : Transaction) (reads : List Bytes) :
    t.ChangedWithin keys (t.recordReads reads) :=
  { refl t with
    stands := fun _ hbase => hbase.recordReads reads
    reads := fun key hkey => (mem_reads_recordReads reads key).mpr (.inr hkey) }

theorem assign (hw : t.readOnly = false) {key : Bytes} (hkey : keys key) (value : Option Bytes) :
    t.ChangedWithin keys (t.assign key value) where
  readSeq := rfl
  readOnly := rfl
  stands base hbase := by
    refine ⟨fun other => ?_, fun hro => absurd hro (by simp [hw])⟩
    rw [view_assign, writes_assign, hbase.view]
    split <;> rfl
  reads _ h := h
  written other h := by
    rw [writes_assign]
    split
    · rfl
    · exact h
  view other h := by
    rw [view_assign, if_neg]
    rintro rfl
    exact h hkey
  writes other h := by
    rw [writes_assign, if_neg]
    rintro rfl
    exact h hkey

theorem relist (hw : t.readOnly = false) {entry : Bytes} (hentry : keys entry)
    (list : List Bytes) : t.ChangedWithin keys (t.relist entry list) :=
  (recordReads t [entry]).trans (assign (t := t.recordReads [entry]) hw hentry _)

end ChangedWithin

theorem Covered.recordReads (h : t.Covered) (reads : List Bytes) : (t.recordReads reads).Covered :=
  fun key hkey => (mem_reads_recordReads reads key).mpr (.inr (h key hkey))

theorem Covered.assign (h : t.Covered) {key : Bytes} (hkey : key ∈ t.reads)
    (value : Option Bytes) : (t.assign key value).Covered := by
  intro other hother
  rw [writes_assign] at hother
  split at hother
  · rename_i heq
    exact heq ▸ hkey
  · exact h other hother

theorem Covered.relist (h : t.Covered) (entry : Bytes) (keys : List Bytes) :
    (t.relist entry keys).Covered :=
  (h.recordReads [entry]).assign (by simp [mem_reads_recordReads]) _

variable {entry : IndexSpec → Bytes} {change : IndexSpec → List Bytes → List Bytes}
  {specs : List IndexSpec}

theorem changedWithin_relistAll (hw : t.readOnly = false) :
    t.ChangedWithin (fun key => ∃ spec ∈ specs, key = entry spec)
      (t.relistAll entry change specs) := by
  induction specs generalizing t with
  | nil => exact .refl t
  | cons spec rest ih =>
    have hhead : t.ChangedWithin (fun key => ∃ spec' ∈ spec :: rest, key = entry spec')
        (t.relist (entry spec) (change spec (t.view.keysAt (entry spec)))) :=
      .relist hw ⟨spec, List.mem_cons_self, rfl⟩ _
    refine hhead.trans ((ih (t := t.relist _ _) hw).mono ?_)
    rintro key ⟨spec', hspec, rfl⟩
    exact ⟨spec', List.mem_cons_of_mem _ hspec, rfl⟩

theorem Covered.relistAll (h : t.Covered) : (t.relistAll entry change specs).Covered := by
  induction specs generalizing t with
  | nil => exact h
  | cons spec rest ih => exact ih (h.relist _ _)

/-- The loop changes each entry once, whatever it does to the others. -/
theorem relistAll_spec (hw : t.readOnly = false) (hnodup : (specs.map entry).Nodup) {spec : IndexSpec}
    (hspec : spec ∈ specs) :
    (t.relistAll entry change specs).view.get? (entry spec) =
        KeyList.stored (change spec (t.view.keysAt (entry spec))) ∧
      ((t.relistAll entry change specs).writes.get? (entry spec)).isSome := by
  induction specs generalizing t with
  | nil => cases hspec
  | cons head rest ih =>
    rw [List.map_cons, List.nodup_cons] at hnodup
    simp only [Transaction.relistAll]
    have hrest : (t.relist (entry head) (change head (t.view.keysAt (entry head)))).ChangedWithin
        (fun key => ∃ spec ∈ rest, key = entry spec)
        ((t.relist (entry head) (change head (t.view.keysAt (entry head)))).relistAll entry change
          rest) :=
      changedWithin_relistAll hw
    rcases List.mem_cons.mp hspec with rfl | hspec
    · -- The rest of the loop is about other entries.
      have hout : ¬ ∃ spec' ∈ rest, entry spec = entry spec' := by
        rintro ⟨spec', hmem, heq⟩
        exact hnodup.1 (heq ▸ List.mem_map_of_mem hmem)
      rw [hrest.view _ hout, hrest.writes _ hout]
      simp [relist, view_assign, writes_assign]
    · have hne : entry spec ≠ entry head := fun heq =>
        hnodup.1 (heq ▸ List.mem_map_of_mem hspec)
      have hview : (t.relist (entry head) (change head (t.view.keysAt (entry head)))).view.get?
          (entry spec) = t.view.get? (entry spec) := by
        simp [relist, view_assign, hne]
      have := ih (t := t.relist (entry head) (change head (t.view.keysAt (entry head)))) hw hnodup.2
        hspec
      rwa [Data.keysAt_congr hview] at this

end Transaction

-- ---------------------------------------------------------------------------
-- The loops of the index
-- ---------------------------------------------------------------------------

def Codec.valueKey (codec : Codec) (doc : Document) (spec : IndexSpec) : Bytes :=
  match codec.encodeKey (doc.lookupOrNull spec.field) with
  | .ok key => key
  | .error _ => []

def Codec.Keyed (codec : Codec) (doc : Document) (specs : List IndexSpec) : Prop :=
  ∀ spec ∈ specs, ∃ key, codec.encodeKey (doc.lookupOrNull spec.field) = .ok key

theorem Codec.Keyed.encodeKey {codec : Codec} {doc : Document} {specs : List IndexSpec}
    (h : codec.Keyed doc specs) {spec : IndexSpec} (hspec : spec ∈ specs) :
    codec.encodeKey (doc.lookupOrNull spec.field) = .ok (codec.valueKey doc spec) := by
  obtain ⟨key, hkey⟩ := h spec hspec
  simp [valueKey, hkey]

/-- The documents have the same encoded values in the indexed fields. -/
def Codec.Alike (codec : Codec) (specs : List IndexSpec) (doc doc' : Document) : Prop :=
  ∀ spec ∈ specs,
    codec.encodeKey (doc.lookupOrNull spec.field) = codec.encodeKey (doc'.lookupOrNull spec.field)

namespace Codec.Alike

variable {codec : Codec} {specs : List IndexSpec} {doc doc' doc'' : Document}

theorem refl (doc : Document) : codec.Alike specs doc doc := fun _ _ => rfl

theorem symm (h : codec.Alike specs doc doc') : codec.Alike specs doc' doc := fun spec hspec =>
  (h spec hspec).symm

theorem trans (h : codec.Alike specs doc doc') (h' : codec.Alike specs doc' doc'') :
    codec.Alike specs doc doc'' := fun spec hspec => (h spec hspec).trans (h' spec hspec)

theorem keyed (h : codec.Alike specs doc doc') (hkeyed : codec.Keyed doc' specs) :
    codec.Keyed doc specs := by
  intro spec hspec
  rw [h spec hspec]
  exact hkeyed spec hspec

theorem valueKey (h : codec.Alike specs doc doc') {spec : IndexSpec} (hspec : spec ∈ specs) :
    codec.valueKey doc spec = codec.valueKey doc' spec := by
  simp only [Codec.valueKey, h spec hspec]

end Codec.Alike

theorem Codec.Keyed.of_cons {codec : Codec} {doc : Document} {spec : IndexSpec}
    {specs : List IndexSpec} (h : codec.Keyed doc (spec :: specs)) : codec.Keyed doc specs :=
  fun other hother => h other (List.mem_cons_of_mem _ hother)

theorem Codec.Keyed.head {codec : Codec} {doc : Document} {spec : IndexSpec}
    {specs : List IndexSpec} (h : codec.Keyed doc (spec :: specs)) : codec.Keyed doc [spec] :=
  List.forall_mem_singleton.mpr (h spec List.mem_cons_self)

namespace Index

variable {codec : Codec} {schema : Schema} {doc : Document} {pk : Bytes} {specs : List IndexSpec}
  {s : Session}

def entryAt (schema : Schema) (spec : IndexSpec) (value : Bytes) : Bytes :=
  Key.encode (.index schema.typeName spec.name value)

def entryIn (codec : Codec) (schema : Schema) (doc : Document) (spec : IndexSpec) : Bytes :=
  entryAt schema spec (codec.valueKey doc spec)

def enlist (pk : Bytes) (spec : IndexSpec) (keys : List Bytes) : List Bytes :=
  if spec.unique then [pk] else if keys.contains pk then keys else keys ++ [pk]

def delist (pk : Bytes) (_ : IndexSpec) (keys : List Bytes) : List Bytes := keys.filter (· != pk)

theorem enlist_ne_nil (pk : Bytes) (spec : IndexSpec) (keys : List Bytes) :
    enlist pk spec keys ≠ [] := by
  unfold enlist
  split
  · simp
  · split
    · rename_i hmem
      exact List.ne_nil_of_mem (List.contains_iff_mem.mp hmem)
    · simp

theorem of_mem_enlist {pk key : Bytes} {spec : IndexSpec} {keys : List Bytes}
    (h : key ∈ enlist pk spec keys) : key = pk ∨ key ∈ keys := by
  unfold enlist at h
  split at h
  · exact .inl (List.mem_singleton.mp h)
  · split at h
    · exact .inr h
    · simpa [or_comm] using h

theorem mem_enlist {pk key : Bytes} {spec : IndexSpec} {keys : List Bytes}
    (hfree : spec.unique = true → keys = []) : key ∈ enlist pk spec keys ↔ key = pk ∨ key ∈ keys := by
  refine ⟨of_mem_enlist, fun h => ?_⟩
  unfold enlist
  split
  · rename_i hunique
    simpa [hfree hunique] using h
  · split
    · rename_i hlisted
      rcases h with rfl | h
      · exact List.contains_iff_mem.mp hlisted
      · exact h
    · simpa [or_comm] using h

theorem nodup_enlist {pk : Bytes} {spec : IndexSpec} {keys : List Bytes} (h : keys.Nodup) :
    (enlist pk spec keys).Nodup := by
  unfold enlist
  split
  · exact List.pairwise_singleton _ pk
  · split
    · exact h
    · rename_i hnew
      have hnew' : pk ∉ keys := fun hmem => hnew (List.contains_iff_mem.mpr hmem)
      simpa [List.nodup_append] using ⟨h, fun key hkey heq => hnew' (heq ▸ hkey)⟩

theorem length_enlist_le_one {pk : Bytes} {spec : IndexSpec} (hunique : spec.unique = true)
    (keys : List Bytes) : (enlist pk spec keys).length ≤ 1 := by
  simp [enlist, hunique]

theorem entryOf_eq (hdoc : codec.Keyed doc specs) {spec : IndexSpec} (hspec : spec ∈ specs) :
    entryOf codec schema spec doc = .ok (entryIn codec schema doc spec) := by
  simp only [entryOf, entryKey, hdoc.encodeKey hspec]
  rfl

theorem readEntry_run {data : Data} {entry : Bytes} (h : data.Readable entry) (spec : IndexSpec)
    (reads : List Bytes) :
    readEntry schema spec entry data reads = (.ok (data.keysAt entry), entry :: reads) := by
  cases hget : data.get? entry with
  | none =>
    simp only [readEntry, Reading.run_bind, Reading.get, hget, Reading.run_pure, Data.keysAt,
      Option.bind_none, Option.getD_none]
  | some bytes =>
    obtain ⟨keys, hkeys⟩ := h bytes hget
    simp only [readEntry, Reading.run_bind, Reading.get, hget, hkeys, Reading.run_pure,
      Data.keysAt, Option.bind_some, Option.getD_some]

theorem readEntryOf_run (hdoc : codec.Keyed doc specs) {spec : IndexSpec} (hspec : spec ∈ specs)
    (hread : s.txn.view.Readable (entryIn codec schema doc spec)) :
    readEntryOf codec schema spec doc s =
      (.ok (entryIn codec schema doc spec, s.txn.view.keysAt (entryIn codec schema doc spec)),
        { s with txn := s.txn.recordReads [entryIn codec schema doc spec] }) := by
  simp only [readEntryOf, entryOf_eq hdoc hspec, run_bind, run_pure, Work.ofExcept, Work.ofReading,
    readEntry_run hread]
  rfl

theorem put_run {t : Transaction} (hw : t.readOnly = false) (key value : Bytes)
    (events : List Event) :
    Work.put key value ⟨t, events⟩ = (.ok (), ⟨t.assign key (some value), events⟩) := by
  unfold Work.put Transaction.put
  rw [if_neg (by simp [hw])]
  rfl

theorem delete_run {t : Transaction} (hw : t.readOnly = false) (key : Bytes)
    (events : List Event) :
    Work.delete key ⟨t, events⟩ = (.ok (), ⟨t.assign key none, events⟩) := by
  unfold Work.delete Transaction.delete
  rw [if_neg (by simp [hw])]
  rfl

theorem put_readOnly {t : Transaction} (hro : t.readOnly = true) (key value : Bytes)
    (events : List Event) :
    Work.put key value ⟨t, events⟩ = (.error (.store .readOnly), ⟨t, events⟩) := by
  unfold Work.put Transaction.put
  rw [if_pos hro]

theorem delete_readOnly {t : Transaction} (hro : t.readOnly = true) (key : Bytes)
    (events : List Event) :
    Work.delete key ⟨t, events⟩ = (.error (.store .readOnly), ⟨t, events⟩) := by
  unfold Work.delete Transaction.delete
  rw [if_pos hro]

theorem get?_relist {t : Transaction} {entry : IndexSpec → Bytes} {spec : IndexSpec}
    (hnodup : ((spec :: specs).map entry).Nodup) (keys : List Bytes) :
    ∀ other ∈ specs, (t.relist (entry spec) keys).view.get? (entry other) =
      t.view.get? (entry other) := by
  intro other hother
  rw [List.map_cons, List.nodup_cons] at hnodup
  have hne : entry other ≠ entry spec := fun heq =>
    hnodup.1 (heq ▸ List.mem_map_of_mem hother)
  rw [Transaction.relist, Transaction.view_assign, if_neg hne]
  rfl

theorem readable_relist {t : Transaction} {spec : IndexSpec}
    (hnodup : ((spec :: specs).map (entryIn codec schema doc)).Nodup)
    (hread : ∀ other ∈ spec :: specs, t.view.Readable (entryIn codec schema doc other))
    (keys : List Bytes) :
    ∀ other ∈ specs,
      (t.relist (entryIn codec schema doc spec) keys).view.Readable (entryIn codec schema doc other) := by
  intro other hother bytes hbytes
  rw [get?_relist hnodup _ other hother] at hbytes
  exact hread other (List.mem_cons_of_mem _ hother) bytes hbytes

theorem deleteIn_cons (hw : s.txn.readOnly = false) {spec : IndexSpec}
    (hdoc : codec.Keyed doc (spec :: specs))
    (hread : s.txn.view.Readable (entryIn codec schema doc spec)) :
    deleteIn codec schema pk doc (spec :: specs) s =
      deleteIn codec schema pk doc specs
        ⟨s.txn.relist (entryIn codec schema doc spec)
          (delist pk spec (s.txn.view.keysAt (entryIn codec schema doc spec))), s.events⟩ := by
  have hread' : (s.txn.recordReads [entryIn codec schema doc spec]).readOnly = false := hw
  simp only [deleteIn, run_bind, readEntryOf_run hdoc List.mem_cons_self hread, Transaction.relist]
  split
  · rename_i hempty
    have hstored : KeyList.stored
        (delist pk spec (s.txn.view.keysAt (entryIn codec schema doc spec))) = none := if_pos hempty
    simp only [run_bind, delete_run hread', hstored]
  · rename_i hkept
    have hstored := KeyList.stored_of_ne_nil fun hnil => hkept (List.isEmpty_iff.mpr hnil)
    simp only [run_bind, put_run hread', delist, hstored]

theorem deleteIn_run (hw : s.txn.readOnly = false) (hdoc : codec.Keyed doc specs)
    (hnodup : (specs.map (entryIn codec schema doc)).Nodup)
    (hread : ∀ spec ∈ specs, s.txn.view.Readable (entryIn codec schema doc spec)) :
    deleteIn codec schema pk doc specs s =
      (.ok (), { s with txn := s.txn.relistAll (entryIn codec schema doc) (delist pk) specs }) := by
  induction specs generalizing s with
  | nil => rfl
  | cons spec rest ih =>
    rw [deleteIn_cons hw hdoc (hread spec List.mem_cons_self)]
    exact ih hw hdoc.of_cons hnodup.of_cons (readable_relist hnodup hread _)

theorem addIn_cons (hw : s.txn.readOnly = false) {spec : IndexSpec} (hdoc : codec.Keyed doc [spec])
    (hread : s.txn.view.Readable (entryIn codec schema doc spec))
    (hfree : spec.unique = true →
      ∀ key ∈ s.txn.view.keysAt (entryIn codec schema doc spec), key = pk) :
    addIn codec schema pk doc (spec :: specs) s =
      addIn codec schema pk doc specs
        ⟨s.txn.relist (entryIn codec schema doc spec)
          (enlist pk spec (s.txn.view.keysAt (entryIn codec schema doc spec))), s.events⟩ := by
  have hread' : (s.txn.recordReads [entryIn codec schema doc spec]).readOnly = false := hw
  have hstored := KeyList.stored_of_ne_nil
    (enlist_ne_nil pk spec (s.txn.view.keysAt (entryIn codec schema doc spec)))
  simp only [addIn, run_bind, readEntryOf_run hdoc List.mem_cons_self hread, Transaction.relist,
    hstored]
  by_cases hunique : spec.unique = true
  · have hany : (s.txn.view.keysAt (entryIn codec schema doc spec)).any (· != pk) = false := by
      simpa using hfree hunique
    simp only [hunique, hany, if_true, Bool.false_eq_true, if_false, run_bind, put_run hread',
      enlist]
  · simp only [hunique, Bool.false_eq_true, if_false, run_bind, put_run hread', enlist]

/-- Adding succeeds where no unique value is held by another key. -/
theorem addIn_run (hw : s.txn.readOnly = false) (hdoc : codec.Keyed doc specs)
    (hnodup : (specs.map (entryIn codec schema doc)).Nodup)
    (hread : ∀ spec ∈ specs, s.txn.view.Readable (entryIn codec schema doc spec))
    (hfree : ∀ spec ∈ specs, spec.unique = true →
      ∀ key ∈ s.txn.view.keysAt (entryIn codec schema doc spec), key = pk) :
    addIn codec schema pk doc specs s =
      (.ok (), { s with txn := s.txn.relistAll (entryIn codec schema doc) (enlist pk) specs }) := by
  induction specs generalizing s with
  | nil => rfl
  | cons spec rest ih =>
    rw [addIn_cons hw hdoc.head (hread spec List.mem_cons_self) (hfree spec List.mem_cons_self)]
    refine ih hw hdoc.of_cons hnodup.of_cons (readable_relist hnodup hread _)
      fun other hother hunique => ?_
    rw [Data.keysAt_congr (get?_relist hnodup _ other hother)]
    exact hfree other (List.mem_cons_of_mem _ hother) hunique

theorem deleteIn_readOnly {t : Transaction} (hro : t.readOnly = true)
    (hdoc : codec.Keyed doc specs)
    (hread : ∀ spec ∈ specs, t.view.Readable (entryIn codec schema doc spec))
    (events : List Event) :
    Triple (deleteIn codec schema pk doc specs) ⟨t, events⟩ (fun _ s => t.OnlyRead s.txn)
      (fun s => t.OnlyRead s.txn) := by
  cases specs with
  | nil => exact Triple.pure (.refl t)
  | cons spec rest =>
    have hread' : (t.recordReads [entryIn codec schema doc spec]).readOnly = true := hro
    refine Triple.bind_of_run
      (readEntryOf_run hdoc List.mem_cons_self (hread spec List.mem_cons_self)) ?_
    dsimp only
    split
    · exact Triple.of_run_error (by rw [run_bind, delete_readOnly hread']) (.recordReads t _)
    · exact Triple.of_run_error (by rw [run_bind, put_readOnly hread']) (.recordReads t _)

/-- The document's value in the field of a unique index is listed for another key than `pk`. -/
def taken (codec : Codec) (schema : Schema) (data : Data) (pk : Bytes) (doc : Document)
    (spec : IndexSpec) : Bool :=
  spec.unique && (data.keysAt (entryIn codec schema doc spec)).any (· != pk)

theorem taken_congr {data data' : Data} {spec : IndexSpec}
    (h : data.get? (entryIn codec schema doc spec) = data'.get? (entryIn codec schema doc spec)) :
    taken codec schema data pk doc spec = taken codec schema data' pk doc spec := by
  rw [taken, taken, Data.keysAt_congr h]

theorem taken_eq_false_iff {data : Data} {spec : IndexSpec} :
    taken codec schema data pk doc spec = false ↔
      (spec.unique = true → ∀ key ∈ data.keysAt (entryIn codec schema doc spec), key = pk) := by
  simp [taken]

theorem checkUniqueIn_cons_taken {t : Transaction} {spec : IndexSpec} (hdoc : codec.Keyed doc [spec])
    (hread : t.view.Readable (entryIn codec schema doc spec))
    (htaken : taken codec schema t.view pk doc spec = true) (events : List Event) :
    checkUniqueIn codec schema pk doc (spec :: specs) ⟨t, events⟩ =
      (.error (.uniqueExists schema.typeName spec.name),
        ⟨t.recordReads [entryIn codec schema doc spec], events⟩) := by
  obtain ⟨hunique, hany⟩ := Bool.and_eq_true_iff.mp htaken
  have hrun := readEntryOf_run (s := ⟨t, events⟩) hdoc List.mem_cons_self hread
  rw [checkUniqueIn, if_pos hunique, run_bind, hrun]
  simp only [hany, if_true]
  rfl

theorem checkUniqueIn_cons_free {t : Transaction} {spec : IndexSpec} (hdoc : codec.Keyed doc [spec])
    (hread : t.view.Readable (entryIn codec schema doc spec))
    (hfree : taken codec schema t.view pk doc spec = false) (specs : List IndexSpec)
    (events : List Event) :
    ∃ reads, checkUniqueIn codec schema pk doc (spec :: specs) ⟨t, events⟩ =
      checkUniqueIn codec schema pk doc specs ⟨t.recordReads reads, events⟩ := by
  rw [checkUniqueIn]
  by_cases hunique : spec.unique = true
  · have hrun := readEntryOf_run (s := ⟨t, events⟩) hdoc List.mem_cons_self hread
    have hany : (t.view.keysAt (entryIn codec schema doc spec)).any (· != pk) = false := by
      simpa using taken_eq_false_iff.mp hfree hunique
    refine ⟨[entryIn codec schema doc spec], ?_⟩
    rw [if_pos hunique, run_bind, hrun]
    simp only [hany, Bool.false_eq_true, if_false]
  · exact ⟨[], by rw [if_neg hunique]; rfl⟩

/-- The check of unique values names the first index whose value is taken. It only reads. -/
theorem checkUniqueIn_run {t : Transaction} (pk : Bytes) (hdoc : codec.Keyed doc specs)
    (hread : ∀ spec ∈ specs, t.view.Readable (entryIn codec schema doc spec)) (events : List Event) :
    ∃ reads, checkUniqueIn codec schema pk doc specs ⟨t, events⟩ =
      (match specs.find? (taken codec schema t.view pk doc) with
        | some spec => .error (.uniqueExists schema.typeName spec.name)
        | none => .ok (), ⟨t.recordReads reads, events⟩) := by
  induction specs generalizing t with
  | nil => exact ⟨[], rfl⟩
  | cons spec rest ih =>
    have hhead := hread spec List.mem_cons_self
    cases htaken : taken codec schema t.view pk doc spec with
    | true =>
      rw [List.find?_cons_of_pos htaken]
      exact ⟨_, checkUniqueIn_cons_taken hdoc.head hhead htaken events⟩
    | false =>
      -- The rest of the check goes on with the same view and perhaps one more read.
      obtain ⟨reads, hgoes⟩ := checkUniqueIn_cons_free hdoc.head hhead htaken rest events
      obtain ⟨more, hmore⟩ := ih (t := t.recordReads reads) hdoc.of_cons
        fun other hother => hread other (List.mem_cons_of_mem _ hother)
      refine ⟨reads ++ more, ?_⟩
      rw [hgoes, hmore, List.find?_cons_of_neg (by simp [htaken]), Transaction.view_recordReads,
        Transaction.recordReads_recordReads]

theorem eq_of_not_taken {data : Data} (h : specs.find? (taken codec schema data pk doc) = none) :
    ∀ spec ∈ specs, spec.unique = true →
      ∀ key ∈ data.keysAt (entryIn codec schema doc spec), key = pk := fun spec hspec =>
  taken_eq_false_iff.mp (Bool.eq_false_iff.mpr (List.find?_eq_none.mp h spec hspec))

end Index

end DocStore
