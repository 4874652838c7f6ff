import Mathlib.Data.List.TakeWhile
import DocStore.Key
import DocStore.Schema

/-!
# The key space

Keys whose names are free of NUL can be read back, and bytes that can be read are those of the key that
was read (`Key.decodes_uniquely`). So different keys never collide, and what starts with the prefix of
an index is one of its entries.
-/

namespace DocStore

-- ---------------------------------------------------------------------------
-- Names
-- ---------------------------------------------------------------------------

theorem Bytes.ofNat_ne_zero {n : Nat} (hlow : 0 < n) (hhigh : n < 256) : (0 : UInt8) ≠ .ofNat n := by
  intro h
  have hn := congrArg UInt8.toNat h
  simp only [UInt8.toNat_zero, UInt8.toNat_ofNat'] at hn
  omega

/-- Of all characters only NUL has a zero byte in its UTF-8 form. -/
theorem Bytes.eq_nul_of_zero_mem {c : Char} (h : (0 : UInt8) ∈ String.utf8EncodeChar c) :
    c = '\x00' := by
  rw [← Char.toNat_inj]
  change c.val.toNat = 0
  unfold String.utf8EncodeChar at h
  generalize c.val.toNat = n at h
  simp only at h
  split at h
  · rename_i hsmall
    have hn := congrArg UInt8.toNat (List.mem_singleton.mp h)
    simp only [UInt8.toNat_zero, UInt8.toNat_ofNat'] at hn
    omega
  · exfalso
    split at h
    · simp only [List.mem_cons, List.not_mem_nil, or_false] at h
      rcases h with h | h <;> exact ofNat_ne_zero (by omega) (by omega) h
    · split at h
      · simp only [List.mem_cons, List.not_mem_nil, or_false] at h
        rcases h with h | h | h <;> exact ofNat_ne_zero (by omega) (by omega) h
      · simp only [List.mem_cons, List.not_mem_nil, or_false] at h
        rcases h with h | h | h | h <;> exact ofNat_ne_zero (by omega) (by omega) h

theorem Bytes.zero_notMem_ofString {s : String} (h : Schema.hasChar s '\x00' = false) :
    (0 : UInt8) ∉ Bytes.ofString s := by
  rw [Bytes.ofString_eq_flatMap, List.mem_flatMap]
  rintro ⟨c, hc, hzero⟩
  rw [Bytes.eq_nul_of_zero_mem hzero] at hc
  simp [Schema.hasChar, hc] at h

theorem Bytes.hasChar_of_zero_notMem {s : String} (h : (0 : UInt8) ∉ Bytes.ofString s) :
    Schema.hasChar s '\x00' = false := by
  rw [Bool.eq_false_iff]
  intro hchar
  rw [Bytes.ofString_eq_flatMap, List.mem_flatMap] at h
  exact h ⟨'\x00', List.contains_iff_mem.mp hchar, by decide⟩

-- ---------------------------------------------------------------------------
-- Keys
-- ---------------------------------------------------------------------------

namespace Key

/-- The names that others follow are free of NUL. -/
def Named : Key → Prop
  | .record typeName _ => Schema.hasChar typeName '\x00' = false
  | .index typeName indexName _ =>
    Schema.hasChar typeName '\x00' = false ∧ Schema.hasChar indexName '\x00' = false
  | .sequence _ => True

theorem splitName_append {name : Bytes} (h : (0 : UInt8) ∉ name) (rest : Bytes) :
    splitName (name ++ separator :: rest) = some (name, rest) := by
  induction name with
  | nil => simp [splitName]
  | cons b name ih =>
    simp only [List.mem_cons, not_or] at h
    have hb : b ≠ separator := Ne.symm h.1
    simp [splitName, hb, ih h.2]

theorem decode?_encode {k : Key} (h : k.Named) : decode? (encode k) = some k := by
  cases k with
  | record typeName key =>
    have hname := splitName_append (Bytes.zero_notMem_ofString h) key
    simp [encode, recordPrefix, decode?, hname, Bytes.toString?_ofString]
  | index typeName indexName value =>
    have hname := splitName_append (Bytes.zero_notMem_ofString h.1)
      (Bytes.ofString indexName ++ separator :: value)
    have hinner := splitName_append (Bytes.zero_notMem_ofString h.2) value
    simp [encode, indexPrefix, decode?, indexTag, recordTag, hname, hinner,
      Bytes.toString?_ofString]
  | sequence typeName =>
    simp [encode, decode?, sequenceTag, indexTag, recordTag, Bytes.toString?_ofString]

theorem splitName_eq_some {b name rest : Bytes} (h : splitName b = some (name, rest)) :
    b = name ++ separator :: rest ∧ (0 : UInt8) ∉ name := by
  induction b generalizing name with
  | nil => cases h
  | cons x tail ih =>
    simp only [splitName] at h
    split at h
    · rename_i hx
      cases h
      exact ⟨by rw [hx, List.nil_append], List.not_mem_nil⟩
    · rename_i hx
      obtain ⟨⟨inner, after⟩, hsplit, heq⟩ := Option.map_eq_some_iff.mp h
      cases heq
      obtain ⟨rfl, hinner⟩ := ih hsplit
      refine ⟨rfl, ?_⟩
      simp only [List.mem_cons, not_or]
      exact ⟨Ne.symm hx, hinner⟩

theorem name_of_splitName {b name rest : Bytes} {s : String} (h : splitName b = some (name, rest))
    (hs : name.toString? = some s) :
    b = Bytes.ofString s ++ separator :: rest ∧ Schema.hasChar s '\x00' = false := by
  obtain ⟨rfl, hname⟩ := splitName_eq_some h
  rw [← Bytes.ofString_of_toString? hs] at hname ⊢
  exact ⟨rfl, Bytes.hasChar_of_zero_notMem hname⟩

theorem encode_of_decode? {b : Bytes} {k : Key} (h : decode? b = some k) :
    k.Named ∧ encode k = b := by
  unfold decode? at h
  split at h
  · rename_i tag sep rest
    split at h
    · cases h
    rename_i hsep
    rw [not_not] at hsep
    split at h
    · -- A record: one name, and then its key.
      rename_i htag
      simp only [Option.bind_eq_bind, Option.bind_eq_some_iff, Option.pure_def, Option.some.injEq] at h
      obtain ⟨⟨name, key⟩, hsplit, typeName, hname, rfl⟩ := h
      obtain ⟨rfl, hnul⟩ := name_of_splitName hsplit hname
      exact ⟨hnul, by simp [encode, recordPrefix, htag, hsep]⟩
    split at h
    · -- An entry: two names, and then its value.
      rename_i htag
      simp only [Option.bind_eq_bind, Option.bind_eq_some_iff, Option.pure_def, Option.some.injEq] at h
      obtain ⟨⟨name, tail⟩, hsplit, typeName, hname, ⟨inner, value⟩, hsplit', indexName, hinner, rfl⟩ := h
      obtain ⟨rfl, hnul⟩ := name_of_splitName hsplit hname
      obtain ⟨rfl, hnul'⟩ := name_of_splitName hsplit' hinner
      exact ⟨⟨hnul, hnul'⟩, by simp [encode, indexPrefix, htag, hsep]⟩
    split at h
    · rename_i htag
      simp only [Option.bind_eq_bind, Option.bind_eq_some_iff, Option.pure_def, Option.some.injEq] at h
      obtain ⟨typeName, hname, rfl⟩ := h
      exact ⟨trivial, by rw [encode, Bytes.ofString_of_toString? hname, htag, hsep]⟩
    · cases h
  · cases h

theorem encode_inj {k k' : Key} (h : k.Named) (h' : k'.Named) : encode k = encode k' ↔ k = k' := by
  refine ⟨fun heq => ?_, congrArg encode⟩
  have hdecoded := congrArg decode? heq
  rw [decode?_encode h, decode?_encode h'] at hdecoded
  exact Option.some.inj hdecoded

def typeName : Key → String
  | .record typeName _ | .index typeName _ _ | .sequence typeName => typeName

theorem takeWhile_encode {k : Key} (h : Schema.hasChar k.typeName '\x00' = false) :
    ((encode k).drop 2).takeWhile (· != separator) = Bytes.ofString k.typeName := by
  have hname : ∀ b ∈ Bytes.ofString k.typeName, (b != separator) = true := by
    refine fun b hb => bne_iff_ne.mpr ?_
    rintro rfl
    exact Bytes.zero_notMem_ofString h hb
  have hends (rest : Bytes) : (Bytes.ofString k.typeName ++ separator :: rest).takeWhile
      (· != separator) = Bytes.ofString k.typeName := by
    rw [List.takeWhile_append_of_pos hname, List.takeWhile_cons_of_neg (by simp), List.append_nil]
  cases k with
  | record name key => simpa [encode, recordPrefix, typeName] using hends key
  | index name indexName value =>
    simpa [encode, indexPrefix, typeName] using hends (Bytes.ofString indexName ++ separator :: value)
  | sequence name => exact List.takeWhile_eq_self_iff.mpr hname

/-- Keys of different types never collide, whatever their other names are. -/
theorem typeName_inj {k k' : Key} (h : Schema.hasChar k.typeName '\x00' = false)
    (h' : Schema.hasChar k'.typeName '\x00' = false) (heq : encode k = encode k') :
    k.typeName = k'.typeName := by
  have hname : Bytes.ofString k.typeName = Bytes.ofString k'.typeName := by
    rw [← takeWhile_encode h, heq, takeWhile_encode h']
  have hread := congrArg Bytes.toString? hname
  rwa [Bytes.toString?_ofString, Bytes.toString?_ofString, Option.some.injEq] at hread

theorem indexPrefix_prefix_iff {k : Key} (h : k.Named) {typeName indexName : String}
    (htype : Schema.hasChar typeName '\x00' = false)
    (hindex : Schema.hasChar indexName '\x00' = false) :
    indexPrefix typeName indexName <+: encode k ↔ ∃ value, k = .index typeName indexName value := by
  constructor
  · rintro ⟨value, hvalue⟩
    have heq : encode (.index typeName indexName value) = encode k := hvalue
    have hnamed : Named (.index typeName indexName value) := ⟨htype, hindex⟩
    exact ⟨value, ((encode_inj hnamed h).mp heq).symm⟩
  · rintro ⟨value, rfl⟩
    exact ⟨value, rfl⟩

theorem recordPrefix_prefix_iff {k : Key} (h : k.Named) {typeName : String}
    (htype : Schema.hasChar typeName '\x00' = false) :
    recordPrefix typeName <+: encode k ↔ ∃ key, k = .record typeName key := by
  constructor
  · rintro ⟨key, hkey⟩
    have heq : encode (.record typeName key) = encode k := hkey
    have hnamed : Named (.record typeName key) := htype
    exact ⟨key, ((encode_inj hnamed h).mp heq).symm⟩
  · rintro ⟨key, rfl⟩
    exact ⟨key, rfl⟩

/-- Bytes are read as a key exactly if it is written as these bytes and the names that something follows
are free of NUL; what follows them may be any bytes. A written key starts like the records of a type
exactly if it is one of them, and like the entries of an index exactly if it is one of those. -/
theorem decodes_uniquely :
    (∀ (b : Bytes) (k : Key), decode? b = some k ↔ k.Named ∧ encode k = b) ∧
      ∀ k : Key, k.Named → ∀ typeName, Schema.hasChar typeName '\x00' = false →
        (recordPrefix typeName <+: encode k ↔ ∃ key, k = .record typeName key) ∧
          ∀ indexName, Schema.hasChar indexName '\x00' = false →
            (indexPrefix typeName indexName <+: encode k ↔
              ∃ value, k = .index typeName indexName value) := by
  refine ⟨fun b k => ⟨encode_of_decode?, ?_⟩, fun k hk typeName htype => ?_⟩
  · rintro ⟨hk, rfl⟩
    exact decode?_encode hk
  · exact ⟨recordPrefix_prefix_iff hk htype, fun indexName hindex =>
      indexPrefix_prefix_iff hk htype hindex⟩

/-- A value full of NULs behind names of which one starts with the other. -/
theorem decodes_uniquely_edges :
    let entry : Key := .index "Item" "ItemTest" [0, 0, 0xff, 0]
    let test : Key := .record "ItemTest" [0]
    entry.Named ∧ test.Named ∧ decode? (encode entry) = some entry ∧
      indexPrefix "Item" "ItemTest" <+: encode entry ∧ ¬ indexPrefix "Item" "Item" <+: encode entry ∧
      ¬ recordPrefix "Item" <+: encode test := by
  intro entry test
  have hentry : entry.Named := ⟨by decide, by decide⟩
  have htest : Schema.hasChar "ItemTest" '\x00' = false := by decide
  have hitem : Schema.hasChar "Item" '\x00' = false := by decide
  obtain ⟨hread, hstarts⟩ := decodes_uniquely
  have hentries := (hstarts entry hentry "Item" hitem).2
  refine ⟨hentry, htest, (hread _ entry).mpr ⟨hentry, rfl⟩, ?_, ?_, ?_⟩
  · exact (hentries "ItemTest" (by decide)).mpr ⟨_, rfl⟩
  · rw [hentries "Item" hitem]
    rintro ⟨value, hvalue⟩
    simp [entry] at hvalue
  · rw [(hstarts test htest "Item" hitem).1]
    rintro ⟨key, hkey⟩
    simp [test] at hkey

end Key

end DocStore
