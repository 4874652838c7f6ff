import DocStore.Key

/-!
# Lists of keys

A list of primary keys is written key behind key, each behind its length. A reader takes the keys off the
front one by one (`next?`), and from any bytes it comes to an end with one answer (`reads_iff`). A list
can be read back as long as four bytes can tell the length of each key, and only what was written as
such a list can be read; what ends inside a length or a key is refused (`decodes_exactly`).
-/

namespace DocStore

namespace KeyList

variable {bytes key rest chunk : Bytes} {keys : List Bytes} {answer : Option (List Bytes)}

-- ---------------------------------------------------------------------------
-- One key
-- ---------------------------------------------------------------------------

/-- Four bytes can tell the length of the key. -/
def Fits (key : Bytes) : Prop := key.length < Bytes.span 4

/-- The first key and the bytes behind it, unless the bytes end inside its length or inside the key. -/
def next? (bytes : Bytes) : Option (Bytes × Bytes) := do
  let (head, body) ← Bytes.split? 4 bytes
  Bytes.split? (Bytes.ofBe head) body

theorem ofBe_be_of_fits (h : Fits key) : Bytes.ofBe (Bytes.be 4 key.length) = key.length := by
  rw [Bytes.ofBe_be]
  exact Nat.mod_eq_of_lt h

theorem be_of_ofBe {head : Bytes} (hfour : head.length = 4) (h : key.length = Bytes.ofBe head) :
    Fits key ∧ Bytes.be 4 key.length = head := by
  have hlt := Bytes.ofBe_lt head
  have hagain := Bytes.be_ofBe head
  rw [hfour, ← h] at hlt hagain
  exact ⟨hlt, hagain⟩

theorem next?_eq_some_iff :
    next? bytes = some (key, rest) ↔ Fits key ∧ bytes = Bytes.be 4 key.length ++ key ++ rest := by
  simp only [next?, Option.bind_eq_bind, Option.bind_eq_some_iff, Prod.exists,
    Bytes.split?_eq_some_iff]
  constructor
  · rintro ⟨head, body, ⟨hfour, rfl⟩, hlength, rfl⟩
    obtain ⟨hfits, hhead⟩ := be_of_ofBe hfour hlength
    exact ⟨hfits, by rw [hhead, List.append_assoc]⟩
  · rintro ⟨hfits, rfl⟩
    exact ⟨_, _, ⟨Bytes.length_be 4 key.length, List.append_assoc _ _ _⟩,
      (ofBe_be_of_fits hfits).symm, rfl⟩

/-- Even an empty key takes up the four bytes of its length. -/
theorem length_lt_of_next? (h : next? bytes = some (key, rest)) : rest.length < bytes.length := by
  rw [(next?_eq_some_iff.mp h).2]
  simp only [List.length_append, Bytes.length_be]
  omega

-- ---------------------------------------------------------------------------
-- Runs of the reader
-- ---------------------------------------------------------------------------

/-- The runs, each of finitely many turns, of a reader that takes off key after key until nothing is left
or a key is cut short. -/
inductive Reads : Bytes → Option (List Bytes) → Prop
  | done : Reads [] (some [])
  | short {bytes : Bytes} (hne : bytes ≠ []) (h : next? bytes = none) : Reads bytes none
  | turn {bytes key rest : Bytes} {answer : Option (List Bytes)}
      (h : next? bytes = some (key, rest)) (hrest : Reads rest answer) :
      Reads bytes (answer.map (key :: ·))

theorem Reads.unique {answer' : Option (List Bytes)} (h : Reads bytes answer)
    (h' : Reads bytes answer') : answer = answer' := by
  induction h generalizing answer' with
  | done =>
    cases h' with
    | done => rfl
    | short hne => exact absurd rfl hne
    | turn hnext => cases hnext
  | short hne hnone =>
    cases h' with
    | done => exact absurd rfl hne
    | short => rfl
    | turn hnext =>
      rw [hnone] at hnext
      cases hnext
  | turn hnext _ ih =>
    cases h' with
    | done => cases hnext
    | short _ hnone =>
      rw [hnone] at hnext
      cases hnext
    | turn hnext' hrest =>
      rw [hnext] at hnext'
      cases hnext'
      rw [ih hrest]

theorem decodeWith_succ {fuel : Nat} (hne : bytes ≠ []) :
    decodeWith (fuel + 1) bytes =
      (next? bytes).bind fun (key, rest) => (decodeWith fuel rest).map (key :: ·) := by
  cases bytes with
  | nil => exact absurd rfl hne
  | cons b more =>
    simp only [decodeWith, next?, Bytes.split?_eq]
    generalize b :: more = bytes
    split
    · rfl
    · simp only [Option.bind_eq_bind, Option.bind_some]
      split <;> rfl

/-- A turn takes at least four bytes, so the reader never takes more turns than there are bytes. -/
theorem reads_decodeWith {fuel : Nat} (h : bytes.length ≤ fuel) :
    Reads bytes (decodeWith fuel bytes) := by
  induction fuel generalizing bytes with
  | zero =>
    obtain rfl := List.length_eq_zero_iff.mp (Nat.le_zero.mp h)
    exact .done
  | succ fuel ih =>
    by_cases hne : bytes = []
    · subst hne
      exact .done
    rw [decodeWith_succ hne]
    cases hnext : next? bytes with
    | none => exact .short hne hnext
    | some first =>
      obtain ⟨key, rest⟩ := first
      have hlt := length_lt_of_next? hnext
      exact .turn hnext (ih (by omega))

theorem reads_iff : Reads bytes answer ↔ decode? bytes = answer := by
  have hrun : Reads bytes (decode? bytes) := reads_decodeWith (Nat.le_refl _)
  exact ⟨hrun.unique, fun h => h ▸ hrun⟩

theorem decode?_of_next? (h : next? bytes = some (key, rest)) :
    decode? bytes = (decode? rest).map (key :: ·) :=
  reads_iff.mp (.turn h (reads_iff.mpr rfl))

-- ---------------------------------------------------------------------------
-- What was written
-- ---------------------------------------------------------------------------

theorem decode?_encode_append (h : ∀ key ∈ keys, Fits key) (rest : Bytes) :
    decode? (encode keys ++ rest) = (decode? rest).map (keys ++ ·) := by
  induction keys with
  | nil => simp [encode]
  | cons key more ih =>
    obtain ⟨hkey, hmore⟩ := List.forall_mem_cons.mp h
    have hnext : next? (encode (key :: more) ++ rest) = some (key, encode more ++ rest) :=
      next?_eq_some_iff.mpr ⟨hkey, by simp only [encode, List.append_assoc]⟩
    rw [decode?_of_next? hnext, ih hmore, Option.map_map]
    rfl

theorem decode?_encode (h : ∀ key ∈ keys, Fits key) : decode? (encode keys) = some keys := by
  have hread := decode?_encode_append h []
  rw [List.append_nil] at hread
  rw [hread, reads_iff.mp .done, Option.map_some, List.append_nil]

theorem encode_of_decode? (h : decode? bytes = some keys) :
    encode keys = bytes ∧ ∀ key ∈ keys, Fits key := by
  replace h := reads_iff.mpr h
  generalize hanswer : some keys = answer at h
  induction h generalizing keys with
  | done =>
    cases hanswer
    exact ⟨rfl, nofun⟩
  | short => cases hanswer
  | turn hnext _ ih =>
    obtain ⟨more, hmore, rfl⟩ := Option.map_eq_some_iff.mp hanswer.symm
    obtain ⟨rfl, hfits⟩ := ih hmore.symm
    obtain ⟨hkey, rfl⟩ := next?_eq_some_iff.mp hnext
    exact ⟨rfl, List.forall_mem_cons.mpr ⟨hkey, hfits⟩⟩

theorem length_le_length_encode (keys : List Bytes) : keys.length ≤ (encode keys).length := by
  induction keys with
  | nil => simp
  | cons key rest ih =>
    simp only [encode, List.length_append, List.length_cons, Bytes.length_be]
    omega

theorem length_le_of_decode? (h : decode? bytes = some keys) : keys.length ≤ bytes.length := by
  rw [← (encode_of_decode? h).1]
  exact length_le_length_encode keys

-- ---------------------------------------------------------------------------
-- What is refused
-- ---------------------------------------------------------------------------

def Complete (chunk : Bytes) : Prop := chunk.length = 4 + Bytes.ofBe (chunk.take 4)

/-- The bytes are complete chunks, one behind the other. -/
def Chunked (bytes : Bytes) : Prop :=
  ∃ chunks : List Bytes, (∀ chunk ∈ chunks, Complete chunk) ∧ chunks.flatten = bytes

theorem complete_of_fits (h : Fits key) : Complete (Bytes.be 4 key.length ++ key) := by
  have hhead : (Bytes.be 4 key.length ++ key).take 4 = Bytes.be 4 key.length :=
    List.take_left' (Bytes.length_be 4 key.length)
  rw [Complete, hhead, ofBe_be_of_fits h, List.length_append, Bytes.length_be]

theorem chunked_encode (h : ∀ key ∈ keys, Fits key) : Chunked (encode keys) := by
  refine ⟨keys.map fun key => Bytes.be 4 key.length ++ key, ?_, ?_⟩
  · intro chunk hchunk
    obtain ⟨key, hkey, rfl⟩ := List.mem_map.mp hchunk
    exact complete_of_fits (h key hkey)
  · clear h
    induction keys with
    | nil => rfl
    | cons key more ih => rw [List.map_cons, List.flatten_cons, ih, encode]

theorem next?_append_of_complete (h : Complete chunk) (rest : Bytes) :
    next? (chunk ++ rest) = some (chunk.drop 4, rest) := by
  have hfour : (chunk.take 4).length = 4 := by
    rw [List.length_take, h]
    omega
  have hlength : (chunk.drop 4).length = Bytes.ofBe (chunk.take 4) := by
    rw [List.length_drop, h]
    omega
  obtain ⟨hfits, hhead⟩ := be_of_ofBe hfour hlength
  exact next?_eq_some_iff.mpr ⟨hfits, by rw [hhead, List.take_append_drop]⟩

theorem chunked_iff : Chunked bytes ↔ ∃ keys, decode? bytes = some keys := by
  constructor
  · rintro ⟨chunks, hcomplete, rfl⟩
    induction chunks with
    | nil => exact ⟨[], reads_iff.mp .done⟩
    | cons chunk more ih =>
      obtain ⟨hchunk, hmore⟩ := List.forall_mem_cons.mp hcomplete
      obtain ⟨keys, hkeys⟩ := ih hmore
      refine ⟨chunk.drop 4 :: keys, ?_⟩
      rw [List.flatten_cons, decode?_of_next? (next?_append_of_complete hchunk _), hkeys]
      rfl
  · rintro ⟨keys, h⟩
    obtain ⟨rfl, hfits⟩ := encode_of_decode? h
    exact chunked_encode hfits

theorem decode?_eq_none_iff : decode? bytes = none ↔ ¬ Chunked bytes := by
  rw [chunked_iff, not_exists, Option.eq_none_iff_forall_ne_some]

theorem decode?_take_eq_none_iff (h : ∀ key ∈ keys, Fits key) (n : Nat) :
    decode? ((encode keys).take n) = none ↔
      ∀ m, (encode keys).take n ≠ encode (keys.take m) := by
  rw [Option.eq_none_iff_forall_ne_some]
  constructor
  · intro hnone m heq
    refine hnone (keys.take m) ?_
    rw [heq]
    exact decode?_encode fun key hkey => h key (List.mem_of_mem_take hkey)
  · intro hcut front hfront
    obtain ⟨hbytes, hfits⟩ := encode_of_decode? hfront
    -- The whole list is read as the keys in front of the cut and those behind it.
    have hread := decode?_encode_append hfits ((encode keys).drop n)
    rw [hbytes, List.take_append_drop, decode?_encode h] at hread
    obtain ⟨more, -, rfl⟩ := Option.map_eq_some_iff.mp hread.symm
    exact hcut front.length (by rw [List.take_left, hbytes])

/-- A list is read back if four bytes can tell the length of each of its keys, and refused if it was cut
off anywhere but between two of them. From any bytes the reader comes to an end, and with one answer
only: keys that are written as these bytes, or a refusal, which is given exactly if the bytes are not
complete chunks one behind the other. -/
theorem decodes_exactly :
    (∀ keys, (∀ key ∈ keys, Fits key) →
      decode? (encode keys) = some keys ∧
        ∀ n, decode? ((encode keys).take n) = none ↔
          ∀ m, (encode keys).take n ≠ encode (keys.take m)) ∧
      ∀ bytes,
        (∀ answer, Reads bytes answer ↔ decode? bytes = answer) ∧
          (∀ keys, decode? bytes = some keys → encode keys = bytes ∧ ∀ key ∈ keys, Fits key) ∧
          (decode? bytes = none ↔ ¬ Chunked bytes) :=
  ⟨fun _ h => ⟨decode?_encode h, decode?_take_eq_none_iff h⟩,
    fun _ => ⟨fun _ => reads_iff, fun _ => encode_of_decode?, decode?_eq_none_iff⟩⟩

/-- An empty key between two others: cut behind it, inside its length, and with a length that points
past the end. -/
theorem decodes_exactly_edges :
    let keys : List Bytes := [[0x61], [], [0x00, 0x01]]
    (∀ key ∈ keys, Fits key) ∧ decode? (encode keys) = some keys ∧
      decode? ((encode keys).take 9) ≠ none ∧ decode? ((encode keys).take 7) = none ∧
      Reads [0, 0, 0, 9, 1] none ∧ ¬ Chunked [0, 0, 0, 9, 1] := by
  intro keys
  have hfits : ∀ key ∈ keys, Fits key := by unfold Fits; decide
  obtain ⟨hwritten, hread⟩ := decodes_exactly
  obtain ⟨hback, hcut⟩ := hwritten keys hfits
  obtain ⟨hruns, -, hrefused⟩ := hread [0, 0, 0, 9, 1]
  have hpast : decode? [0, 0, 0, 9, 1] = none := by decide
  refine ⟨hfits, hback, ?_, ?_, (hruns none).mpr hpast, hrefused.mp hpast⟩
  · intro hnone
    exact (hcut 9).mp hnone 2 (by decide)
  · refine (hcut 7).mpr fun m heq => ?_
    have hlength := congrArg List.length heq
    match m with
    | 0 | 1 | 2 => revert hlength; decide
    | m + 3 => revert hlength; simp [keys, encode]

end KeyList

end DocStore
