import DocStore.Codec.MessagePack
import DocStore.Codec.OrderedKey
import DocStore.Proofs.Keeping

/-!
# Keys of values

Both codecs can make a key of every value of a document that they can store. An ordered key is read
back as the value it was made from, but for the smaller kind of integer, which comes back as the
larger one.
-/

namespace DocStore

-- ---------------------------------------------------------------------------
-- Values of stored documents
-- ---------------------------------------------------------------------------

namespace Bson

theorem unencodable?_get? {fields : Fields} {name : String} {value : Value}
    (h : unencodableField? fields = none) (hget : fields.get? name = some value) :
    unencodable? value = none := by
  induction fields with
  | nil => cases hget
  | cons field rest ih =>
    obtain ⟨other, head⟩ := field
    simp only [unencodableField?] at h
    split at h
    · cases h
    · split at h
      · cases h
      · rename_i hhead
        simp only [Fields.get?] at hget
        split at hget
        · cases hget
          exact hhead
        · exact ih h hget

theorem unencodable?_follow {fields : Fields} {names : List String} {value : Value}
    (h : unencodableField? fields = none) (hget : Path.follow fields names = some value) :
    unencodable? value = none := by
  induction names generalizing fields with
  | nil => cases hget
  | cons name rest ih =>
    cases rest with
    | nil => exact unencodable?_get? h hget
    | cons next more =>
      simp only [Path.follow] at hget
      split at hget
      · rename_i inner hinner
        have hvalue := unencodable?_get? h hinner
        exact ih hvalue hget
      · cases hget

end Bson

theorem OrderedKey.encode_ok {value : Value} (h : Bson.unencodable? value = none) :
    ∃ key, encode value = .ok key := by
  have hbson : Bson.encode value =
      .ok (Bson.enclose (Bson.fieldBytes [(Bson.payloadName, value)])) := by
    simp only [Bson.encode, h]
  cases value <;> first | exact ⟨_, rfl⟩ | simp [encode, hbson, bind, Except.bind, pure, Except.pure]

theorem Codec.bson_keysStored : Codec.bson.KeysStored := by
  intro doc bytes hencode path
  have hdoc : Bson.unencodable? doc.toValue = none := by
    simp only [bson, Bson.encode] at hencode
    split at hencode
    · cases hencode
    · assumption
  unfold Document.lookupOrNull
  cases hlookup : doc.lookup path with
  | none => exact ⟨_, rfl⟩
  | some value => exact OrderedKey.encode_ok (Bson.unencodable?_follow hdoc hlookup)

theorem Codec.messagePack_keysStored : Codec.messagePack.KeysStored :=
  fun _ _ _ _ => ⟨_, rfl⟩

-- ---------------------------------------------------------------------------
-- Ordered keys
-- ---------------------------------------------------------------------------

namespace OrderedKey

def widened : Value → Value
  | .int32 n => .int64 n.toInt64
  | value => value

theorem integerOfBytes_integerBytes (n : Int64) : integerOfBytes (integerBytes n) = n := by
  have hmin : Int64.minValue.toInt = -9223372036854775808 := rfl
  have hlow := n.le_toInt
  have hhigh := n.toInt_lt
  have hspan : Bytes.span 8 = 18446744073709551616 := rfl
  unfold integerOfBytes integerBytes
  rw [Bytes.ofBe_be, hspan, hmin, Nat.mod_eq_of_lt (by omega)]
  apply Int64.toInt_inj.mp
  rw [Int64.toInt_ofInt_of_le (by omega) (by omega)]
  omega

theorem doubleOfBytes_doubleBytes (x : Double) : doubleOfBytes (doubleBytes x) = x := by
  obtain ⟨bits⟩ := x
  have hbits := bits.toNat_lt
  have hspan : Bytes.span 8 = UInt64.size := rfl
  have hsize : UInt64.size = 18446744073709551616 := rfl
  have hsign : Double.signBit = 9223372036854775808 := rfl
  simp only [doubleOfBytes, doubleBytes, Double.isNegative, Bytes.ofBe_be, hspan, hsign]
  congr 1
  apply UInt64.toNat_inj.mp
  by_cases hneg : 9223372036854775808 ≤ bits.toNat
  · simp only [hneg, decide_true, if_true]
    rw [Nat.mod_eq_of_lt (by omega), if_neg (by omega), UInt64.toNat_ofNat_of_lt' (by omega)]
    omega
  · simp only [hneg, decide_false, Bool.false_eq_true, if_false]
    rw [Nat.mod_eq_of_lt (by omega), if_pos (by omega), UInt64.toNat_ofNat_of_lt' (by omega)]
    omega

theorem decodeText_ofString (s : String) : decodeText (Bytes.ofString s) = .ok (.string s) := by
  simp [decodeText, Bytes.toString?_ofString]

theorem decodeObjectId_bytes (id : ObjectId) : decodeObjectId id.bytes = .ok (.objectId id) := by
  simp [decodeObjectId, FixedBytes.ofBytes?, id.length_eq]

theorem decode_integer (n : Int64) : decode (integerTag :: integerBytes n) = .ok (.int64 n) := by
  have hfixed : fixed .integer (integerBytes n) = .ok (integerBytes n) := by
    simp [fixed, integerBytes, KeyKind.width]
  simp [decode, hfixed, integerOfBytes_integerBytes, integerTag, nullTag, booleanTag, bind,
    Except.bind, pure, Except.pure]

theorem decode_date (millis : Int64) :
    decode (dateTag :: integerBytes millis) = .ok (.date millis) := by
  have hfixed : fixed .datetime (integerBytes millis) = .ok (integerBytes millis) := by
    simp [fixed, integerBytes, KeyKind.width]
  simp [decode, hfixed, integerOfBytes_integerBytes, dateTag, nullTag, booleanTag, integerTag,
    doubleTag, stringTag, bind, Except.bind, pure, Except.pure]

theorem decode_double (x : Double) : decode (doubleTag :: doubleBytes x) = .ok (.double x) := by
  have hfixed : fixed .double (doubleBytes x) = .ok (doubleBytes x) := by
    simp [fixed, doubleBytes, KeyKind.width]
  simp [decode, hfixed, doubleOfBytes_doubleBytes, doubleTag, nullTag, booleanTag, integerTag, bind,
    Except.bind, pure, Except.pure]

theorem decode_composite {value : Value} {key : Bytes}
    (hbson : ∀ bytes, key = compositeTag :: bytes → Bson.decode bytes = .ok value)
    (h : (do
      let bytes ← Bson.encode value
      pure (compositeTag :: bytes)) = .ok key) : decode key = .ok value := by
  cases hencode : Bson.encode value with
  | error e => simp [hencode, bind, Except.bind] at h
  | ok bytes =>
    simp only [hencode, bind, Except.bind, pure, Except.pure, Except.ok.injEq] at h
    subst h
    exact hbson bytes rfl

/-- A key is read back as the value it stands for, if BSON restores what the key holds as BSON. -/
theorem decode_of_encode {value : Value} {key : Bytes}
    (hbson : ∀ bytes, key = compositeTag :: bytes → Bson.decode bytes = .ok value)
    (h : encode value = .ok key) : decode key = .ok (widened value) := by
  cases value with
  | null =>
    cases h
    rfl
  | boolean b =>
    cases h
    cases b <;> rfl
  | int32 n =>
    cases h
    exact decode_integer n.toInt64
  | int64 n =>
    cases h
    exact decode_integer n
  | double x =>
    cases h
    exact decode_double x
  | string s =>
    cases h
    exact decodeText_ofString s
  | date millis =>
    cases h
    exact decode_date millis
  | objectId id =>
    cases h
    exact decodeObjectId_bytes id
  | binary subtype data =>
    cases h
    rfl
  | _ => exact decode_composite hbson h

theorem encode_of_composite {value : Value} {bytes : Bytes}
    (h : encode value = .ok (compositeTag :: bytes)) : Bson.encode value = .ok bytes := by
  cases value with
  | null | boolean _ | int32 _ | int64 _ | double _ | string _ | date _ | objectId _ | binary _ _ =>
    simp [encode, compositeTag, nullTag, booleanTag, integerTag, doubleTag, stringTag, dateTag,
      objectIdTag, binaryTag] at h
  | _ =>
    simp only [encode, bind, Except.bind] at h
    split at h
    · cases h
    · rename_i hencode
      cases h
      exact hencode

theorem decode_encode {value : Value} {key : Bytes}
    (hbson : ∀ bytes, Bson.encode value = .ok bytes → Bson.decode bytes = .ok value)
    (h : encode value = .ok key) : decode key = .ok (widened value) := by
  refine decode_of_encode (fun bytes hkey => hbson bytes (encode_of_composite ?_)) h
  rw [h, hkey]

theorem encode_widened (value : Value) : encode (widened value) = encode value := by
  cases value <;> rfl

end OrderedKey

theorem Records.fits_number {settings : Settings} (hcodec : settings.codec = .bson) {n : Nat}
    {pk : Bytes} (h : encodeKey settings (.number n) = .ok pk) : KeyList.Fits pk := by
  unfold encodeKey PrimaryKey.toValue at h
  simp only [hcodec] at h
  split at h
  · cases h
    simp [KeyList.Fits, OrderedKey.integerBytes, Bytes.span]
  · cases h

theorem Records.decodeKey_number {settings : Settings} (hcodec : settings.codec = .bson) {n : Nat}
    {pk : Bytes} (h : encodeKey settings (.number n) = .ok pk) :
    settings.codec.decodeKey pk = .ok (.int64 (Int64.ofNat n)) := by
  unfold encodeKey PrimaryKey.toValue at h
  simp only [hcodec] at h ⊢
  split at h
  · cases h
    exact OrderedKey.decode_integer _
  · cases h

end DocStore
