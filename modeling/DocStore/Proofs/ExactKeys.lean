import DocStore.Proofs.KeyCodecs

/-!
# Exact keys

An ordered key and the value it stands for determine each other. What was encoded is read back, bit for
bit, and what is read under a tag that leaves nothing open is what would be written for the value. So
two values share a key only if they are one integer in two widths, and no value with an ordered key
shares one with a value that is held as BSON.
-/

namespace DocStore

/-- Values whose keys do not go through BSON. -/
def Value.IsScalar : Value → Prop
  | .null | .boolean _ | .int32 _ | .int64 _ | .double _ | .string _ | .date _ | .objectId _
  | .binary _ _ => True
  | _ => False

namespace OrderedKey

variable {value found : Value} {key rest : Bytes}

-- ---------------------------------------------------------------------------
-- From values to keys and back
-- ---------------------------------------------------------------------------

theorem encode_scalar (h : value.IsScalar) :
    ∃ tag payload, encode value = .ok (tag :: payload) ∧ tag ≠ compositeTag := by
  cases value <;> first | exact ⟨_, _, rfl, by decide⟩ | cases h

theorem not_composite_of_scalar (h : value.IsScalar) (bytes : Bytes) :
    encode value ≠ .ok (compositeTag :: bytes) := by
  obtain ⟨tag, payload, hencode, hne⟩ := encode_scalar h
  rw [hencode]
  intro heq
  exact hne (List.cons.inj (Except.ok.inj heq)).1

theorem decode_scalar (h : value.IsScalar) (hencode : encode value = .ok key) :
    decode key = .ok (widened value) := by
  refine decode_of_encode (fun bytes hkey => ?_) hencode
  exact absurd (hkey ▸ hencode) (not_composite_of_scalar h bytes)

theorem encode_composite (h : ¬ value.IsScalar) : encode value = (do
    let bytes ← Bson.encode value
    pure (compositeTag :: bytes)) := by
  cases value <;> first | rfl | exact absurd trivial h

/-- A key is read as what BSON makes of the value, failures included. -/
theorem decode_encode_composite (h : ¬ value.IsScalar) :
    (encode value >>= decode) = (Bson.encode value >>= Bson.decode) := by
  rw [encode_composite h]
  cases Bson.encode value <;> rfl

theorem widened_inj_of_encode {other : Value} (hvalue : value.IsScalar) (hother : other.IsScalar)
    (h : encode value = encode other) : widened value = widened other := by
  obtain ⟨_, _, hencode, -⟩ := encode_scalar hvalue
  have hdecode := decode_scalar hvalue hencode
  rw [decode_scalar hother (h ▸ hencode)] at hdecode
  exact (Except.ok.inj hdecode).symm

theorem encode_scalar_ne_composite {other : Value} (hvalue : value.IsScalar) (hother : ¬ other.IsScalar) :
    encode value ≠ encode other := by
  obtain ⟨tag, payload, hencode, hne⟩ := encode_scalar hvalue
  rw [hencode, encode_composite hother]
  cases Bson.encode other with
  | error e => nofun
  | ok bytes => exact fun h => hne (List.cons.inj (Except.ok.inj h)).1

-- ---------------------------------------------------------------------------
-- From keys to values and back
-- ---------------------------------------------------------------------------

theorem integerBytes_integerOfBytes {b : Bytes} (h : b.length = 8) :
    integerBytes (integerOfBytes b) = b := by
  have hmin : Int64.minValue.toInt = -9223372036854775808 := rfl
  have hlt := Bytes.ofBe_lt b
  rw [h] at hlt
  have hspan : Bytes.span 8 = 18446744073709551616 := rfl
  unfold integerBytes integerOfBytes
  rw [Int64.toInt_ofInt_of_le (by omega) (by omega), Int.add_sub_cancel, Int.toNat_natCast, ← h,
    Bytes.be_ofBe]

theorem doubleBytes_doubleOfBytes {b : Bytes} (h : b.length = 8) :
    doubleBytes (doubleOfBytes b) = b := by
  have hlt := Bytes.ofBe_lt b
  rw [h] at hlt
  have hspan : Bytes.span 8 = 18446744073709551616 := rfl
  have hsize : UInt64.size = 18446744073709551616 := rfl
  have hsign : Double.signBit = 9223372036854775808 := rfl
  have hagain : Bytes.be 8 (Bytes.ofBe b) = b := h ▸ Bytes.be_ofBe b
  have hbits : (doubleOfBytes b).bits.toNat = if Double.signBit ≤ Bytes.ofBe b
      then Bytes.ofBe b - Double.signBit else UInt64.size - 1 - Bytes.ofBe b := by
    unfold doubleOfBytes
    exact UInt64.toNat_ofNat_of_lt' (by split <;> omega)
  refine Eq.trans (congrArg (Bytes.be 8) ?_) hagain
  rw [Double.isNegative]
  simp only [hbits, decide_eq_true_eq]
  split <;> split <;> omega

theorem of_fixed_ok {what : KeyKind} {read : Bytes → Value} {b : Bytes}
    (h : (fixed what b).map read = .ok value) : value = read b ∧ b.length = what.width := by
  unfold fixed at h
  split at h
  · rename_i hlength
    exact ⟨(Except.ok.inj h).symm, hlength⟩
  · cases h

/-- The tags that leave nothing open: each key under them is the key of a value. -/
def exactTags : List UInt8 := [integerTag, doubleTag, stringTag, dateTag, objectIdTag, binaryTag]

theorem encode_of_decodeText {b : Bytes} (h : decodeText b = .ok value) :
    encode value = .ok (stringTag :: b) := by
  unfold decodeText at h
  split at h
  · rename_i s hs
    cases h
    rw [encode, Bytes.ofString_of_toString? hs]
  · cases h
  · cases h

theorem encode_of_decodeObjectId {b : Bytes} (h : decodeObjectId b = .ok value) :
    encode value = .ok (objectIdTag :: b) := by
  unfold decodeObjectId FixedBytes.ofBytes? at h
  split at h
  · rename_i id hid
    split at hid
    · cases hid
      cases h
      rfl
    · cases hid
  · cases h

theorem encode_of_decode {tag : UInt8} (htag : tag ∈ exactTags) (h : decode (tag :: rest) = .ok value) :
    encode value = .ok (tag :: rest) := by
  simp only [exactTags, List.mem_cons, List.not_mem_nil, or_false] at htag
  rcases htag with rfl | rfl | rfl | rfl | rfl | rfl
  case inl =>
    have hread : decode (integerTag :: rest) =
        (fixed .integer rest).map fun b => .int64 (integerOfBytes b) := rfl
    obtain ⟨rfl, hlength⟩ := of_fixed_ok (hread.symm.trans h)
    rw [encode, integerBytes_integerOfBytes hlength]
  case inr.inl =>
    have hread : decode (doubleTag :: rest) =
        (fixed .double rest).map fun b => .double (doubleOfBytes b) := rfl
    obtain ⟨rfl, hlength⟩ := of_fixed_ok (hread.symm.trans h)
    rw [encode, doubleBytes_doubleOfBytes hlength]
  case inr.inr.inl =>
    have hread : decode (stringTag :: rest) = decodeText rest := rfl
    exact encode_of_decodeText (hread.symm.trans h)
  case inr.inr.inr.inl =>
    have hread : decode (dateTag :: rest) =
        (fixed .datetime rest).map fun b => .date (integerOfBytes b) := rfl
    obtain ⟨rfl, hlength⟩ := of_fixed_ok (hread.symm.trans h)
    rw [encode, integerBytes_integerOfBytes hlength]
  case inr.inr.inr.inr.inl =>
    have hread : decode (objectIdTag :: rest) = decodeObjectId rest := rfl
    exact encode_of_decodeObjectId (hread.symm.trans h)
  case inr.inr.inr.inr.inr =>
    cases rest with
    | nil => cases h
    | cons subtype data =>
      cases h
      rfl

end OrderedKey

namespace Codec

open OrderedKey

/-- Scalar values can be read back from their keys, an integer in its larger kind, and other values as
BSON restores them. Only a value of the same meaning shares the key of a scalar value. Under the tags
that leave nothing open, all that can be read is what would be written. -/
theorem bson_keys_exact :
    (∀ value : Value, value.IsScalar →
      ∃ key, bson.encodeKey value = .ok key ∧ bson.decodeKey key = .ok (widened value)) ∧
    (∀ value, widened value = value ∨
      ∃ n : Int32, value = .int32 n ∧ widened value = .int64 n.toInt64 ∧ n.toInt64.toInt = n.toInt) ∧
    (∀ value : Value, ¬ value.IsScalar →
      (bson.encodeKey value >>= bson.decodeKey) = (bson.encode value >>= bson.decode)) ∧
    (∀ value other : Value, value.IsScalar → other.IsScalar →
      (bson.encodeKey value = bson.encodeKey other ↔ widened value = widened other)) ∧
    (∀ value other : Value, value.IsScalar → ¬ other.IsScalar →
      bson.encodeKey value ≠ bson.encodeKey other) ∧
    (∀ tag ∈ exactTags, ∀ rest value, bson.decodeKey (tag :: rest) = .ok value →
      bson.encodeKey value = .ok (tag :: rest)) := by
  refine ⟨fun value hvalue => ?_, fun value => ?_, fun _ => decode_encode_composite,
    fun value other hvalue hother => ⟨widened_inj_of_encode hvalue hother, fun h => ?_⟩,
    fun _ _ => encode_scalar_ne_composite, fun _ htag _ _ => encode_of_decode htag⟩
  · obtain ⟨tag, payload, hencode, -⟩ := encode_scalar hvalue
    exact ⟨tag :: payload, hencode, decode_scalar hvalue hencode⟩
  · cases value with
    | int32 n => exact .inr ⟨n, rfl, rfl, n.toInt_toInt64⟩
    | _ => exact .inl rfl
  · change OrderedKey.encode value = OrderedKey.encode other
    rw [← encode_widened, h, encode_widened]

theorem bson_keys_exact_edges :
    let nan : Value := .double ⟨0xfff8000000000001⟩
    let small : Value := .int32 (-1)
    let list : Value := .array [small]
    nan.IsScalar ∧ small.IsScalar ∧ ¬ list.IsScalar ∧ binaryTag ∈ exactTags ∧
    (∃ key, bson.encodeKey nan = .ok key ∧ bson.decodeKey key = .ok nan) ∧
    (bson.encodeKey list >>= bson.decodeKey) = (bson.encode list >>= bson.decode) ∧
    (bson.encodeKey small = bson.encodeKey nan ↔ widened small = nan) ∧
    bson.encodeKey nan ≠ bson.encodeKey list ∧
    bson.decodeKey [binaryTag, 0x80, 0] = .ok (.binary 0x80 [0]) ∧
    bson.encodeKey (.binary 0x80 [0]) = .ok [binaryTag, 0x80, 0] := by
  intro nan small list
  obtain ⟨hread, -, hlist, hshared, hapart, hwritten⟩ := bson_keys_exact
  refine ⟨trivial, trivial, id, by decide, hread nan trivial, hlist list id,
    hshared small nan trivial trivial, hapart nan list trivial id, rfl, ?_⟩
  exact hwritten binaryTag (by decide) [0x80, 0] (.binary 0x80 [0]) rfl

end Codec

end DocStore
