/-!
# Byte strings

Store keys, record contents and encoded values are byte strings, compared byte by byte with a
proper prefix first. Fixed-width numbers are written with `be` (most significant byte first) and
`le`, and read back with `ofBe` and `ofLe`.
-/

namespace DocStore

abbrev Bytes := List UInt8

namespace Bytes

def ofString (s : String) : Bytes := s.toUTF8.data.toList

def toString? (b : Bytes) : Option String := String.fromUTF8? ⟨b.toArray⟩

theorem toString?_ofString (s : String) : toString? (ofString s) = some s := by
  have h : (⟨s.toUTF8.data⟩ : ByteArray) = s.toByteArray := rfl
  simp only [toString?, ofString, Array.toArray_toList, h, String.fromUTF8?, s.isValidUTF8,
    dite_true]
  rfl

theorem ofString_of_toString? {b : Bytes} {s : String} (h : toString? b = some s) :
    ofString s = b := by
  unfold toString? String.fromUTF8? at h
  split at h
  · cases h
    rfl
  · contradiction

theorem ofString_eq_flatMap (s : String) : ofString s = s.toList.flatMap String.utf8EncodeChar := by
  have hutf8 : s.toByteArray = (s.toList.flatMap String.utf8EncodeChar).toByteArray :=
    String.utf8Encode_toList.symm
  simp [ofString, hutf8]

/-- The number of values that `width` bytes can hold. -/
def span : Nat → Nat
  | 0 => 1
  | width + 1 => 256 * span width

/-- The `width` low bytes of `n`, least significant first. -/
def le : Nat → Nat → Bytes
  | 0, _ => []
  | width + 1, n => UInt8.ofNat n :: le width (n / 256)

def ofLe : Bytes → Nat
  | [] => 0
  | b :: rest => b.toNat + 256 * ofLe rest

def be (width n : Nat) : Bytes := (le width n).reverse

def ofBe (b : Bytes) : Nat := ofLe b.reverse

@[simp] theorem length_le (width n : Nat) : (le width n).length = width := by
  induction width generalizing n with
  | zero => rfl
  | succ width ih => simp [le, ih]

@[simp] theorem length_be (width n : Nat) : (be width n).length = width := by simp [be]

theorem ofLe_le (width n : Nat) : ofLe (le width n) = n % span width := by
  induction width generalizing n with
  | zero => simp [le, ofLe, span, Nat.mod_one]
  | succ width ih =>
    have hbyte : (UInt8.ofNat n).toNat = n % 256 := UInt8.toNat_ofNat'
    rw [le, ofLe, ih, hbyte, span, Nat.mod_mul]

theorem ofBe_be (width n : Nat) : ofBe (be width n) = n % span width := by
  simp [ofBe, be, ofLe_le]

theorem le_ofLe (b : Bytes) : le b.length (ofLe b) = b := by
  induction b with
  | nil => rfl
  | cons x rest ih =>
    have hx : x.toNat < 256 := x.toNat_lt
    have hdiv : (x.toNat + 256 * ofLe rest) / 256 = ofLe rest := by omega
    simp only [List.length_cons, ofLe, le, hdiv, ih, List.cons.injEq, and_true]
    apply UInt8.toNat_inj.mp
    rw [UInt8.toNat_ofNat']
    omega

theorem be_ofBe (b : Bytes) : be b.length (ofBe b) = b := by
  have h := le_ofLe b.reverse
  rw [List.length_reverse] at h
  simp [be, ofBe, h]

theorem ofBe_lt (b : Bytes) : ofBe b < span b.length := by
  have hpositive : 0 < span b.length := by
    induction b with
    | nil => exact Nat.one_pos
    | cons x rest ih => exact Nat.mul_pos (by decide) ih
  have h := ofBe_be b.length (ofBe b)
  rw [be_ofBe] at h
  rw [h]
  exact Nat.mod_lt _ hpositive

def split? (count : Nat) (b : Bytes) : Option (Bytes × Bytes) :=
  let taken := b.take count
  if taken.length = count then some (taken, b.drop count) else none

theorem split?_append (b rest : Bytes) : split? b.length (b ++ rest) = some (b, rest) := by
  simp [split?]

theorem split?_eq (count : Nat) (b : Bytes) :
    split? count b = if b.length < count then none else some (b.take count, b.drop count) := by
  have hiff : (b.take count).length = count ↔ ¬ b.length < count := by
    rw [List.length_take]
    omega
  simp only [split?, hiff, ite_not]

theorem split?_eq_some_iff {count : Nat} {b taken rest : Bytes} :
    split? count b = some (taken, rest) ↔ taken.length = count ∧ b = taken ++ rest := by
  constructor
  · intro h
    simp only [split?] at h
    split at h
    · rename_i hlength
      cases h
      exact ⟨hlength, (List.take_append_drop count b).symm⟩
    · cases h
  · rintro ⟨rfl, rfl⟩
    exact split?_append taken rest

def hexDigit (n : Nat) : Char :=
  if n < 10 then Char.ofNat (48 + n) else Char.ofNat (87 + n)

def hex (b : Bytes) : String :=
  String.ofList (b.flatMap fun x => [hexDigit (x.toNat / 16), hexDigit (x.toNat % 16)])

def hexValue? (c : Char) : Option Nat :=
  if '0' ≤ c ∧ c ≤ '9' then some (c.toNat - 48)
  else if 'a' ≤ c ∧ c ≤ 'f' then some (c.toNat - 87)
  else if 'A' ≤ c ∧ c ≤ 'F' then some (c.toNat - 55)
  else none

def ofHexDigits? : List Char → Option Bytes
  | [] => some []
  | hi :: lo :: rest => do
    let h ← hexValue? hi
    let l ← hexValue? lo
    let tail ← ofHexDigits? rest
    pure (UInt8.ofNat (16 * h + l) :: tail)
  | [_] => none

/-- Reads hexadecimal digits of either case. -/
def ofHex? (s : String) : Option Bytes := ofHexDigits? s.toList

end Bytes

end DocStore
