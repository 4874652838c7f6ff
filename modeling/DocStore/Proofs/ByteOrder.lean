import DocStore.Bytes

/-!
# The order of byte strings

Byte strings are compared byte by byte. So numbers written with their most significant byte first
compare as numbers (`compare_be`), and texts compare by the code points of their characters
(`compare_ofString`): UTF-8 gives a greater character greater bytes, and the bytes of no character
start those of another.
-/

namespace DocStore

def Text.codePoints (s : String) : List Nat := s.toList.map Char.toNat

namespace Bytes

theorem compare_eq_lt {a b : Bytes} : Ord.compare a b = .lt ↔ a < b := by
  induction a generalizing b with
  | nil => cases b <;> simp [List.compare_nil_cons]
  | cons x a ih =>
    cases b with
    | nil => simp [List.compare_cons_nil]
    | cons y b =>
      rw [List.compare_cons_cons, Ordering.then_eq_lt, Std.compare_eq_lt, Std.compare_eq_iff_eq, ih,
        List.cons_lt_cons_iff]

theorem compare_eq_gt {a b : Bytes} : Ord.compare a b = .gt ↔ b < a := by
  rw [Std.OrientedCmp.gt_iff_lt, compare_eq_lt]

theorem compare_append {a b : Bytes} (h : a.length = b.length) (x y : Bytes) :
    Ord.compare (a ++ x) (b ++ y) = (Ord.compare a b).then (Ord.compare x y) := by
  induction a generalizing b with
  | nil =>
    obtain rfl := List.length_eq_zero_iff.mp h.symm
    rfl
  | cons c a ih =>
    cases b with
    | nil => cases h
    | cons d b =>
      simp only [List.cons_append, List.compare_cons_cons, ih (Nat.succ.inj h), Ordering.then_assoc]

theorem compare_cons_self (x : UInt8) (a b : Bytes) :
    Ord.compare (x :: a) (x :: b) = Ord.compare a b := by
  rw [List.compare_cons_cons, Std.ReflOrd.compare_self, Ordering.eq_then]

theorem compare_cons (m n : Nat) (a b : Bytes) :
    Ord.compare (UInt8.ofNat m :: a) (UInt8.ofNat n :: b) =
      (Ord.compare (m % 256) (n % 256)).then (Ord.compare a b) := by
  have hbyte (x y : UInt8) : Ord.compare x y = Ord.compare x.toNat y.toNat := by
    simp only [Ord.compare, compareOfLessAndEq, UInt8.lt_iff_toNat_lt, ← UInt8.toNat_inj]
  rw [List.compare_cons_cons, hbyte, UInt8.toNat_ofNat', UInt8.toNat_ofNat']

-- ---------------------------------------------------------------------------
-- Numbers
-- ---------------------------------------------------------------------------

theorem compare_div_mod (base m n : Nat) : Ord.compare m n =
    (Ord.compare (m / base) (n / base)).then (Ord.compare (m % base) (n % base)) := by
  rcases Nat.lt_trichotomy (m / base) (n / base) with h | h | h
  · have hlt : m < n := Nat.lt_of_div_lt_div h
    rw [Nat.compare_eq_lt.mpr h, Nat.compare_eq_lt.mpr hlt, Ordering.lt_then]
  · have hm := Nat.div_add_mod m base
    have hn := Nat.div_add_mod n base
    rw [h] at hm
    have hlt : m < n ↔ m % base < n % base := by omega
    have hgt : n < m ↔ n % base < m % base := by omega
    rw [h, Nat.compare_eq_eq.mpr rfl, Ordering.eq_then]
    simp only [Nat.compare_eq_ite_lt, hlt, hgt]
  · have hgt : n < m := Nat.lt_of_div_lt_div h
    rw [Nat.compare_eq_gt.mpr h, Nat.compare_eq_gt.mpr hgt, Ordering.gt_then]

theorem be_succ (width n : Nat) : be (width + 1) n = be width (n / 256) ++ [UInt8.ofNat n] := by
  simp [be, le]

theorem compare_be {width m n : Nat} (hm : m < span width) (hn : n < span width) :
    Ord.compare (be width m) (be width n) = Ord.compare m n := by
  induction width generalizing m n with
  | zero =>
    rw [span] at hm hn
    obtain rfl : m = 0 := by omega
    obtain rfl : n = 0 := by omega
    rfl
  | succ width ih =>
    rw [be_succ, be_succ, compare_append (by simp),
      ih (Nat.div_lt_of_lt_mul hm) (Nat.div_lt_of_lt_mul hn), compare_cons, List.compare_nil_nil,
      Ordering.then_eq, ← compare_div_mod]

-- ---------------------------------------------------------------------------
-- Texts
-- ---------------------------------------------------------------------------

/-- The lengths are told apart by the first byte, and then byte after byte counts down the code point. -/
theorem compare_char_of_lt {c d : Char} (h : c.toNat < d.toNat) (x y : Bytes) :
    Ord.compare (String.utf8EncodeChar c ++ x) (String.utf8EncodeChar d ++ y) = .lt := by
  have hd : d.val.toNat < 0x110000 := by
    rcases d.valid with hvalid | ⟨-, hvalid⟩
    · exact Nat.lt_trans hvalid (by decide)
    · exact hvalid
  change c.val.toNat < d.val.toNat at h
  unfold String.utf8EncodeChar
  generalize c.val.toNat = m at h
  generalize d.val.toNat = n at h hd
  simp only
  -- One case for each pair of lengths.
  repeat' split
  all_goals
    simp (disch := omega) only [List.cons_append, compare_cons, Ordering.then_eq_lt,
      Nat.compare_eq_lt, Nat.compare_eq_eq, Nat.mod_eq_of_lt]
    omega

theorem compare_chars (cs ds : List Char) :
    Ord.compare (cs.flatMap String.utf8EncodeChar) (ds.flatMap String.utf8EncodeChar) =
      Ord.compare (cs.map Char.toNat) (ds.map Char.toNat) := by
  induction cs generalizing ds with
  | nil =>
    cases ds with
    | nil => rfl
    | cons d ds =>
      obtain ⟨b, rest, hd⟩ := List.exists_cons_of_ne_nil (String.utf8EncodeChar_ne_nil (c := d))
      rw [List.flatMap_cons, hd]
      rfl
  | cons c cs ih =>
    cases ds with
    | nil =>
      obtain ⟨b, rest, hc⟩ := List.exists_cons_of_ne_nil (String.utf8EncodeChar_ne_nil (c := c))
      rw [List.flatMap_cons, hc]
      rfl
    | cons d ds =>
      rw [List.flatMap_cons, List.flatMap_cons, List.map_cons, List.map_cons, List.compare_cons_cons]
      rcases Nat.lt_trichotomy c.toNat d.toNat with h | h | h
      · rw [compare_char_of_lt h, Nat.compare_eq_lt.mpr h, Ordering.lt_then]
      · obtain rfl := Char.toNat_inj.mp h
        rw [compare_append rfl, ih, Std.ReflOrd.compare_self, Std.ReflOrd.compare_self]
      · rw [Nat.compare_eq_gt.mpr h, Ordering.gt_then, Std.OrientedCmp.gt_iff_lt]
        exact compare_char_of_lt h _ _

theorem compare_ofString (s t : String) :
    Ord.compare (ofString s) (ofString t) = Ord.compare (Text.codePoints s) (Text.codePoints t) := by
  rw [ofString_eq_flatMap, ofString_eq_flatMap, compare_chars]
  rfl

end Bytes

namespace Text

theorem lt_iff_codePoints {s t : String} :
    s < t ↔ Ord.compare (codePoints s) (codePoints t) = .lt := by
  have hchars (cs ds : List Char) :
      cs < ds ↔ Ord.compare (cs.map Char.toNat) (ds.map Char.toNat) = .lt := by
    induction cs generalizing ds with
    | nil => cases ds <;> simp [List.compare_nil_cons]
    | cons c cs ih =>
      cases ds with
      | nil => simp [List.compare_cons_nil]
      | cons d ds =>
        rw [List.cons_lt_cons_iff, List.map_cons, List.map_cons, List.compare_cons_cons,
          Ordering.then_eq_lt, Nat.compare_eq_lt, Nat.compare_eq_eq, Char.toNat_inj, ih]
        rfl
  exact hchars s.toList t.toList

end Text

end DocStore
