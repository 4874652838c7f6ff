import DocStore.Path
import DocStore.Proofs.Rounding
import DocStore.Value.Order

/-!
# Order of values

Comparing is a partial order up to equality, as long as no double among the values equals two
different integers among them (`Value.compare_coherent`). Turned round, two values compare the other
way round, whatever they are (`Value.compare_swap`). Items that compare as equal can be exchanged for
each other (`Coherent.congr`), also where a third one cannot be compared with them.
-/

namespace DocStore

-- ---------------------------------------------------------------------------
-- Partial orders
-- ---------------------------------------------------------------------------

section Coherence

variable {α : Type}

/-- If neither step goes down, both together go as far up as the greater one of them. -/
def Transits (cmp : α → α → Option Ordering) (a b c : α) : Prop :=
  ∀ o o', cmp a b = some o → cmp b c = some o' → o.isLE → o'.isLE → cmp a c = some (o.then o')

/-- A comparison that may have no answer is a partial order among the items of a set. -/
structure Coherent (cmp : α → α → Option Ordering) (s : α → Prop) : Prop where
  swap : ∀ a b, cmp b a = (cmp a b).map Ordering.swap
  transits : ∀ a b c, s a → s b → s c → Transits cmp a b c

variable {cmp : α → α → Option Ordering} {s : α → Prop} {a b c : α}

theorem Coherent.mono {s' : α → Prop} (h : Coherent cmp s) (hsub : ∀ a, s' a → s a) :
    Coherent cmp s' :=
  ⟨h.swap, fun a b c ha hb hc => h.transits a b c (hsub a ha) (hsub b hb) (hsub c hc)⟩

theorem Coherent.swap_some (h : Coherent cmp s) {o : Ordering} (hab : cmp a b = some o) :
    cmp b a = some o.swap := by
  rw [h.swap a b, hab, Option.map_some]

theorem Coherent.congr (h : Coherent cmp s) (ha : s a) (hb : s b) (hc : s c)
    (hab : cmp a b = some .eq) : cmp a c = cmp b c := by
  -- What compares with one of the two, from either side, compares so with the other.
  have onward {x y : α} (hx : s x) (hy : s y) (hxy : cmp x y = some .eq) {o : Ordering}
      (hyc : cmp y c = some o) : cmp x c = some o := by
    cases o with
    | lt => exact h.transits x y c hx hy hc _ _ hxy hyc rfl rfl
    | eq => exact h.transits x y c hx hy hc _ _ hxy hyc rfl rfl
    | gt =>
      have hcx : cmp c x = some .lt :=
        h.transits c y x hc hy hx _ _ (h.swap_some hyc) (h.swap_some hxy) rfl rfl
      exact h.swap_some hcx
  cases hbc : cmp b c with
  | some o => exact onward ha hb hab hbc
  | none =>
    cases hac : cmp a c with
    | none => rfl
    | some o => exact absurd (hbc.symm.trans (onward hb ha (h.swap_some hab) hac)) nofun

theorem Coherent.lt_trans (h : Coherent cmp s) (ha : s a) (hb : s b) (hc : s c)
    (hab : cmp a b = some .lt) (hbc : cmp b c = some .lt) : cmp a c = some .lt :=
  h.transits a b c ha hb hc _ _ hab hbc rfl rfl

theorem then_of_isLE (cmp : α → α → Ordering) [Std.TransCmp cmp] (hab : (cmp a b).isLE)
    (hbc : (cmp b c).isLE) : cmp a c = (cmp a b).then (cmp b c) := by
  cases hab' : cmp a b with
  | lt =>
    cases hbc' : cmp b c with
    | lt => exact Std.TransCmp.lt_trans hab' hbc'
    | eq => exact Std.TransCmp.lt_of_lt_of_eq hab' hbc'
    | gt =>
      rw [hbc'] at hbc
      cases hbc
  | eq => exact Std.TransCmp.congr_left hab'
  | gt =>
    rw [hab'] at hab
    cases hab

end Coherence

-- ---------------------------------------------------------------------------
-- Numbers
-- ---------------------------------------------------------------------------

inductive Number where
  | integer (n : Int)
  | double (x : Double)

namespace Number

def isInteger : Number → Bool
  | .integer _ => true
  | .double _ => false

def rank : Number → Int
  | .integer n => (Double.ofInt n).rank
  | .double x => x.rank

/-- Integers compare exactly, all others by the doubles nearest to them. -/
def compare : Number → Number → Ordering
  | .integer m, .integer n => Ord.compare m n
  | a, b => compareOn rank a b

theorem compare_swap (a b : Number) : b.compare a = (a.compare b).swap := by
  cases a <;> cases b <;> simp only [compare, compareOn] <;> exact Std.OrientedCmp.eq_swap

/-- No double among the numbers equals two integers among them. -/
def Sharp (s : Number → Prop) : Prop :=
  ∀ m n x, s (.integer m) → s (.integer n) → s (.double x) →
    (Number.integer m).compare (.double x) = .eq → (Number.integer n).compare (.double x) = .eq → m = n

theorem compare_eq_then {i j k l p q : Int} (hkl : k ≤ l) (hpq : p ≤ q)
    (hlt : k < l ∨ p < q → i < j) (heq : k = l → p = q → i = j) :
    Ord.compare i j = (Ord.compare k l).then (Ord.compare p q) := by
  rcases Int.lt_or_eq_of_le hkl with h | h
  · rw [Int.compare_eq_lt.mpr h, Int.compare_eq_lt.mpr (hlt (.inl h)), Ordering.lt_then]
  · rw [Std.compare_eq_iff_eq.mpr h, Ordering.eq_then]
    rcases Int.lt_or_eq_of_le hpq with h' | h'
    · rw [Int.compare_eq_lt.mpr h', Int.compare_eq_lt.mpr (hlt (.inr h'))]
    · rw [Std.compare_eq_iff_eq.mpr h', Std.compare_eq_iff_eq.mpr (heq h h')]

variable {s : Number → Prop} {a b c : Number}

/-- Rounding could only go wrong with two integers on one double, as it keeps their order. -/
theorem then_compare (hsharp : Sharp s) (ha : s a) (hb : s b) (hc : s c)
    (hab : (a.compare b).isLE) (hbc : (b.compare c).isLE) :
    a.compare c = (a.compare b).then (b.compare c) := by
  have hsame (k m : Int) (x : Double) (hk : s (.integer k)) (hm : s (.integer m))
      (hx : s (.double x)) (hkx : (Double.ofInt k).rank = x.rank)
      (hmx : (Double.ofInt m).rank = x.rank) : k = m :=
    hsharp k m x hk hm hx (Std.compare_eq_iff_eq.mpr hkx) (Std.compare_eq_iff_eq.mpr hmx)
  cases a with
  | integer k =>
    cases b with
    | integer m =>
      cases c with
      | integer n => exact then_of_isLE (Ord.compare (α := Int)) hab hbc
      | double x =>
        have hround := @Double.rank_ofInt_le k m
        have hne := hsame k m x ha hb hc
        have hkm : k ≤ m := Int.isLE_compare.mp hab
        have hmx : (Double.ofInt m).rank ≤ x.rank := Int.isLE_compare.mp hbc
        exact compare_eq_then hkm hmx (by grind [rank]) (by grind [rank])
    | double x =>
      cases c with
      | integer n =>
        have hround := @Double.rank_ofInt_le n k
        have hne := hsame k n x ha hc hb
        have hkx : (Double.ofInt k).rank ≤ x.rank := Int.isLE_compare.mp hab
        have hxn : x.rank ≤ (Double.ofInt n).rank := Int.isLE_compare.mp hbc
        exact compare_eq_then hkx hxn (by grind [rank]) (by grind [rank])
      | double y => exact then_of_isLE (compareOn rank) hab hbc
  | double x =>
    cases b with
    | integer m =>
      cases c with
      | integer n =>
        have hround := @Double.rank_ofInt_le m n
        have hne := hsame m n x hb hc ha
        have hxm : x.rank ≤ (Double.ofInt m).rank := Int.isLE_compare.mp hab
        have hmn : m ≤ n := Int.isLE_compare.mp hbc
        exact compare_eq_then hxm hmn (by grind [rank]) (by grind [rank])
      | double y => exact then_of_isLE (compareOn rank) hab hbc
    | double y => cases c <;> exact then_of_isLE (compareOn rank) hab hbc

end Number

-- ---------------------------------------------------------------------------
-- Values
-- ---------------------------------------------------------------------------

namespace Value

def number? : Value → Option Number
  | .int32 n => some (.integer n.toInt)
  | .int64 n => some (.integer n.toInt)
  | .double x => some (.double x)
  | _ => none

theorem compareNumbers_eq (a b : Value) :
    a.compareNumbers b = a.number?.bind fun m => b.number?.map m.compare := by
  unfold compareNumbers
  cases a <;> cases b <;>
    simp only [number?, asInt?, asDouble?, Option.bind_some, Option.bind_none, Option.map_some,
      Option.map_none, Number.compare, compareOn, Number.rank, Double.compare_eq_rank]

/-- The values that can be compared, and how they compare. -/
inductive Compared : Value → Value → Ordering → Prop
  | null : Compared .null .null .eq
  | strings (s t : String) : Compared (.string s) (.string t) (Ord.compare s t)
  | booleans (a b : Bool) : Compared (.boolean a) (.boolean b) (Ord.compare a b)
  | dates (a b : Int64) : Compared (.date a) (.date b) (Ord.compare a.toInt b.toInt)
  | timestamps (t i u j : UInt32) : Compared (.timestamp t i) (.timestamp u j)
      ((Ord.compare t.toNat u.toNat).then (Ord.compare i.toNat j.toNat))
  | objectIds (a b : ObjectId) : Compared (.objectId a) (.objectId b) (Ord.compare a.bytes b.bytes)
  | binaries (s t : UInt8) (a b : Bytes) : Compared (.binary s a) (.binary t b) (Ord.compare a b)
  | arrays {as bs : List Value} {o : Ordering} (h : compareItems as bs = some o) :
      Compared (.array as) (.array bs) o
  | numbers {a b : Value} {m n : Number} (ha : a.number? = some m) (hb : b.number? = some n) :
      Compared a b (m.compare n)

variable {a b : Value} {o : Ordering}

theorem compared_iff : a.compare b = some o ↔ a.Compared b o := by
  constructor
  · intro h
    rw [compare.eq_def] at h
    split at h
    case h_1 => exact Option.some.inj h ▸ .null
    case h_2 => exact Option.some.inj h ▸ .strings ..
    case h_3 => exact Option.some.inj h ▸ .booleans ..
    case h_4 => exact Option.some.inj h ▸ .dates ..
    case h_5 => exact Option.some.inj h ▸ .timestamps ..
    case h_6 => exact Option.some.inj h ▸ .objectIds ..
    case h_7 => exact Option.some.inj h ▸ .binaries ..
    case h_8 => exact .arrays h
    case h_9 =>
      rw [compareNumbers_eq] at h
      obtain ⟨m, hm, h⟩ := Option.bind_eq_some_iff.mp h
      obtain ⟨n, hn, rfl⟩ := Option.map_eq_some_iff.mp h
      exact .numbers hm hn
  · intro h
    cases h with
    | arrays h => exact h
    | numbers ha hb =>
      rename_i m n
      have hnumbers : a.compareNumbers b = some (m.compare n) := by
        rw [compareNumbers_eq, ha, hb]
        rfl
      rw [← hnumbers]
      cases a <;> first | rfl | cases ha
    | _ => rfl

-- ---------------------------------------------------------------------------
-- Turning round
-- ---------------------------------------------------------------------------

theorem Compared.symm_of_items (h : a.Compared b o)
    (hitems : ∀ as bs, a = .array as → b = .array bs →
      compareItems bs as = (compareItems as bs).map Ordering.swap) : b.Compared a o.swap := by
  cases h with
  | null => exact .null
  | strings s t => exact Std.OrientedOrd.eq_swap (α := String) ▸ .strings t s
  | booleans a b => exact Std.OrientedOrd.eq_swap (α := Bool) ▸ .booleans b a
  | dates a b => exact Std.OrientedOrd.eq_swap (α := Int) ▸ .dates b a
  | timestamps t i u j =>
    rw [Ordering.swap_then, ← Std.OrientedOrd.eq_swap (α := Nat),
      ← Std.OrientedOrd.eq_swap (α := Nat)]
    exact .timestamps u j t i
  | objectIds a b => exact Std.OrientedOrd.eq_swap (α := Bytes) ▸ .objectIds b a
  | binaries s t a b =>
    exact Std.OrientedOrd.eq_swap (α := Bytes) ▸ .binaries t s b a
  | arrays h =>
    refine .arrays ?_
    rw [hitems _ _ rfl rfl, h, Option.map_some]
  | numbers ha hb => exact Number.compare_swap _ _ ▸ .numbers hb ha

theorem compare_swap_of_items (hitems : ∀ as bs, a = .array as → b = .array bs →
      compareItems bs as = (compareItems as bs).map Ordering.swap) :
    b.compare a = (a.compare b).map Ordering.swap := by
  have hback : ∀ as bs, b = .array as → a = .array bs →
      compareItems bs as = (compareItems as bs).map Ordering.swap := by
    intro bs as hb ha
    rw [hitems as bs ha hb, Option.map_map]
    simp [Function.comp_def]
  cases hab : a.compare b with
  | some o => exact compared_iff.mpr ((compared_iff.mp hab).symm_of_items hitems)
  | none =>
    cases hba : b.compare a with
    | none => rfl
    | some o =>
      have hab' := compared_iff.mpr ((compared_iff.mp hba).symm_of_items hback)
      rw [hab] at hab'
      cases hab'

mutual
theorem compare_swap (a b : Value) : b.compare a = (a.compare b).map Ordering.swap := by
  cases a with
  | array as =>
    cases b with
    | array bs => exact compareItems_swap as bs
    | _ => rfl
  | _ => exact compare_swap_of_items nofun
theorem compareItems_swap (as bs : List Value) :
    compareItems bs as = (compareItems as bs).map Ordering.swap := by
  cases as with
  | nil => cases bs <;> rfl
  | cons a as =>
    cases bs with
    | nil => rfl
    | cons b bs =>
      have hhead := compare_swap a b
      have hrest := compareItems_swap as bs
      simp only [compareItems]
      rw [hhead]
      rcases a.compare b with _ | _ | _ | _
      · rfl
      · rfl
      · exact hrest
      · rfl
end

-- ---------------------------------------------------------------------------
-- Going on
-- ---------------------------------------------------------------------------

mutual
/-- The numbers that comparing a value may come upon: itself, or those in a list. -/
def numbers : Value → List Number
  | .array items => numbersIn items
  | v => v.number?.toList
def numbersIn : List Value → List Number
  | [] => []
  | v :: rest => v.numbers ++ numbersIn rest
end

theorem mem_numbersIn {n : Number} {values : List Value} :
    n ∈ numbersIn values ↔ ∃ v ∈ values, n ∈ v.numbers := by
  induction values with
  | nil => simp [numbersIn]
  | cons v rest ih => simp [numbersIn, ih]

theorem mem_numbers {n : Number} {v : Value} (h : v.number? = some n) : n ∈ v.numbers := by
  cases v with
  | int32 | int64 | double =>
    cases h
    exact List.mem_singleton_self _
  | _ => cases h

variable {s : Number → Prop} {c : Value}

theorem compare_transits_of_items (hsharp : Number.Sharp s) (ha : ∀ n ∈ a.numbers, s n)
    (hb : ∀ n ∈ b.numbers, s n) (hc : ∀ n ∈ c.numbers, s n)
    (hitems : ∀ as bs cs, a = .array as → b = .array bs → c = .array cs →
      Transits compareItems as bs cs) : Transits compare a b c := by
  intro o o' hab hbc ho ho'
  rw [compared_iff] at hab hbc
  cases hab with
  | null =>
    cases hbc with
    | null => rfl
    | numbers hb => cases hb
  | strings s t =>
    cases hbc with
    | strings _ u => exact congrArg some (then_of_isLE Ord.compare ho ho')
    | numbers hb => cases hb
  | booleans x y =>
    cases hbc with
    | booleans _ z => exact congrArg some (then_of_isLE Ord.compare ho ho')
    | numbers hb => cases hb
  | dates x y =>
    cases hbc with
    | dates _ z => exact congrArg some (then_of_isLE Ord.compare ho ho')
    | numbers hb => cases hb
  | timestamps t i u j =>
    cases hbc with
    | timestamps _ _ v k =>
      have hboth := then_of_isLE (a := (t.toNat, i.toNat)) (b := (u.toNat, j.toNat))
        (c := (v.toNat, k.toNat)) (compareLex (compareOn Prod.fst) (compareOn Prod.snd)) ho ho'
      exact congrArg some hboth
    | numbers hb => cases hb
  | objectIds x y =>
    cases hbc with
    | objectIds _ z => exact congrArg some (then_of_isLE Ord.compare ho ho')
    | numbers hb => cases hb
  | binaries s t x y =>
    cases hbc with
    | binaries _ u _ z => exact congrArg some (then_of_isLE Ord.compare ho ho')
    | numbers hb => cases hb
  | arrays hab =>
    cases hbc with
    | arrays hbc => exact hitems _ _ _ rfl rfl rfl _ _ hab hbc ho ho'
    | numbers hb => cases hb
  | numbers hm hn =>
    cases hbc with
    | numbers hn' hk =>
      cases hn.symm.trans hn'
      rw [← Number.then_compare hsharp (ha _ (mem_numbers hm)) (hb _ (mem_numbers hn))
        (hc _ (mem_numbers hk)) ho ho']
      exact compared_iff.mpr (.numbers hm hk)
    | _ => cases hn

theorem compareItems_cons_iff {as bs : List Value} :
    compareItems (a :: as) (b :: bs) = some o ↔
      a.compare b = some .eq ∧ compareItems as bs = some o ∨ o ≠ .eq ∧ a.compare b = some o := by
  simp only [compareItems]
  rcases a.compare b with _ | _ | _ | _ <;> cases o <;> simp

/-- Lists go on as their first items do, and as the rests do if those are equal. -/
theorem transits_cons {as bs cs : List Value} (h : Transits compare a b c)
    (hrest : Transits compareItems as bs cs) :
    Transits compareItems (a :: as) (b :: bs) (c :: cs) := by
  intro o o' hab hbc ho ho'
  have hless {o : Ordering} (hle : o.isLE) (hne : o ≠ .eq) : o = .lt := by
    cases o <;> simp_all
  rw [compareItems_cons_iff] at hab hbc ⊢
  rcases hab with ⟨hab, habs⟩ | ⟨hne, hab⟩ <;> rcases hbc with ⟨hbc, hbcs⟩ | ⟨hne', hbc⟩
  · exact .inl ⟨h _ _ hab hbc rfl rfl, hrest o o' habs hbcs ho ho'⟩
  · have hac := h _ _ hab hbc rfl ho'
    obtain rfl := hless ho' hne'
    cases o with
    | gt => cases ho
    | _ => exact .inr ⟨nofun, hac⟩
  · have hac := h _ _ hab hbc ho rfl
    obtain rfl := hless ho hne
    exact .inr ⟨nofun, hac⟩
  · have hac := h _ _ hab hbc ho ho'
    obtain rfl := hless ho hne
    exact .inr ⟨nofun, hac⟩

mutual
theorem compare_transits (hsharp : Number.Sharp s) (a b c : Value) (ha : ∀ n ∈ a.numbers, s n)
    (hb : ∀ n ∈ b.numbers, s n) (hc : ∀ n ∈ c.numbers, s n) : Transits compare a b c := by
  cases a with
  | array as =>
    refine compare_transits_of_items hsharp ha hb hc fun _ bs cs has hbs hcs => ?_
    cases has
    subst hbs hcs
    exact compareItems_transits hsharp as bs cs ha hb hc
  | _ => exact compare_transits_of_items hsharp ha hb hc nofun
theorem compareItems_transits (hsharp : Number.Sharp s) (as bs cs : List Value)
    (ha : ∀ n ∈ numbersIn as, s n) (hb : ∀ n ∈ numbersIn bs, s n) (hc : ∀ n ∈ numbersIn cs, s n) :
    Transits compareItems as bs cs := by
  cases as with
  | nil =>
    intro o o' hab hbc ho ho'
    cases bs with
    | nil =>
      cases hab
      exact hbc
    | cons b bs =>
      cases hab
      cases cs with
      | nil =>
        cases hbc
        cases ho'
      | cons c cs => rfl
  | cons a as =>
    cases bs with
    | nil =>
      intro o o' hab hbc ho ho'
      cases hab
      cases ho
    | cons b bs =>
      cases cs with
      | nil =>
        intro o o' hab hbc ho ho'
        cases hbc
        cases ho'
      | cons c cs =>
        simp only [numbersIn, List.forall_mem_append] at ha hb hc
        exact transits_cons (compare_transits hsharp a b c ha.1 hb.1 hc.1)
          (compareItems_transits hsharp as bs cs ha.2 hb.2 hc.2)
end

/-- Values compare coherently as long as their numbers do. -/
theorem compare_coherent (hsharp : Number.Sharp s) :
    Coherent compare fun v => ∀ n ∈ v.numbers, s n :=
  ⟨compare_swap, compare_transits hsharp⟩

/-- No double in the values, or in lists inside them, equals two different integers there. -/
def Sharp (values : List Value) : Prop := Number.Sharp fun n => n ∈ numbersIn values

theorem Sharp.coherent {values : List Value} (h : Sharp values) :
    Coherent compare fun v => v ∈ values :=
  (compare_coherent h).mono fun _ hv _ hn => mem_numbersIn.mpr ⟨_, hv, hn⟩

theorem sharp_of_integers {values : List Value} (h : ∀ n ∈ numbersIn values, n.isInteger = true) :
    Sharp values := by
  intro _ _ x _ _ hx
  cases h _ hx

end Value

-- ---------------------------------------------------------------------------
-- Fields of documents
-- ---------------------------------------------------------------------------

def Document.values (doc : Document) (fields : List String) : List Value :=
  fields.map doc.lookupOrNull

theorem Document.length_values (doc : Document) (fields : List String) :
    (doc.values fields).length = fields.length := List.length_map _

theorem Document.values_coherent {docs : List Document} {fields : List String}
    (hsharp : ∀ field ∈ fields, Value.Sharp (docs.map (·.lookupOrNull field))) :
    Coherent Value.compareItems fun key => key ∈ docs.map (·.values fields) := by
  refine ⟨Value.compareItems_swap, ?_⟩
  simp only [List.mem_map]
  rintro _ _ _ ⟨a, ha, rfl⟩ ⟨b, hb, rfl⟩ ⟨c, hc, rfl⟩
  induction fields with
  | nil =>
    intro o o' hab hbc _ _
    cases hab
    exact hbc
  | cons field rest ih =>
    refine Value.transits_cons ?_ (ih fun field hfield => hsharp field (List.mem_cons_of_mem _ hfield))
    exact (hsharp field List.mem_cons_self).coherent.transits _ _ _ (List.mem_map_of_mem ha)
      (List.mem_map_of_mem hb) (List.mem_map_of_mem hc)

end DocStore
