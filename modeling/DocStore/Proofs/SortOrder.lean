import DocStore.Proofs.ValueOrder
import DocStore.Value.Text

/-!
# The order of sorting

Sorting compares values that have no order by their texts. That makes a total preorder of some values
but not of all: a third value may come between two others by its text although they stand the other
way round as values. `Value.Crossed` says when this happens. Apart from doubles that equal two
integers it is all that can go wrong (`Value.sorts_consistently`), and both do go wrong
(`Value.sorts_in_circles`).
-/

namespace DocStore.Value

variable {a b c : Value}

-- ---------------------------------------------------------------------------
-- Values or texts
-- ---------------------------------------------------------------------------

theorem compareOrText_of_some {o : Ordering} (h : a.compare b = some o) : a.compareOrText b = o := by
  rw [compareOrText, h, Option.getD_some]

theorem compareOrText_of_none (h : a.compare b = none) :
    a.compareOrText b = Ord.compare a.text b.text := by
  rw [compareOrText, h, Option.getD_none]

theorem compareOrText_swap (a b : Value) : b.compareOrText a = (a.compareOrText b).swap := by
  cases h : a.compare b with
  | none =>
    have h' : b.compare a = none := by rw [compare_swap a b, h, Option.map_none]
    rw [compareOrText_of_none h, compareOrText_of_none h']
    exact Std.OrientedCmp.eq_swap
  | some o =>
    have h' : b.compare a = some o.swap := by rw [compare_swap a b, h, Option.map_some]
    rw [compareOrText_of_some h, compareOrText_of_some h']

theorem compare_none_symm (h : a.compare b = none) : b.compare a = none := by
  rw [compare_swap a b, h, Option.map_none]

/-- Two values do not stand to each other as their texts do, and a third one that compares with
neither of them has its text between theirs. -/
structure Crossed (a b c : Value) : Prop where
  ordered : ∃ o, a.compare b = some o ∧ o.isLE ∧ o ≠ Ord.compare a.text b.text
  apart : a.compare c = none ∧ b.compare c = none
  between : (Ord.compare b.text c.text).isLE ∧ (Ord.compare c.text a.text).isLE

instance (a b c : Value) : Decidable (Crossed a b c) :=
  decidable_of_iff
    (((a.compare b).any fun o => o.isLE && decide (o ≠ Ord.compare a.text b.text)) = true ∧
      (a.compare c = none ∧ b.compare c = none) ∧
      (Ord.compare b.text c.text).isLE ∧ (Ord.compare c.text a.text).isLE) <| by
    simp only [Option.any_eq_true, Bool.and_eq_true, decide_eq_true_eq]
    exact ⟨fun h => ⟨h.1, h.2.1, h.2.2⟩, fun h => ⟨h.ordered, h.apart, h.between⟩⟩

/-- The values around a crossing sort in a circle. -/
theorem Crossed.circle (h : Crossed a b c) :
    (a.compareOrText b).isLE ∧ (b.compareOrText c).isLE ∧ (c.compareOrText a).isLE := by
  obtain ⟨⟨o, ho, hle, -⟩, ⟨hac, hbc⟩, hbetween⟩ := h
  rw [compareOrText_of_some ho, compareOrText_of_none hbc, compareOrText_of_none (compare_none_symm hac)]
  exact ⟨hle, hbetween⟩

theorem Crossed.not_level (h : Crossed a b c) :
    ¬ ((b.compareOrText a).isLE ∧ (c.compareOrText b).isLE ∧ (a.compareOrText c).isLE) := by
  obtain ⟨⟨o, ho, hle, hne⟩, ⟨hac, hbc⟩, hbc', hca'⟩ := h
  rw [compareOrText_swap a b, compareOrText_of_some ho, compareOrText_of_none hac,
    compareOrText_of_none (compare_none_symm hbc)]
  rintro ⟨hback, hcb, hac⟩
  have htexts : Ord.compare a.text b.text = .eq :=
    Std.TransCmp.eq_trans (Std.OrientedCmp.isLE_antisymm hac hca')
      (Std.OrientedCmp.isLE_antisymm hcb hbc')
  rw [htexts] at hne
  cases o with
  | eq => exact hne rfl
  | lt => cases hback
  | gt => cases hle

-- ---------------------------------------------------------------------------
-- Three values
-- ---------------------------------------------------------------------------

theorem lt_of_not_isLE (h : ¬ (a.compareOrText c).isLE) : c.compareOrText a = .lt := by
  rw [Ordering.isLE_iff_ne_gt, not_not] at h
  rw [compareOrText_swap a c, h, Ordering.swap]

theorem compare_of_sorts {o : Ordering} (hlt : c.compareOrText a = .lt) (h : a.compare c = some o) :
    c.compare a = some .lt := by
  have hback : c.compare a = some o.swap := by rw [compare_swap a c, h, Option.map_some]
  rw [hback, ← compareOrText_of_some hback, hlt]

/-- Two steps that do not go down go up together, unless the three values are crossed. -/
theorem sorts_onward {s : Value → Prop} (hcoherent : Coherent compare s) (ha : s a) (hb : s b)
    (hc : s c) (hab : (a.compareOrText b).isLE) (hbc : (b.compareOrText c).isLE) :
    (a.compareOrText c).isLE ∨ Crossed a b c ∨ Crossed b c a ∨ Crossed c a b := by
  by_cases hac : (a.compareOrText c).isLE
  · exact .inl hac
  have hca : c.compareOrText a = .lt := lt_of_not_isLE hac
  refine .inr ?_
  cases hab' : a.compare b with
  | some o =>
    rw [compareOrText_of_some hab'] at hab
    cases hbc' : b.compare c with
    | some o' =>
      -- Both steps are taken by value, and so is the way from the first to the last.
      rw [compareOrText_of_some hbc'] at hbc
      have hboth := hcoherent.transits a b c ha hb hc o o' hab' hbc' hab hbc
      rw [compareOrText_of_some hboth] at hac
      cases o <;> simp_all
    | none =>
      cases hac' : a.compare c with
      | some o' =>
        have hca' := compare_of_sorts hca hac'
        have hcb := hcoherent.transits c a b hc ha hb _ o hca' hab' rfl hab
        rw [compare_none_symm hbc'] at hcb
        cases hcb
      | none =>
        rw [compareOrText_of_none hbc'] at hbc
        rw [compareOrText_of_none (compare_none_symm hac')] at hca
        refine .inl ⟨⟨o, hab', hab, ?_⟩, ⟨hac', hbc'⟩, hbc, by rw [hca]; rfl⟩
        have hba : Ord.compare b.text a.text = .lt := Std.TransCmp.lt_of_isLE_of_lt hbc hca
        rw [Std.OrientedCmp.gt_iff_lt.mpr hba]
        exact Ordering.isLE_iff_ne_gt.mp hab
  | none =>
    rw [compareOrText_of_none hab'] at hab
    cases hbc' : b.compare c with
    | some o =>
      rw [compareOrText_of_some hbc'] at hbc
      cases hac' : a.compare c with
      | some o' =>
        have hca' := compare_of_sorts hca hac'
        have hba := hcoherent.transits b c a hb hc ha o _ hbc' hca' hbc rfl
        rw [compare_none_symm hab'] at hba
        cases hba
      | none =>
        rw [compareOrText_of_none (compare_none_symm hac')] at hca
        refine .inr (.inl ⟨⟨o, hbc', hbc, ?_⟩,
          ⟨compare_none_symm hab', compare_none_symm hac'⟩, by rw [hca]; rfl, hab⟩)
        have hcb : Ord.compare c.text b.text = .lt := Std.TransCmp.lt_of_lt_of_isLE hca hab
        rw [Std.OrientedCmp.gt_iff_lt.mpr hcb]
        exact Ordering.isLE_iff_ne_gt.mp hbc
    | none =>
      rw [compareOrText_of_none hbc'] at hbc
      have htexts : (Ord.compare a.text c.text).isLE := Std.TransCmp.isLE_trans hab hbc
      cases hac' : a.compare c with
      | some o =>
        have hne := (Std.OrientedCmp.not_lt_of_isLE htexts).symm
        exact .inr (.inr ⟨⟨.lt, compare_of_sorts hca hac', rfl, hne⟩,
          ⟨compare_none_symm hbc', hab'⟩, hab, hbc⟩)
      | none =>
        rw [compareOrText_of_none hac'] at hac
        exact absurd htexts hac

/-- Sorting puts any two values in order, and turned round the other way round. It is a total preorder
of all values of a list, with no double that equals two integers there, if and only if no three of
them are crossed. -/
theorem sorts_consistently (values : List Value) :
    (∀ a b : Value, b.compareOrText a = (a.compareOrText b).swap) ∧
      (Sharp values →
        ((∀ a ∈ values, ∀ b ∈ values, ∀ c ∈ values, (a.compareOrText b).isLE →
            (b.compareOrText c).isLE → (a.compareOrText c).isLE) ↔
          ∀ a ∈ values, ∀ b ∈ values, ∀ c ∈ values, ¬ Crossed a b c)) := by
  refine ⟨compareOrText_swap, fun hsharp => ⟨fun htrans a ha b hb c hc hcrossed => ?_,
    fun hnone a ha b hb c hc hab hbc => ?_⟩⟩
  · -- Around a circle each step can be taken back by the other two.
    obtain ⟨hab, hbc, hca⟩ := hcrossed.circle
    exact hcrossed.not_level ⟨htrans b hb c hc a ha hbc hca, htrans c hc a ha b hb hca hab,
      htrans a ha b hb c hc hab hbc⟩
  · rcases sorts_onward hsharp.coherent ha hb hc hab hbc with hac | hcrossed | hcrossed | hcrossed
    · exact hac
    · exact absurd hcrossed (hnone a ha b hb c hc)
    · exact absurd hcrossed (hnone b hb c hc a ha)
    · exact absurd hcrossed (hnone c hc a ha b hb)

/-- Numbers of both kinds and a text, whose digits do not come between them. -/
theorem sorts_consistently_mixed :
    let values : List Value := [.int64 7, .double ⟨0x4000000000000000⟩, .string "5 apples"]
    Sharp values ∧ ∀ a ∈ values, ∀ b ∈ values, ∀ c ∈ values, (a.compareOrText b).isLE →
      (b.compareOrText c).isLE → (a.compareOrText c).isLE := by
  intro values
  have hsharp : Sharp values := by
    intro m n x hm hn _ _ _
    have hnumbers : numbersIn values = [.integer 7, .double ⟨0x4000000000000000⟩] := rfl
    simp only [hnumbers, List.mem_cons, Number.integer.injEq, reduceCtorEq, List.not_mem_nil,
      or_false] at hm hn
    exact hm.trans hn.symm
  exact ⟨hsharp, ((sorts_consistently values).2 hsharp).mpr (by decide +kernel)⟩

/-- A text between two numbers of different lengths, and a double that equals two integers. -/
theorem sorts_in_circles :
    let ten : Value := .int64 10
    let text : Value := .string "5"
    let nine : Value := .int64 9
    let odd : Value := .int64 9007199254740993
    let double : Value := .double ⟨0x4340000000000000⟩
    let even : Value := .int64 9007199254740992
    ((ten.compareOrText text).isLE ∧ (text.compareOrText nine).isLE ∧
        ¬ (ten.compareOrText nine).isLE) ∧
      (odd.compareOrText double).isLE ∧ (double.compareOrText even).isLE ∧
        ¬ (odd.compareOrText even).isLE := by
  decide +kernel

end DocStore.Value
