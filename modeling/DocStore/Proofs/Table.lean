import DocStore.Table
import Mathlib.Data.List.Basic

/-!
# Laws of sorted tables

An entry is in a table exactly if its key holds its value, so a table is known by what its keys
hold. `holding` counts the entries with a property of the value; the three laws on it say how a
write moves the count.
-/

namespace DocStore.Table

variable {κ ν : Type} [KeyOrder κ]

theorem lookupIn_eq_some_iff {entries : List (κ × ν)} {key : κ} {value : ν}
    (h : entries.Pairwise (fun a b => a.1 < b.1)) :
    lookupIn key entries = some value ↔ (key, value) ∈ entries := by
  induction entries with
  | nil => simp [lookupIn]
  | cons head rest ih =>
    obtain ⟨k, v⟩ := head
    obtain ⟨hhead, hrest⟩ := List.pairwise_cons.mp h
    simp only [lookupIn, List.mem_cons, Prod.mk.injEq]
    split
    · rename_i hk
      subst hk
      constructor
      · intro hv
        exact .inl ⟨rfl, (Option.some.inj hv).symm⟩
      · rintro (⟨-, rfl⟩ | hmem)
        · rfl
        · exact absurd (hhead _ hmem) (KeyOrder.irrefl _)
    · rename_i hk
      rw [ih hrest]
      constructor
      · exact .inr
      · rintro (⟨rfl, -⟩ | hmem)
        · exact absurd rfl hk
        · exact hmem

theorem get?_eq_some_iff {t : Table κ ν} {key : κ} {value : ν} :
    t.get? key = some value ↔ (key, value) ∈ t.entries :=
  lookupIn_eq_some_iff t.ascending

theorem ext_get? {s t : Table κ ν} (h : ∀ key, s.get? key = t.get? key) : s = t := by
  have hnodup : ∀ u : Table κ ν, u.entries.Nodup := by
    refine fun u => List.Pairwise.imp ?_ u.ascending
    rintro a _ hlt rfl
    exact KeyOrder.irrefl _ hlt
  have hperm : s.entries.Perm t.entries := by
    refine (List.perm_ext_iff_of_nodup (hnodup s) (hnodup t)).mpr fun ⟨key, value⟩ => ?_
    rw [← get?_eq_some_iff, ← get?_eq_some_iff, h]
  refine ext (hperm.eq_of_pairwise (fun a b _ _ hab hba => ?_) s.ascending t.ascending)
  exact absurd (KeyOrder.trans hab hba) (KeyOrder.irrefl _)

theorem mem_keys_iff {t : Table κ ν} {key : κ} : key ∈ t.keys ↔ (t.get? key).isSome := by
  simp only [keys, List.mem_map, Prod.exists, exists_and_right, exists_eq_right,
    Option.isSome_iff_exists, get?_eq_some_iff]

theorem get?_eq_none_of_isEmpty {t : Table κ ν} (h : t.isEmpty = true) (key : κ) :
    t.get? key = none := by
  have hnil : t.entries = [] := by simpa [isEmpty] using h
  simp [get?, hnil, lookupIn]

theorem isEmpty_iff {t : Table κ ν} : t.isEmpty = true ↔ ∀ key, t.get? key = none := by
  refine ⟨get?_eq_none_of_isEmpty, fun h => ?_⟩
  cases hentries : t.entries with
  | nil => simp [isEmpty, hentries]
  | cons head rest =>
    have hhead : t.get? head.1 = some head.2 := get?_eq_some_iff.mpr (by simp [hentries])
    rw [h] at hhead
    contradiction

theorem get?_filter (t : Table κ ν) (p : κ × ν → Bool) (key : κ) :
    (t.filter p).get? key = (t.get? key).filter fun value => p (key, value) := by
  apply Option.ext
  intro value
  simp only [get?_eq_some_iff, filter, List.mem_filter, Option.filter_eq_some_iff]

theorem forall_insert {t : Table κ ν} {P : κ → ν → Prop} {key : κ} {value : ν}
    (hnew : P key value) (h : ∀ k v, t.get? k = some v → P k v) :
    ∀ k v, (t.insert key value).get? k = some v → P k v := by
  intro k v hv
  rw [get?_insert] at hv
  split at hv
  · rename_i hk
    cases hv
    exact hk ▸ hnew
  · exact h k v hv

theorem forall_erase {t : Table κ ν} {P : κ → ν → Prop} {key : κ}
    (h : ∀ k v, t.get? k = some v → P k v) : ∀ k v, (t.erase key).get? k = some v → P k v := by
  intro k v hv
  rw [get?_erase] at hv
  split at hv
  · cases hv
  · exact h k v hv

theorem le_of_entries_eq_cons {t : Table κ ν} {key : κ} {value : ν} {rest : List (κ × ν)}
    (h : t.entries = (key, value) :: rest) {other : κ} (hother : (t.get? other).isSome) :
    key = other ∨ key < other := by
  obtain ⟨v, hv⟩ := Option.isSome_iff_exists.mp hother
  have hasc := t.ascending
  rw [get?_eq_some_iff, h] at hv
  rw [h] at hasc
  rcases List.mem_cons.mp hv with heq | hmem
  · exact .inl (Prod.mk.inj heq).1.symm
  · exact .inr ((List.pairwise_cons.mp hasc).1 _ hmem)

-- ---------------------------------------------------------------------------
-- Counting values
-- ---------------------------------------------------------------------------

def holding (t : Table κ ν) (p : ν → Bool) : Nat := t.entries.countP fun entry => p entry.2

theorem countP_insertIn {entries : List (κ × ν)} {key : κ} (value : ν) (p : ν → Bool)
    (h : lookupIn key entries = none) :
    (insertIn key value entries).countP (fun entry => p entry.2) =
      entries.countP (fun entry => p entry.2) + if p value then 1 else 0 := by
  induction entries with
  | nil => simp [insertIn, List.countP_cons]
  | cons head rest ih => grind [insertIn, lookupIn]

theorem countP_replaceIn {entries : List (κ × ν)} {key : κ} {old : ν} (value : ν) (p : ν → Bool)
    (hasc : entries.Pairwise (fun a b => a.1 < b.1)) (h : lookupIn key entries = some old) :
    (insertIn key value entries).countP (fun entry => p entry.2) + (if p old then 1 else 0) =
      entries.countP (fun entry => p entry.2) + if p value then 1 else 0 := by
  induction entries with
  | nil => simp [lookupIn] at h
  | cons head rest ih =>
    obtain ⟨k, v⟩ := head
    obtain ⟨hhead, hrest⟩ := List.pairwise_cons.mp hasc
    simp only [lookupIn] at h
    split at h
    · rename_i hk
      cases h
      simp only [insertIn, hk, ↓reduceIte, List.countP_cons]
      omega
    · rename_i hk
      have hlt : k < key := hhead (key, old) ((lookupIn_eq_some_iff hrest).mp h)
      have hcount := ih hrest h
      simp only [insertIn, hk, hlt, ↓reduceIte, List.countP_cons]
      omega

theorem countP_eraseIn {entries : List (κ × ν)} {key : κ} {old : ν} (p : ν → Bool)
    (h : lookupIn key entries = some old) :
    (eraseIn key entries).countP (fun entry => p entry.2) + (if p old then 1 else 0) =
      entries.countP fun entry => p entry.2 := by
  induction entries with
  | nil => simp [lookupIn] at h
  | cons head rest ih => grind [eraseIn, lookupIn]

theorem holding_insert_new {t : Table κ ν} {key : κ} (value : ν) (p : ν → Bool)
    (h : t.get? key = none) :
    (t.insert key value).holding p = t.holding p + if p value then 1 else 0 :=
  countP_insertIn value p h

theorem holding_insert_old {t : Table κ ν} {key : κ} {old : ν} (value : ν) (p : ν → Bool)
    (h : t.get? key = some old) (hp : p value = p old) :
    (t.insert key value).holding p = t.holding p := by
  have hcount := countP_replaceIn value p t.ascending h
  rw [hp] at hcount
  exact Nat.add_right_cancel hcount

theorem holding_erase {t : Table κ ν} {key : κ} {old : ν} (p : ν → Bool)
    (h : t.get? key = some old) :
    (t.erase key).holding p + (if p old then 1 else 0) = t.holding p :=
  countP_eraseIn p h

theorem holding_pos_iff {t : Table κ ν} {p : ν → Bool} :
    0 < t.holding p ↔ ∃ key value, t.get? key = some value ∧ p value = true := by
  simp only [holding, List.countP_pos_iff, Prod.exists, get?_eq_some_iff]

theorem holding_pos {t : Table κ ν} {key : κ} {value : ν} {p : ν → Bool}
    (h : t.get? key = some value) (hp : p value = true) : 0 < t.holding p :=
  holding_pos_iff.mpr ⟨key, value, h, hp⟩

end DocStore.Table
