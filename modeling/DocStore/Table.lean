import DocStore.Bytes

/-!
# Sorted tables

A finite map kept as its list of entries in strictly ascending key order. The order is part of the
type, so a scan is a stretch of `entries`. `get?_insert` and `get?_erase` say what the two writes
do to what is held under each key.
-/

namespace DocStore

/-- A strict total order, as keys need it: any two different keys are ordered one way. -/
class KeyOrder (κ : Type) extends LT κ where
  decidableEq : DecidableEq κ
  decidableLT : DecidableLT κ
  irrefl (a : κ) : ¬ a < a
  trans {a b c : κ} : a < b → b < c → a < c
  total {a b : κ} : a ≠ b → ¬ a < b → b < a

instance (priority := low) KeyOrder.instDecidableEq {κ : Type} [KeyOrder κ] : DecidableEq κ :=
  KeyOrder.decidableEq

instance (priority := low) KeyOrder.instDecidableLT {κ : Type} [KeyOrder κ] : DecidableLT κ :=
  KeyOrder.decidableLT

instance : KeyOrder Bytes where
  decidableEq := inferInstance
  decidableLT := inferInstance
  irrefl := List.lt_irrefl
  trans := List.lt_trans
  total hne h := (List.le_iff_lt_or_eq.mp (List.not_lt.mp h)).resolve_right (Ne.symm hne)

instance : KeyOrder Nat where
  decidableEq := inferInstance
  decidableLT := inferInstance
  irrefl := Nat.lt_irrefl
  trans := Nat.lt_trans
  total hne h := by omega

structure Table (κ ν : Type) [LT κ] where
  entries : List (κ × ν)
  ascending : entries.Pairwise (fun a b => a.1 < b.1)

namespace Table

variable {κ ν : Type} [KeyOrder κ]

instance : EmptyCollection (Table κ ν) := ⟨⟨[], .nil⟩⟩

instance : Inhabited (Table κ ν) := ⟨∅⟩

theorem ext {s t : Table κ ν} (h : s.entries = t.entries) : s = t := by
  cases s; cases t; cases h; rfl

def size (t : Table κ ν) : Nat := t.entries.length

def isEmpty (t : Table κ ν) : Bool := t.entries.isEmpty

def keys (t : Table κ ν) : List κ := t.entries.map Prod.fst

theorem ascending_keys (t : Table κ ν) : t.keys.Pairwise (· < ·) :=
  List.pairwise_map.mpr t.ascending

def filter (p : κ × ν → Bool) (t : Table κ ν) : Table κ ν :=
  ⟨t.entries.filter p, t.ascending.filter p⟩

def lookupIn (key : κ) : List (κ × ν) → Option ν
  | [] => none
  | (k, v) :: rest => if k = key then some v else lookupIn key rest

def get? (t : Table κ ν) (key : κ) : Option ν := lookupIn key t.entries

theorem lookupIn_eq_none {key : κ} {entries : List (κ × ν)}
    (h : ∀ entry ∈ entries, entry.1 ≠ key) : lookupIn key entries = none := by
  induction entries with
  | nil => rfl
  | cons head rest ih =>
    simp only [lookupIn, h head List.mem_cons_self, if_false]
    exact ih fun entry he => h entry (List.mem_cons_of_mem _ he)

def eraseIn (key : κ) : List (κ × ν) → List (κ × ν)
  | [] => []
  | (k, v) :: rest => if k = key then rest else (k, v) :: eraseIn key rest

theorem eraseIn_sublist (key : κ) (entries : List (κ × ν)) :
    (eraseIn key entries).Sublist entries := by
  induction entries with
  | nil => exact .slnil
  | cons entry rest ih =>
    simp only [eraseIn]
    split
    · exact List.sublist_cons_self _ _
    · exact ih.cons_cons _

def erase (t : Table κ ν) (key : κ) : Table κ ν :=
  ⟨eraseIn key t.entries, t.ascending.sublist (eraseIn_sublist key t.entries)⟩

def insertIn (key : κ) (value : ν) : List (κ × ν) → List (κ × ν)
  | [] => [(key, value)]
  | (k, v) :: rest =>
    if k = key then (key, value) :: rest
    else if k < key then (k, v) :: insertIn key value rest
    else (key, value) :: (k, v) :: rest

theorem mem_insertIn {key : κ} {value : ν} {entries : List (κ × ν)} {entry : κ × ν}
    (h : entry ∈ insertIn key value entries) : entry = (key, value) ∨ entry ∈ entries := by
  induction entries with
  | nil => simpa [insertIn] using h
  | cons head rest ih => grind [insertIn]

theorem ascending_insertIn (key : κ) (value : ν) {entries : List (κ × ν)}
    (h : entries.Pairwise (fun a b => a.1 < b.1)) :
    (insertIn key value entries).Pairwise (fun a b => a.1 < b.1) := by
  induction entries with
  | nil => simp [insertIn]
  | cons head rest ih =>
    obtain ⟨k, v⟩ := head
    have hrest := List.pairwise_cons.mp h
    simp only [insertIn]
    split
    · rename_i hk
      subst hk
      exact List.pairwise_cons.mpr hrest
    · rename_i hk
      split
      · rename_i hlt
        refine List.pairwise_cons.mpr ⟨fun entry he => ?_, ih hrest.2⟩
        rcases mem_insertIn he with rfl | he
        · exact hlt
        · exact hrest.1 entry he
      · rename_i hlt
        have hgt : key < k := KeyOrder.total hk hlt
        refine List.pairwise_cons.mpr ⟨fun entry he => ?_, h⟩
        rcases List.mem_cons.mp he with rfl | he
        · exact hgt
        · exact KeyOrder.trans hgt (hrest.1 entry he)

def insert (t : Table κ ν) (key : κ) (value : ν) : Table κ ν :=
  ⟨insertIn key value t.entries, ascending_insertIn key value t.ascending⟩

@[simp] theorem get?_empty (key : κ) : (∅ : Table κ ν).get? key = none := rfl

theorem get?_insert (t : Table κ ν) (key other : κ) (value : ν) :
    (t.insert key value).get? other = if other = key then some value else t.get? other := by
  obtain ⟨entries, hasc⟩ := t
  simp only [get?, insert]
  clear hasc
  induction entries with
  | nil => grind [insertIn, lookupIn]
  | cons head rest ih =>
    simp only [insertIn]
    grind [lookupIn]

theorem get?_erase (t : Table κ ν) (key other : κ) :
    (t.erase key).get? other = if other = key then none else t.get? other := by
  obtain ⟨entries, hasc⟩ := t
  simp only [get?, erase]
  induction entries with
  | nil => simp [eraseIn, lookupIn]
  | cons head rest ih =>
    obtain ⟨k, v⟩ := head
    have hrest := List.pairwise_cons.mp hasc
    simp only [eraseIn]
    by_cases hk : k = key
    · subst hk
      have hnone : lookupIn k rest = none := lookupIn_eq_none fun entry he hek => by
        have hlt := hrest.1 entry he
        simp only [hek] at hlt
        exact KeyOrder.irrefl _ hlt
      grind [lookupIn]
    · have := ih hrest.2
      grind [lookupIn]

end Table

end DocStore
