import Mathlib.Data.List.TakeWhile
import DocStore.Proofs.Table
import DocStore.Store

/-!
# Pages of a view

All that starts with one prefix stands together in a view, since its keys are sorted. So a page, which
only says where it begins and where it ends, leaves out nothing between (`rest_eq_filter`). `rest` is
what is still to come behind a key. Taking a page off it leaves what comes behind the last key of the
page (`rest_after_page`), so pages of any size add up to the whole (`scans_exact`).
-/

namespace DocStore

-- ---------------------------------------------------------------------------
-- Prefixes in order
-- ---------------------------------------------------------------------------

namespace Bytes

theorem prefix_of_between {start lower upper : Bytes} (hlow : ¬ lower < start)
    (hhigh : ¬ upper < lower) (h : start <+: upper) : start <+: lower := by
  induction start generalizing lower upper with
  | nil => exact List.nil_prefix
  | cons b start ih =>
    obtain ⟨tail, rfl⟩ := h
    rw [List.cons_append] at hhigh
    cases lower with
    | nil => exact absurd (List.nil_lt_cons b start) hlow
    | cons c lower =>
      rw [List.cons_lt_cons_iff, not_or] at hlow hhigh
      have hcb : c = b := UInt8.le_antisymm (UInt8.not_lt.mp hhigh.1) (UInt8.not_lt.mp hlow.1)
      subst hcb
      have hlow' : ¬ lower < start := fun hlt => hlow.2 ⟨rfl, hlt⟩
      have hhigh' : ¬ start ++ tail < lower := fun hlt => hhigh.2 ⟨rfl, hlt⟩
      exact (List.prefix_cons_inj c).mpr (ih hlow' hhigh' (List.prefix_append start tail))

theorem lt_of_append_lt {start a b : Bytes} (h : start ++ a < start ++ b) : a < b := by
  induction start with
  | nil => exact h
  | cons c start ih =>
    rw [List.cons_append, List.cons_append, List.cons_lt_cons_iff] at h
    exact h.elim (fun hlt => absurd hlt (UInt8.lt_irrefl c)) fun h => ih h.2

end Bytes

-- ---------------------------------------------------------------------------
-- Sorted lists
-- ---------------------------------------------------------------------------

section Sorted

variable {α : Type} {p : α → Bool} {l : List α}

theorem takeWhile_eq_filter (h : l.Pairwise fun a b => p b = true → p a = true) :
    l.takeWhile p = l.filter p := by
  induction l with
  | nil => rfl
  | cons a rest ih =>
    obtain ⟨hhead, hrest⟩ := List.pairwise_cons.mp h
    cases ha : p a with
    | true => rw [List.takeWhile_cons_of_pos ha, List.filter_cons_of_pos ha, ih hrest]
    | false =>
      have hnone : ∀ b ∈ a :: rest, ¬ p b = true := by
        intro b hb hpb
        rcases List.mem_cons.mp hb with rfl | hb
        · simp [ha] at hpb
        · simp [ha] at hhead
          simp [hhead b hb] at hpb
      rw [List.filter_eq_nil_iff.mpr hnone, List.takeWhile_cons_of_neg (hnone a List.mem_cons_self)]

theorem dropWhile_eq_filter (h : l.Pairwise fun a b => p a = true → p b = true) :
    l.dropWhile (fun a => !p a) = l.filter p := by
  induction l with
  | nil => rfl
  | cons a rest ih =>
    obtain ⟨hhead, hrest⟩ := List.pairwise_cons.mp h
    cases ha : p a with
    | true =>
      have hall : ∀ b ∈ a :: rest, p b = true := by
        intro b hb
        rcases List.mem_cons.mp hb with rfl | hb
        · exact ha
        · exact hhead b hb ha
      rw [List.filter_eq_self.mpr hall, List.dropWhile_cons_of_neg (by simp [ha])]
    | false => rw [List.dropWhile_cons_of_pos (by simp [ha]), List.filter_cons_of_neg (by simp [ha]), ih hrest]

end Sorted

-- ---------------------------------------------------------------------------
-- Stretches of a view
-- ---------------------------------------------------------------------------

namespace Data

section PageStart

variable {start key : Bytes} {after : Option Bytes}

theorem not_lt_of_pageStart (h : pageStart start after key = true) : ¬ key < start := by
  cases after with
  | none => exact List.not_lt.mpr (of_decide_eq_true h)
  | some last =>
    simp only [pageStart] at h
    split at h
    · exact List.not_lt.mpr (of_decide_eq_true h)
    · rename_i hlast
      exact fun hlt => hlast (List.lt_trans (of_decide_eq_true h) hlt)

theorem pageStart_of_lt {key' : Bytes} (hlt : key < key') (h : pageStart start after key = true) :
    pageStart start after key' = true := by
  cases after with
  | none => exact decide_eq_true (List.le_of_lt (List.lt_of_le_of_lt (of_decide_eq_true h) hlt))
  | some last =>
    simp only [pageStart] at h ⊢
    split at h
    · rename_i hlast
      rw [if_pos hlast]
      exact decide_eq_true (List.le_of_lt (List.lt_of_le_of_lt (of_decide_eq_true h) hlt))
    · rename_i hlast
      rw [if_neg hlast]
      exact decide_eq_true (List.lt_trans (of_decide_eq_true h) hlt)

/-- Under the prefix a page begins behind the key it is asked to begin behind. -/
theorem pageStart_iff (hunder : start <+: key) :
    pageStart start after key = true ↔ ∀ last ∈ after, last < key := by
  cases after with
  | none => simpa [pageStart] using hunder.le
  | some last =>
    simp only [pageStart, Option.mem_some_iff, forall_eq']
    split
    · rename_i hlast
      simp only [decide_eq_true_eq, hunder.le, true_iff]
      rcases List.le_iff_lt_or_eq.mp hunder.le with hlt | rfl
      · exact List.lt_trans hlast hlt
      · exact hlast
    · exact decide_eq_true_iff

end PageStart

/-- The pairs under `start` strictly after `after`, in key order. -/
def rest (view : Data) (start : Bytes) (after : Option Bytes) : List (Bytes × Bytes) :=
  (view.entries.dropWhile fun entry => !pageStart start after entry.1).takeWhile fun entry =>
    start.isPrefixOf entry.1

theorem page_eq_take (view : Data) (start : Bytes) (after : Option Bytes) (limit : Nat) :
    view.page start after limit = (view.rest start after).take limit := rfl

theorem scan_eq_rest (view : Data) (start : Bytes) : view.scan start = view.rest start none := by
  have hstart : (fun entry : Bytes × Bytes => decide (entry.1 < start)) =
      fun entry => !pageStart start none entry.1 := by
    funext entry
    rw [Bool.eq_iff_iff, Bool.not_eq_true', pageStart, decide_eq_true_iff, decide_eq_false_iff_not,
      List.not_le]
  rw [scan, rest, hstart]

theorem rest_sublist (view : Data) (start : Bytes) (after : Option Bytes) :
    (view.rest start after).Sublist view.entries :=
  (List.takeWhile_sublist _).trans (List.dropWhile_sublist _)

theorem rest_eq_filter (view : Data) (start : Bytes) (after : Option Bytes) :
    view.rest start after = view.entries.filter fun entry =>
      start.isPrefixOf entry.1 && pageStart start after entry.1 := by
  have hbegin : (view.entries.dropWhile fun entry => !pageStart start after entry.1) =
      view.entries.filter fun entry => pageStart start after entry.1 :=
    dropWhile_eq_filter (view.ascending.imp pageStart_of_lt)
  have hend : (view.entries.filter fun entry => pageStart start after entry.1).Pairwise
      fun a b => start.isPrefixOf b.1 = true → start.isPrefixOf a.1 = true := by
    refine (view.ascending.filter _).imp_of_mem fun ha _ hlt hb => ?_
    have hlow := not_lt_of_pageStart (List.mem_filter.mp ha).2
    rw [List.isPrefixOf_iff_prefix] at hb ⊢
    exact Bytes.prefix_of_between hlow (List.lt_asymm hlt) hb
  rw [rest, hbegin, takeWhile_eq_filter hend, List.filter_filter]

theorem mem_rest {view : Data} {start : Bytes} {after : Option Bytes} {pair : Bytes × Bytes} :
    pair ∈ view.rest start after ↔
      view.get? pair.1 = some pair.2 ∧ start <+: pair.1 ∧ ∀ last ∈ after, last < pair.1 := by
  rw [rest_eq_filter, List.mem_filter, Bool.and_eq_true, List.isPrefixOf_iff_prefix,
    Table.get?_eq_some_iff]
  exact and_congr_right fun _ => and_congr_right pageStart_iff

theorem prefix_of_mem_rest {view : Data} {start : Bytes} {after : Option Bytes}
    {pair : Bytes × Bytes} (h : pair ∈ view.rest start after) : start <+: pair.1 :=
  (mem_rest.mp h).2.1

theorem ascending_rest (view : Data) (start : Bytes) (after : Option Bytes) :
    (view.rest start after).Pairwise fun a b => a.1.drop start.length < b.1.drop start.length := by
  have hsorted := view.ascending.sublist (rest_sublist view start after)
  refine hsorted.imp_of_mem fun ha hb hlt => ?_
  obtain ⟨a, ha⟩ := prefix_of_mem_rest ha
  obtain ⟨b, hb⟩ := prefix_of_mem_rest hb
  rw [← ha, ← hb] at hlt ⊢
  simpa only [List.drop_left] using Bytes.lt_of_append_lt hlt

theorem mem_rest_none {view : Data} {start : Bytes} {pair : Bytes × Bytes} :
    pair ∈ view.rest start none ↔ view.get? pair.1 = some pair.2 ∧ start <+: pair.1 := by
  rw [mem_rest]
  exact and_congr_right fun _ => and_iff_left nofun

theorem rest_none_eq (view : Data) (start : Bytes) :
    view.rest start none = (view.filter fun entry => start.isPrefixOf entry.1).entries := by
  rw [rest_eq_filter, Table.filter]
  refine List.filter_congr fun entry _ => ?_
  rw [Bool.eq_iff_iff, Bool.and_eq_true, List.isPrefixOf_iff_prefix]
  exact and_iff_left_of_imp fun hunder =>
    (pageStart_iff hunder).mpr fun _ hkey => absurd hkey (Option.not_mem_none _)

theorem rest_none_congr {view view' : Data} {start : Bytes}
    (h : ∀ key, start <+: key → view'.get? key = view.get? key) :
    view'.rest start none = view.rest start none := by
  have hsame : (view'.filter fun entry => start.isPrefixOf entry.1) =
      view.filter fun entry => start.isPrefixOf entry.1 := by
    refine Table.ext_get? fun key => ?_
    rw [Table.get?_filter, Table.get?_filter]
    by_cases hkey : start <+: key
    · rw [h key hkey]
    · have hno : start.isPrefixOf key = false := by
        rwa [Bool.eq_false_iff, ne_eq, List.isPrefixOf_iff_prefix]
      cases view.get? key <;> cases view'.get? key <;> simp [hno]
  rw [rest_none_eq, rest_none_eq, hsame]

/-- Behind the last key of a page comes what the page has left. -/
theorem rest_after_page {view : Data} {start : Bytes} {after : Option Bytes} {limit : Nat}
    {last : Bytes × Bytes} (hlast : (view.page start after limit).getLast? = some last) :
    view.rest start (some last.1) = (view.rest start after).drop limit := by
  have hmem : last ∈ (view.rest start after).take limit := List.mem_of_getLast? hlast
  obtain ⟨-, -, hafter⟩ := mem_rest.mp (List.mem_of_mem_take hmem)
  -- What is behind the last key is behind what the page was asked to begin behind.
  have hbehind : view.rest start (some last.1) =
      (view.rest start after).filter fun entry => last.1 < entry.1 := by
    rw [rest_eq_filter, rest_eq_filter, List.filter_filter]
    refine List.filter_congr fun entry _ => ?_
    rw [Bool.eq_iff_iff]
    simp only [Bool.and_eq_true, List.isPrefixOf_iff_prefix, decide_eq_true_eq]
    constructor
    · rintro ⟨hunder, hpage⟩
      have hlt : last.1 < entry.1 := (pageStart_iff hunder).mp hpage last.1 rfl
      exact ⟨hlt, hunder, (pageStart_iff hunder).mpr fun key hkey =>
        List.lt_trans (hafter key hkey) hlt⟩
    · rintro ⟨hlt, hunder, -⟩
      exact ⟨hunder, (pageStart_iff hunder).mpr fun _ hkey => Option.mem_some_iff.mp hkey ▸ hlt⟩
  have hsorted := view.ascending.sublist (rest_sublist view start after)
  obtain ⟨page, hpage⟩ : ∃ page, (view.rest start after).take limit = page ++ [last] :=
    List.getLast?_eq_some_iff.mp hlast
  rw [← List.take_append_drop limit (view.rest start after), hpage, List.pairwise_append,
    List.pairwise_append] at hsorted
  obtain ⟨⟨-, -, hpages⟩, -, hcross⟩ := hsorted
  have hnone : ((view.rest start after).take limit).filter (fun entry => last.1 < entry.1) = [] := by
    rw [hpage, List.filter_eq_nil_iff]
    intro entry hentry
    rw [decide_eq_true_iff]
    rcases List.mem_append.mp hentry with hentry | hentry
    · exact List.lt_asymm (hpages entry hentry last (List.mem_singleton_self last))
    · rw [List.mem_singleton.mp hentry]
      exact List.lt_irrefl _
  have hall : ((view.rest start after).drop limit).filter (fun entry => last.1 < entry.1) =
      (view.rest start after).drop limit := by
    refine List.filter_eq_self.mpr fun entry hentry => decide_eq_true ?_
    exact hcross last (List.mem_append_right _ (List.mem_singleton_self last)) entry hentry
  conv_lhs => rw [hbehind, ← List.take_append_drop limit (view.rest start after)]
  rw [List.filter_append, hnone, hall, List.nil_append]

end Data

-- ---------------------------------------------------------------------------
-- Pages one after the other
-- ---------------------------------------------------------------------------

namespace Transaction

/-- Pages of which each begins behind the last key of the one before, up to the first empty page. -/
inductive Paged (start : Bytes) (limit : Nat) :
    Transaction → Option Bytes → List (List (Bytes × Bytes)) → Prop where
  | done {t : Transaction} {after : Option Bytes} (h : (t.scanBatch start after limit).1 = []) :
    Paged start limit t after []
  | more {t : Transaction} {after : Option Bytes} {last : Bytes × Bytes}
      {pages : List (List (Bytes × Bytes))}
      (hlast : (t.scanBatch start after limit).1.getLast? = some last)
      (hpages : Paged start limit (t.scanBatch start after limit).2 (some last.1) pages) :
    Paged start limit t after ((t.scanBatch start after limit).1 :: pages)

theorem Paged.flatten {start : Bytes} {limit : Nat} (hlimit : 0 < limit) {t : Transaction}
    {after : Option Bytes} {pages : List (List (Bytes × Bytes))} (h : Paged start limit t after pages) :
    pages.flatten = t.view.rest start after := by
  induction h with
  | @done t after h =>
    have hnil : t.view.rest start after = [] :=
      (List.take_eq_nil_iff.mp h).resolve_left (Nat.ne_of_gt hlimit)
    rw [hnil, List.flatten_nil]
  | @more t after last pages hlast hpages ih =>
    have hrest : t.view.rest start (some last.1) = (t.view.rest start after).drop limit :=
      Data.rest_after_page hlast
    calc (t.scanBatch start after limit).1 ++ pages.flatten
        = (t.view.rest start after).take limit ++ (t.view.rest start after).drop limit := by
          rw [ih, ← hrest]
          rfl
      _ = t.view.rest start after := List.take_append_drop _ _

/-- Each page takes something off what is to come, so there is an empty one. -/
theorem exists_paged (start : Bytes) (limit : Nat) (t : Transaction) (after : Option Bytes) :
    ∃ pages, Paged start limit t after pages := by
  cases hlast : (t.scanBatch start after limit).1.getLast? with
  | none => exact ⟨[], .done (List.getLast?_eq_none_iff.mp hlast)⟩
  | some last =>
    obtain ⟨pages, hpages⟩ := exists_paged start limit (t.scanBatch start after limit).2 (some last.1)
    exact ⟨_, .more hlast hpages⟩
termination_by (t.view.rest start after).length
decreasing_by
  have hrest : t.view.rest start (some last.1) = (t.view.rest start after).drop limit :=
    Data.rest_after_page hlast
  have hpositive : 0 < ((t.view.rest start after).take limit).length :=
    List.length_pos_of_mem (List.mem_of_getLast? hlast)
  change (t.view.rest start (some last.1)).length < (t.view.rest start after).length
  rw [hrest, List.length_drop]
  rw [List.length_take] at hpositive
  omega

/-- A page has the first pairs under a prefix and strictly after a key, in key order and without
omission. Pages up to an empty one add up to what a scan of the prefix finds. -/
theorem scans_exact (t : Transaction) (start : Bytes) (limit : Nat) :
    (∀ after, ∃ all : List (Bytes × Bytes), (all.Pairwise fun a b => a.1 < b.1) ∧
      (∀ pair, pair ∈ all ↔
        t.view.get? pair.1 = some pair.2 ∧ start <+: pair.1 ∧ ∀ last ∈ after, last < pair.1) ∧
      (t.scanBatch start after limit).1 = all.take limit) ∧
    (∃ pages, Paged start limit t none pages) ∧
    (0 < limit →
      ∀ pages, Paged start limit t none pages → pages.flatten = (t.scanPrefix start).1) := by
  refine ⟨fun after => ?_, exists_paged start limit t none, fun hlimit pages hpages => ?_⟩
  · exact ⟨t.view.rest start after, t.view.ascending.sublist (Data.rest_sublist t.view start after),
      fun _ => Data.mem_rest, rfl⟩
  · rw [hpages.flatten hlimit, ← Data.scan_eq_rest]
    rfl

/-- Keys right at the ends of what starts with `0x61`. -/
def edges : Transaction :=
  let before := Table.insert ∅ [0x60, 0xff] [0]
  let view := ((before.insert [0x61] [1]).insert [0x61, 0x00] [2]).insert [0x61, 0xff, 0xff] [3]
  { view := view.insert [0x62] [4], readSeq := 0, writes := ∅, reads := [], readOnly := true }

theorem scans_exact_edges : 0 < 2 ∧ ∃ pages, Paged [0x61] 2 edges none pages ∧
    pages.flatten = [([0x61], [1]), ([0x61, 0x00], [2]), ([0x61, 0xff, 0xff], [3])] := by
  obtain ⟨-, ⟨pages, hpages⟩, hflatten⟩ := scans_exact edges [0x61] 2
  exact ⟨by decide, pages, hpages, hflatten (by decide) pages hpages⟩

-- A page may be asked for behind a key that is in front of all it is to hold.
example : (edges.scanBatch [0x61] (some [0x60, 0xff, 0x00]) 1).1 = [([0x61], [1])] := by decide

end Transaction

end DocStore
