import Mathlib.Data.List.Induction
import Mathlib.Data.List.Pairwise
import Mathlib.Data.Multiset.Basic
import DocStore.Aggregate
import DocStore.Proofs.ValueOrder

/-!
# Grouping

Groups go up by their keys, and a row finds its group by halving. A probe that is not below the key
tells of all later groups, and one that is not above it of all earlier ones (`Ordered.above`,
`Ordered.below`), as comparing goes on from one group to the next. So a row that gets a place compares
with every group although it has been compared with few of them (`Placed`), and rows are shared out as
long as any two of them compare (`foldlM_push`). What a group holds does not depend on the order in
which the rows come, and neither does the order of the groups (`Partition.unique`).

A row need not compare with itself; it opens a group all the same (`lone_box_apart`).
-/

namespace DocStore.Group

variable {fields : List String} {typeName : String} {e : Failure} {doc : Document}

-- ---------------------------------------------------------------------------
-- Keys
-- ---------------------------------------------------------------------------

theorem compareKeys_eq_ok_iff {as bs : List Value} {o : Ordering} (ha : as.length = fields.length)
    (hb : bs.length = fields.length) :
    compareKeys fields as bs = .ok o ↔ Value.compareItems as bs = some o := by
  induction fields generalizing as bs with
  | nil =>
    rw [List.eq_nil_of_length_eq_zero ha, List.eq_nil_of_length_eq_zero hb, compareKeys,
      Value.compareItems, Except.ok.injEq, Option.some.injEq]
    all_goals nofun
  | cons field rest ih =>
    cases as with
    | nil => cases ha
    | cons a as =>
      cases bs with
      | nil => cases hb
      | cons b bs =>
        have hrest := ih (Nat.succ.inj ha) (Nat.succ.inj hb)
        rw [compareKeys, Value.compareItems]
        rcases a.compare b with _ | _ | _ | _ <;> simp [hrest]

theorem compareKeys_error {a b : Document}
    (h : compareKeys fields (a.values fields) (b.values fields) = .error e) :
    ∃ field ∈ fields, (a.lookupOrNull field).compare (b.lookupOrNull field) = none ∧
      e = .typeMismatch field (a.lookupOrNull field).kind (b.lookupOrNull field).kind := by
  unfold Document.values at h
  induction fields with
  | nil => cases h
  | cons field rest ih =>
    rw [List.map_cons, List.map_cons, compareKeys] at h
    split at h
    · obtain ⟨other, hother, hmismatch⟩ := ih h
      exact ⟨other, List.mem_cons_of_mem _ hother, hmismatch⟩
    · cases h
    · rename_i hnone
      exact ⟨field, List.mem_cons_self, hnone, (Except.error.inj h).symm⟩

theorem keyOf_eq (h : ∀ field ∈ fields, (doc.lookup field).isSome) :
    keyOf typeName fields doc = .ok (doc.values fields) := by
  unfold keyOf Document.values
  induction fields with
  | nil => rfl
  | cons field rest ih =>
    obtain ⟨hfirst, hrest⟩ := List.forall_mem_cons.mp h
    obtain ⟨value, hvalue⟩ := Option.isSome_iff_exists.mp hfirst
    rw [List.mapM_cons, ih hrest, List.map_cons, Document.lookupOrNull]
    simp only [hvalue]
    rfl

-- ---------------------------------------------------------------------------
-- Halving
-- ---------------------------------------------------------------------------

section Halving

variable {probe : Nat → Except Failure Ordering} {base size place : Nat}

/-- What is known below the place at which halving ends and above it, if the probes tell it and what is
above one place is above all later ones. -/
theorem halve_ok (low high : Nat → Prop) (hlow : ∀ i o, probe i = .ok o → o ≠ .gt → low i)
    (hhigh : ∀ i, probe i = .ok .gt → high i) (hup : ∀ i j, i ≤ j → high i → high j)
    (hsize : 0 < size) (hbase : low base) (hend : high (base + size))
    (h : halve probe base size = .ok place) :
    place < base + size ∧ low place ∧ high (place + 1) := by
  fun_induction halve probe base size with
  | case1 => cases hsize
  | case2 base =>
    cases h
    exact ⟨Nat.lt_succ_self _, hbase, hend⟩
  | case3 base size half ih =>
    cases hprobe : probe (base + half) with
    | error e =>
      rw [hprobe] at h
      cases h
    | ok order =>
      rw [hprobe] at h
      specialize ih order
      simp only [dite_eq_ite] at ih
      have hhalf : 0 < half ∧ half < size + 2 := by omega
      by_cases horder : order = .gt
      · rw [if_pos horder] at ih
        rw [horder] at h hprobe
        refine (ih (by omega) hbase (hup _ _ (by omega) (hhigh _ hprobe)) h).imp_left fun hplace => ?_
        omega
      · rw [if_neg horder] at ih
        have hnext : halve probe (if order = .gt then base else base + half) (size + 2 - half) =
            .ok place := h
        rw [if_neg horder] at hnext
        have hsame : base + half + (size + 2 - half) = base + (size + 2) := by omega
        rw [hsame] at ih
        exact ih (by omega) (hlow _ _ hprobe horder) hend hnext

theorem halve_error (h : halve probe base size = .error e) : ∃ i, probe i = .error e := by
  fun_induction halve probe base size with
  | case1 => cases h
  | case2 => cases h
  | case3 base size half ih =>
    cases hprobe : probe (base + half) with
    | error e' =>
      rw [hprobe] at h
      cases h
      exact ⟨_, hprobe⟩
    | ok order =>
      rw [hprobe] at h
      exact ih order h

end Halving

-- ---------------------------------------------------------------------------
-- The place of a key
-- ---------------------------------------------------------------------------

/-- How the group at a place stands to the key; behind the last group everything is greater. -/
def probe (fields : List String) (key : List Value) (groups : List Group) (i : Nat) :
    Except Failure Ordering :=
  match groups[i]? with
  | some group => compareKeys fields group.key key
  | none => .ok .gt

def placeAt (base : Nat) : Ordering → Bool × Nat
  | .eq => (true, base)
  | .lt => (false, base + 1)
  | .gt => (false, base)

theorem locate_cons (fields : List String) (key : List Value) (g : Group) (rest : List Group) :
    locate fields key (g :: rest) =
      (halve (probe fields key (g :: rest)) 0 (rest.length + 1)).bind fun base =>
        (probe fields key (g :: rest) base).map (placeAt base) := by
  have hprobe : probe fields key (g :: rest) = fun i => match (g :: rest)[i]? with
      | some group => compareKeys fields group.key key
      | none => .ok .gt := rfl
  have hplaced (base : Nat) (result : Except Failure Ordering) : (result >>= fun o => match o with
      | .eq => pure (true, base)
      | .lt => pure (false, base + 1)
      | .gt => pure (false, base)) = result.map (placeAt base) := by
    cases result with
    | error e => rfl
    | ok o => cases o <;> rfl
  rw [hprobe]
  unfold locate
  simp only [List.isEmpty_cons, Bool.false_eq_true, if_false, List.length_cons]
  refine congrArg (Except.bind _) (funext fun base => hplaced base _)

/-- The groups go up, their keys are among those that compare coherently, and so is the one that is
looked for. -/
structure Ordered (fields : List String) (s : List Value → Prop) (key : List Value)
    (groups : List Group) : Prop where
  coherent : Coherent Value.compareItems s
  key : s key ∧ key.length = fields.length
  keys : ∀ g ∈ groups, s g.key ∧ g.key.length = fields.length
  ascending : groups.Pairwise fun g h => Value.compareItems g.key h.key = some .lt

section Ordered

variable {s : List Value → Prop} {key : List Value} {groups groups' : List Group} {i : Nat}

theorem probe_error (h : probe fields key groups i = .error e) :
    ∃ g ∈ groups, compareKeys fields g.key key = .error e := by
  unfold probe at h
  split at h
  · rename_i g hg
    exact ⟨g, List.mem_of_getElem? hg, h⟩
  · cases h

theorem locate_error (h : locate fields key groups = .error e) :
    ∃ g ∈ groups, compareKeys fields g.key key = .error e := by
  cases groups with
  | nil => cases h
  | cons g rest =>
    rw [locate_cons] at h
    cases hbase : halve (probe fields key (g :: rest)) 0 (rest.length + 1) with
    | error e' =>
      rw [hbase] at h
      cases h
      obtain ⟨i, hi⟩ := halve_error hbase
      exact probe_error hi
    | ok base =>
      rw [hbase] at h
      cases hprobe : probe fields key (g :: rest) base with
      | error e' =>
        rw [Except.bind, hprobe] at h
        cases h
        exact probe_error hprobe
      | ok o =>
        rw [Except.bind, hprobe] at h
        cases h

variable (h : Ordered fields s key groups)
include h

theorem Ordered.probe_ok {o : Ordering} (hprobe : probe fields key groups i = .ok o) :
    (∃ g, groups[i]? = some g ∧ Value.compareItems g.key key = some o) ∨
      groups.drop i = [] ∧ o = .gt := by
  unfold probe at hprobe
  split at hprobe
  · rename_i g hg
    refine .inl ⟨g, hg, ?_⟩
    rwa [← compareKeys_eq_ok_iff (h.keys g (List.mem_of_getElem? hg)).2 h.key.2]
  · rename_i hnone
    exact .inr ⟨List.drop_eq_nil_of_le (List.getElem?_eq_none_iff.mp hnone),
      (Except.ok.inj hprobe).symm⟩

theorem Ordered.below {o : Ordering} (hprobe : probe fields key groups i = .ok o) (hle : o ≠ .gt) :
    ∀ f ∈ groups.take i, Value.compareItems f.key key = some .lt := by
  intro f hf
  obtain ⟨g, hg, ho⟩ := (h.probe_ok hprobe).resolve_right fun hgt => hle hgt.2
  obtain ⟨hi, rfl⟩ := List.getElem?_eq_some_iff.mp hg
  have hsplit := List.take_append_drop i groups
  rw [List.drop_eq_getElem_cons hi] at hsplit
  have hlt := (List.pairwise_append.mp (hsplit.symm ▸ h.ascending)).2.2 f hf _ List.mem_cons_self
  exact h.coherent.transits _ _ _ (h.keys f (List.mem_of_mem_take hf)).1
    (h.keys _ (List.getElem_mem hi)).1 h.key.1 _ _ hlt ho rfl (Ordering.isLE_iff_ne_gt.mpr hle)

theorem Ordered.above (hprobe : probe fields key groups i = .ok .gt) :
    ∀ f ∈ groups.drop i, Value.compareItems f.key key = some .gt := by
  intro f hf
  rcases h.probe_ok hprobe with ⟨g, hg, hgt⟩ | ⟨hnone, -⟩
  · obtain ⟨hi, rfl⟩ := List.getElem?_eq_some_iff.mp hg
    have hasc := h.ascending.sublist (List.drop_sublist i groups)
    rw [List.drop_eq_getElem_cons hi] at hf hasc
    rcases List.mem_cons.mp hf with rfl | hf
    · exact hgt
    · have hlt := (List.pairwise_cons.mp hasc).1 f hf
      exact h.coherent.swap_some (h.coherent.lt_trans h.key.1 (h.keys _ (List.getElem_mem hi)).1
        (h.keys f (List.mem_of_mem_drop hf)).1 (h.coherent.swap_some hgt) hlt)
  · rw [hnone] at hf
    cases hf

/-- A key that is located is above all groups before its place and below all behind it. -/
theorem Ordered.locate_ok {found : Bool} {place : Nat}
    (hlocate : locate fields key groups = .ok (found, place)) : place ≤ groups.length ∧
    (∀ f ∈ groups.take place, Value.compareItems f.key key = some .lt) ∧
      if found then
        ∃ g, groups[place]? = some g ∧ Value.compareItems g.key key = some .eq ∧
          ∀ f ∈ groups.drop (place + 1), Value.compareItems f.key key = some .gt
      else ∀ f ∈ groups.drop place, Value.compareItems f.key key = some .gt := by
  cases groups with
  | nil =>
    cases hlocate
    exact ⟨Nat.le_refl _, nofun, nofun⟩
  | cons g rest =>
    rw [locate_cons] at hlocate
    cases hbase : halve (probe fields key (g :: rest)) 0 (rest.length + 1) with
    | error e =>
      rw [hbase] at hlocate
      cases hlocate
    | ok base =>
      rw [hbase, Except.bind] at hlocate
      obtain ⟨hbase', hbelow, habove⟩ := halve_ok
        (fun i => ∀ f ∈ (g :: rest).take i, Value.compareItems f.key key = some .lt)
        (fun i => ∀ f ∈ (g :: rest).drop i, Value.compareItems f.key key = some .gt)
        (fun i o => h.below) (fun i => h.above)
        (fun i j hij hhigh f hf => hhigh f (List.drop_subset_drop_left _ hij hf))
        (Nat.succ_pos _) (by simp) (by simp) hbase
      have hlength : base < (g :: rest).length := by simpa using hbase'
      cases hprobe : probe fields key (g :: rest) base with
      | error e =>
        rw [hprobe] at hlocate
        cases hlocate
      | ok o =>
        rw [hprobe] at hlocate
        cases o with
        | gt =>
          cases hlocate
          exact ⟨hlength.le, hbelow, h.above hprobe⟩
        | eq =>
          cases hlocate
          obtain ⟨g', hg', heq⟩ := (h.probe_ok hprobe).resolve_right nofun
          exact ⟨hlength.le, hbelow, g', hg', heq, habove⟩
        | lt =>
          cases hlocate
          obtain ⟨g', hg', hlt⟩ := (h.probe_ok hprobe).resolve_right nofun
          refine ⟨hlength, fun f hf => ?_, habove⟩
          rw [List.take_add_one, hg'] at hf
          rcases List.mem_append.mp hf with hf | hf
          · exact hbelow f hf
          · rw [List.mem_singleton.mp hf, hlt]

end Ordered

-- ---------------------------------------------------------------------------
-- Pushing a row
-- ---------------------------------------------------------------------------

/-- The row opens a group, or joins the one whose key is equal, behind those with lesser keys and before
those with greater ones. -/
inductive Placed (typeName : String) (key : List Value) (doc : Document) :
    List Group → List Group → Prop
  | opened {front back : List Group}
      (hfront : ∀ f ∈ front, Value.compareItems f.key key = some .lt)
      (hback : ∀ f ∈ back, Value.compareItems f.key key = some .gt) :
      Placed typeName key doc (front ++ back) (front ++ ⟨typeName, key, [doc]⟩ :: back)
  | joined {front back : List Group} {hit : Group}
      (hfront : ∀ f ∈ front, Value.compareItems f.key key = some .lt)
      (hhit : Value.compareItems hit.key key = some .eq)
      (hback : ∀ f ∈ back, Value.compareItems f.key key = some .gt) :
      Placed typeName key doc (front ++ hit :: back) (front ++ join doc hit :: back)

section Push

variable {s : List Value → Prop} {key : List Value} {groups groups' : List Group}

theorem push_eq (hne : fields ≠ []) (hkey : keyOf typeName fields doc = .ok key) :
    push typeName fields groups doc = (locate fields key groups).map fun (found, place) =>
      if found then groups.modify place (join doc)
      else groups.insertIdx place ⟨typeName, key, [doc]⟩ := by
  unfold push
  rw [if_neg (by simpa using hne), hkey]
  change (locate fields key groups >>= fun _ => _) = _
  cases locate fields key groups with
  | error e => rfl
  | ok located =>
    obtain ⟨found, place⟩ := located
    cases found <;> rfl

theorem push_error (hne : fields ≠ []) (hkey : keyOf typeName fields doc = .ok key)
    (h : push typeName fields groups doc = .error e) :
    ∃ g ∈ groups, compareKeys fields g.key key = .error e := by
  rw [push_eq hne hkey] at h
  cases hlocate : locate fields key groups with
  | error e' =>
    rw [hlocate] at h
    cases h
    exact locate_error hlocate
  | ok located =>
    rw [hlocate] at h
    cases h

theorem push_ok (hne : fields ≠ []) (hkey : keyOf typeName fields doc = .ok key)
    (hordered : Ordered fields s key groups) (h : push typeName fields groups doc = .ok groups') :
    Placed typeName key doc groups groups' := by
  rw [push_eq hne hkey] at h
  cases hlocate : locate fields key groups with
  | error e' =>
    rw [hlocate] at h
    cases h
  | ok located =>
    obtain ⟨found, place⟩ := located
    obtain ⟨hplace, hbelow, hat⟩ := hordered.locate_ok hlocate
    rw [hlocate] at h
    cases found with
    | true =>
      obtain ⟨hit, hhit, heq, habove⟩ := hat
      obtain ⟨front, hit', back, rfl, rfl, hmodify⟩ :=
        List.exists_of_modify (join doc) (List.getElem?_eq_some_iff.mp hhit).1
      have hmodified : groups' = front ++ join doc hit' :: back :=
        (Except.ok.inj h).symm.trans hmodify
      have hsame : hit' = hit := by simpa using hhit
      rw [List.take_left] at hbelow
      rw [hmodified, hsame]
      refine .joined hbelow heq fun f hf => habove f ?_
      simp [List.drop_append, hf]
    | false =>
      obtain ⟨front, back, rfl, rfl, hinsert⟩ :=
        List.exists_of_modifyTailIdx (List.cons ⟨typeName, key, [doc]⟩) hplace
      have hinserted : groups' = front ++ ⟨typeName, key, [doc]⟩ :: back :=
        (Except.ok.inj h).symm.trans hinsert
      rw [List.take_left] at hbelow
      rw [hinserted]
      refine .opened hbelow ?_
      simpa using hat

theorem Placed.cases_mem (h : Placed typeName key doc groups groups') {g : Group} (hg : g ∈ groups') :
    g ∈ groups ∨ g = ⟨typeName, key, [doc]⟩ ∨
      ∃ hit ∈ groups, Value.compareItems hit.key key = some .eq ∧ g = join doc hit := by
  cases h with
  | opened hfront hback =>
    simp only [List.mem_append, List.mem_cons] at hg ⊢
    tauto
  | joined hfront hhit hback =>
    simp only [List.mem_append, List.mem_cons] at hg ⊢
    rcases hg with hg | rfl | hg
    · exact .inl (.inl hg)
    · exact .inr (.inr ⟨_, .inr (.inl rfl), hhit, rfl⟩)
    · exact .inl (.inr (.inr hg))

theorem Placed.compares (h : Placed typeName key doc groups groups') :
    ∀ g ∈ groups, ∃ o, Value.compareItems g.key key = some o := by
  intro g hg
  cases h with
  | opened hfront hback =>
    rcases List.mem_append.mp hg with hg | hg
    · exact ⟨_, hfront g hg⟩
    · exact ⟨_, hback g hg⟩
  | joined hfront hhit hback =>
    rcases List.mem_append.mp hg with hg | hg
    · exact ⟨_, hfront g hg⟩
    · rcases List.mem_cons.mp hg with rfl | hg
      · exact ⟨_, hhit⟩
      · exact ⟨_, hback g hg⟩

theorem Placed.rows (h : Placed typeName key doc groups groups') :
    (groups'.flatMap Group.members).Perm (groups.flatMap Group.members ++ [doc]) := by
  cases h with
  | @opened front back =>
    simp only [List.flatMap_append, List.flatMap_cons]
    exact List.perm_middle.trans (List.perm_append_singleton doc _).symm
  | @joined front back hit =>
    simp only [List.flatMap_append, List.flatMap_cons, join, List.append_assoc]
    refine (List.Perm.append_left _ (List.Perm.append_left _ ?_))
    exact List.perm_append_comm

end Push

-- ---------------------------------------------------------------------------
-- Partitions
-- ---------------------------------------------------------------------------

def Owns (fields : List String) (g : Group) (doc : Document) : Prop :=
  doc.values fields = g.key ∨ compareKeys fields g.key (doc.values fields) = .ok .eq

/-- The groups share out the rows: they ascend, each has the key of its first row and holds only rows
that it owns, in the order in which they came. -/
structure Partition (fields : List String) (docs : List Document) (groups : List Group) : Prop where
  ascending : groups.Pairwise fun g h => compareKeys fields g.key h.key = .ok .lt
  founded : ∀ g ∈ groups, ∃ first rest, g.members = first :: rest ∧ g.key = first.values fields
  owned : ∀ g ∈ groups, ∀ doc ∈ g.members, g.Owns fields doc
  arrival : ∀ g ∈ groups, g.members.Sublist docs
  rows : (groups.flatMap Group.members).Perm docs

def rowSets (groups : List Group) : List (Multiset Document) := groups.map fun g => ↑g.members

def Comparable (fields : List String) (a b : Document) : Prop :=
  ∃ o, compareKeys fields (a.values fields) (b.values fields) = .ok o

theorem Comparable.symm {a b : Document} (h : Comparable fields a b) : Comparable fields b a := by
  obtain ⟨o, ho⟩ := h
  have hlengths (doc : Document) := doc.length_values fields
  rw [compareKeys_eq_ok_iff (hlengths a) (hlengths b)] at ho
  refine ⟨o.swap, (compareKeys_eq_ok_iff (hlengths b) (hlengths a)).mpr ?_⟩
  rw [Value.compareItems_swap (a.values fields), ho, Option.map_some]

section Partition

variable {s : List Value → Prop} {docs : List Document} {groups groups' : List Group}

theorem Partition.length_key (h : Partition fields docs groups) {g : Group} (hg : g ∈ groups) :
    g.key.length = fields.length := by
  obtain ⟨first, rest, -, hkey⟩ := h.founded g hg
  rw [hkey, Document.values, List.length_map]

theorem Partition.exists_group (h : Partition fields docs groups) {doc : Document} (hdoc : doc ∈ docs) :
    ∃ g ∈ groups, doc ∈ g.members :=
  List.mem_flatMap.mp (h.rows.mem_iff.mpr hdoc)

theorem Partition.mem_docs (h : Partition fields docs groups) {g : Group} (hg : g ∈ groups)
    {doc : Document} (hdoc : doc ∈ g.members) : doc ∈ docs :=
  (h.arrival g hg).subset hdoc

theorem Partition.exists_row (h : Partition fields docs groups) {A : Multiset Document}
    (hA : A ∈ rowSets groups) : ∃ a, a ∈ A := by
  obtain ⟨g, hg, rfl⟩ := List.mem_map.mp hA
  obtain ⟨first, rest, hmembers, -⟩ := h.founded g hg
  exact ⟨first, Multiset.mem_coe.mpr (hmembers ▸ List.mem_cons_self)⟩

theorem Partition.key_mem (h : Partition fields docs groups) (hs : ∀ doc ∈ docs, s (doc.values fields))
    {g : Group} (hg : g ∈ groups) : s g.key := by
  obtain ⟨first, rest, hmembers, hkey⟩ := h.founded g hg
  rw [hkey]
  exact hs first (h.mem_docs hg (hmembers ▸ List.mem_cons_self))

theorem compareKeys_iff {g : Group} {o : Ordering} (hg : g.key.length = fields.length) :
    compareKeys fields g.key (doc.values fields) = .ok o ↔
      Value.compareItems g.key (doc.values fields) = some o :=
  compareKeys_eq_ok_iff hg (doc.length_values fields)

theorem Partition.ordered (h : Partition fields docs groups)
    (hcoherent : Coherent Value.compareItems s) (hs : ∀ doc ∈ docs, s (doc.values fields))
    (hdoc : s (doc.values fields)) : Ordered fields s (doc.values fields) groups := by
  refine ⟨hcoherent, ⟨hdoc, doc.length_values fields⟩,
    fun g hg => ⟨h.key_mem hs hg, h.length_key hg⟩, h.ascending.imp_of_mem fun hg hg' hlt => ?_⟩
  exact (compareKeys_eq_ok_iff (h.length_key hg) (h.length_key hg')).mp hlt

theorem Partition.placed (h : Partition fields docs groups)
    (hplaced : Placed typeName (doc.values fields) doc groups groups') :
    Partition fields (docs ++ [doc]) groups' := by
  have hmem {g : Group} (hg : g ∈ groups') := hplaced.cases_mem hg
  refine ⟨?_, fun g hg => ?_, fun g hg => ?_, fun g hg => ?_, hplaced.rows.trans (h.rows.append_right _)⟩
  · have hasc := h.ascending
    cases hplaced with
    | opened hfront hback =>
      obtain ⟨hascFront, hascBack, hcross⟩ := List.pairwise_append.mp hasc
      refine List.pairwise_append.mpr ⟨hascFront, List.pairwise_cons.mpr ⟨fun f hf => ?_, hascBack⟩,
        fun f hf f' hf' => ?_⟩
      · have hlength := h.length_key (List.mem_append_right _ hf)
        refine (compareKeys_eq_ok_iff (doc.length_values fields) hlength).mpr ?_
        rw [Value.compareItems_swap f.key, hback f hf]
        rfl
      · rcases List.mem_cons.mp hf' with rfl | hf'
        · exact (compareKeys_iff (h.length_key (List.mem_append_left _ hf))).mpr (hfront f hf)
        · exact hcross f hf f' hf'
    | joined hfront hhit hback =>
      simpa only [List.pairwise_append, List.pairwise_cons, List.forall_mem_cons, join] using hasc
  · rcases hmem hg with hg | rfl | ⟨hit, hhit, -, rfl⟩
    · exact h.founded g hg
    · exact ⟨doc, [], rfl, rfl⟩
    · obtain ⟨first, rest, hmembers, hkey⟩ := h.founded hit hhit
      exact ⟨first, rest ++ [doc], by rw [join, hmembers, List.cons_append], hkey⟩
  · rcases hmem hg with hg | rfl | ⟨hit, hhit, heq, rfl⟩
    · exact h.owned g hg
    · exact fun other hother => .inl (by rw [List.mem_singleton.mp hother])
    · intro other hother
      rcases List.mem_append.mp hother with hother | hother
      · exact h.owned hit hhit other hother
      · rw [List.mem_singleton.mp hother]
        exact .inr ((compareKeys_iff (h.length_key hhit)).mpr heq)
  · rcases hmem hg with hg | rfl | ⟨hit, hhit, -, rfl⟩
    · exact (h.arrival g hg).trans (List.sublist_append_left docs [doc])
    · exact List.sublist_append_right docs [doc]
    · exact (h.arrival hit hhit).append (List.Sublist.refl [doc])

theorem Partition.compares (h : Partition fields docs groups)
    (hcoherent : Coherent Value.compareItems s) (hs : ∀ doc ∈ docs, s (doc.values fields))
    {key : List Value} (hkey : s key) {g : Group} (hg : g ∈ groups) {a : Document}
    (ha : a ∈ docs) (howns : g.Owns fields a) :
    Value.compareItems (a.values fields) key = Value.compareItems g.key key := by
  rcases howns with howns | howns
  · rw [howns]
  · have heq := (compareKeys_iff (h.length_key hg)).mp howns
    exact (hcoherent.congr (h.key_mem hs hg) (hs a ha) hkey heq).symm

/-- Rows are pushed as long as any two of them compare; the first that does not compare with one before
it is refused. -/
theorem foldlM_push (hne : fields ≠ []) (hcoherent : Coherent Value.compareItems s)
    (hs : ∀ doc ∈ docs, s (doc.values fields))
    (hpresent : ∀ doc ∈ docs, ∀ field ∈ fields, (doc.lookup field).isSome) :
    (docs.Pairwise (Comparable fields) ∧
        ∃ groups, docs.foldlM (push typeName fields) [] = .ok groups ∧
          Partition fields docs groups) ∨
      (¬ docs.Pairwise (Comparable fields) ∧
        ∃ a ∈ docs, ∃ b ∈ docs, ∃ field ∈ fields,
          (a.lookupOrNull field).compare (b.lookupOrNull field) = none ∧
            docs.foldlM (push typeName fields) [] =
              .error (.typeMismatch field (a.lookupOrNull field).kind (b.lookupOrNull field).kind)) := by
  induction docs using List.reverseRecOn with
  | nil => exact .inl ⟨.nil, [], rfl, .nil, nofun, nofun, nofun, .refl _⟩
  | append_singleton docs doc ih =>
    obtain ⟨hsdocs, hsdoc⟩ := List.forall_mem_append.mp hs
    have hsdoc := hsdoc doc List.mem_cons_self
    obtain ⟨hpresent, hpresentDoc⟩ := List.forall_mem_append.mp hpresent
    have hkey : keyOf typeName fields doc = .ok (doc.values fields) :=
      keyOf_eq (hpresentDoc doc List.mem_cons_self)
    rw [List.foldlM_append]
    rcases ih hsdocs hpresent with ⟨hpairs, groups, hgroups, hpartition⟩ |
      ⟨hpairs, a, ha, b, hb, field, hfield, hnone, herror⟩
    · rw [hgroups]
      have hlast : ([doc].foldlM (push typeName fields) groups) =
          push typeName fields groups doc >>= pure := rfl
      cases hpush : push typeName fields groups doc with
      | ok groups' =>
        have hplaced := push_ok hne hkey (hpartition.ordered hcoherent hsdocs hsdoc) hpush
        refine .inl ⟨List.pairwise_append.mpr ⟨hpairs, List.pairwise_singleton _ _, ?_⟩, groups', ?_,
          hpartition.placed hplaced⟩
        · intro a ha b hb
          rw [List.mem_singleton.mp hb]
          obtain ⟨g, hg, hmem⟩ := hpartition.exists_group ha
          obtain ⟨o, ho⟩ := hplaced.compares g hg
          rw [← hpartition.compares hcoherent hsdocs hsdoc hg ha (hpartition.owned g hg a hmem)] at ho
          exact ⟨o, (compareKeys_eq_ok_iff (a.length_values fields) (doc.length_values fields)).mpr ho⟩
        · change [doc].foldlM (push typeName fields) groups = _
          rw [hlast, hpush]
          rfl
      | error e =>
        obtain ⟨g, hg, herror⟩ := push_error hne hkey hpush
        obtain ⟨first, rest, hmembers, hfirst⟩ := hpartition.founded g hg
        have hfirst' : first ∈ docs := hpartition.mem_docs hg (hmembers ▸ List.mem_cons_self)
        rw [hfirst] at herror
        obtain ⟨field, hfield, hnone, rfl⟩ := compareKeys_error herror
        refine .inr ⟨fun hall => ?_, first, List.mem_append_left _ hfirst', doc,
          List.mem_append_right _ List.mem_cons_self, field, hfield, hnone, ?_⟩
        · obtain ⟨o, ho⟩ := (List.pairwise_append.mp hall).2.2 first hfirst' doc List.mem_cons_self
          rw [herror] at ho
          cases ho
        · change [doc].foldlM (push typeName fields) groups = _
          rw [hlast, hpush]
          rfl
    · refine .inr ⟨fun hall => hpairs (List.pairwise_append.mp hall).1, a, List.mem_append_left _ ha,
        b, List.mem_append_left _ hb, field, hfield, hnone, ?_⟩
      rw [herror]
      rfl

end Partition

-- ---------------------------------------------------------------------------
-- Other orders of arrival
-- ---------------------------------------------------------------------------

theorem compareItems_self_ne_lt (key : List Value) : Value.compareItems key key ≠ some .lt := by
  intro h
  have hswap := Value.compareItems_swap key key
  rw [h] at hswap
  cases hswap

section Arrival

variable {s : List Value → Prop} {docs docs' : List Document} {groups groups' : List Group}
  (hcoherent : Coherent Value.compareItems s) (hs : ∀ doc ∈ docs, s (doc.values fields))
  (h : Partition fields docs groups)
include hcoherent hs h

theorem Partition.lt_of_owned {g g' : Group} (hg : g ∈ groups) (hg' : g' ∈ groups)
    (hlt : compareKeys fields g.key g'.key = .ok .lt) {a b : Document} (ha : a ∈ docs) (hb : b ∈ docs)
    (howns : g.Owns fields a) (howns' : g'.Owns fields b) :
    Value.compareItems (a.values fields) (b.values fields) = some .lt := by
  have hkeys := (compareKeys_eq_ok_iff (h.length_key hg) (h.length_key hg')).mp hlt
  rw [h.compares hcoherent hs (hs b hb) hg ha howns, Value.compareItems_swap (b.values fields),
    h.compares hcoherent hs (h.key_mem hs hg) hg' hb howns', ← Value.compareItems_swap g'.key, hkeys]

theorem Partition.eq_of_owned {g g' : Group} (hg : g ∈ groups) (hg' : g' ∈ groups) {a : Document}
    (ha : a ∈ docs) (howns : g.Owns fields a) (howns' : g'.Owns fields a) : g = g' := by
  by_contra hne
  let apart (g g' : Group) : Prop :=
    compareKeys fields g.key g'.key = .ok .lt ∨ compareKeys fields g'.key g.key = .ok .lt
  have hsymm : Std.Symm apart := ⟨fun _ _ => Or.symm⟩
  have hapart : groups.Pairwise apart := h.ascending.imp Or.inl
  rcases hapart.forall hg hg' hne with hlt | hlt
  · exact compareItems_self_ne_lt _ (h.lt_of_owned hcoherent hs hg hg' hlt ha ha howns howns')
  · exact compareItems_self_ne_lt _ (h.lt_of_owned hcoherent hs hg' hg hlt ha ha howns' howns)

/-- Every row is in one group, and in no other that owns it. -/
theorem Partition.sole_group {doc : Document} (hdoc : doc ∈ docs) :
    ∃ g ∈ groups, doc ∈ g.members ∧
      ∀ other ∈ groups, doc ∈ other.members ∨ other.Owns fields doc → other = g := by
  obtain ⟨g, hg, hmem⟩ := h.exists_group hdoc
  refine ⟨g, hg, hmem, fun other hother hrow => ?_⟩
  have howns : other.Owns fields doc := hrow.elim (h.owned other hother doc) id
  exact h.eq_of_owned hcoherent hs hother hg hdoc howns (h.owned g hg doc hmem)

theorem Partition.owns_iff {g : Group} (hg : g ∈ groups) {a b : Document} (ha : a ∈ docs)
    (hb : b ∈ docs) (howns : g.Owns fields a) : g.Owns fields b ↔
      a.values fields = b.values fields ∨
        Value.compareItems (a.values fields) (b.values fields) = some .eq := by
  have hcompares := h.compares hcoherent hs (hs b hb) hg ha howns
  constructor
  · rintro (howns' | howns')
    · rcases howns with howns | howns
      · exact .inl (howns.trans howns'.symm)
      · have heq := (compareKeys_iff (h.length_key hg)).mp howns
        rw [← howns'] at heq
        exact .inr (hcoherent.swap_some heq)
    · exact .inr (hcompares.trans ((compareKeys_iff (h.length_key hg)).mp howns'))
  · rintro (hsame | heq)
    · unfold Owns at howns ⊢
      rwa [← hsame]
    · exact .inr ((compareKeys_iff (h.length_key hg)).mpr (hcompares.symm.trans heq))

theorem Partition.members_perm {g : Group} (hg : g ∈ groups) {p : Document → Bool}
    (hp : ∀ doc ∈ docs, p doc = true ↔ g.Owns fields doc) : g.members.Perm (docs.filter p) := by
  obtain ⟨front, back, rfl⟩ := List.append_of_mem hg
  obtain ⟨-, hback, hfront⟩ := List.pairwise_append.mp h.ascending
  have hne {f : Group} (hlt : compareKeys fields f.key g.key = .ok .lt ∨
      compareKeys fields g.key f.key = .ok .lt) : f ≠ g := by
    rintro rfl
    have hlength := h.length_key hg
    exact compareItems_self_ne_lt _ ((compareKeys_eq_ok_iff hlength hlength).mp (hlt.elim id id))
  have hothers (part : List Group) (hpart : ∀ f ∈ part, f ∈ front ++ g :: back ∧ f ≠ g) :
      (part.flatMap Group.members).filter p = [] := by
    refine List.filter_eq_nil_iff.mpr fun doc hdoc hpasses => ?_
    obtain ⟨f, hf, hmem⟩ := List.mem_flatMap.mp hdoc
    obtain ⟨hf, hne⟩ := hpart f hf
    have hdoc := h.mem_docs hf hmem
    exact hne (h.eq_of_owned hcoherent hs hf hg hdoc (h.owned f hf doc hmem) ((hp doc hdoc).mp hpasses))
  have hown : g.members.filter p = g.members := List.filter_eq_self.mpr fun doc hdoc =>
    (hp doc (h.mem_docs hg hdoc)).mpr (h.owned g hg doc hdoc)
  have hrows := h.rows.filter p
  rwa [List.flatMap_append, List.flatMap_cons, List.filter_append, List.filter_append, hown,
    hothers front fun f hf => ⟨List.mem_append_left _ hf, hne (.inl (hfront f hf g List.mem_cons_self))⟩,
    hothers back fun f hf => ⟨List.mem_append_right _ (List.mem_cons_of_mem _ hf),
      hne (.inr ((List.pairwise_cons.mp hback).1 f hf))⟩,
    List.nil_append, List.append_nil] at hrows

theorem Partition.exists_same (h' : Partition fields docs' groups') (hperm : docs.Perm docs')
    {g : Group} (hg : g ∈ groups) : ∃ g' ∈ groups', g.members.Perm g'.members := by
  obtain ⟨first, rest, hmembers, -⟩ := h.founded g hg
  have hmem : first ∈ g.members := hmembers ▸ List.mem_cons_self
  have hfirst : first ∈ docs := h.mem_docs hg hmem
  have hs' : ∀ doc ∈ docs', s (doc.values fields) := fun doc hdoc => hs doc (hperm.symm.subset hdoc)
  obtain ⟨g', hg', hmem'⟩ := h'.exists_group (hperm.subset hfirst)
  have howns := h.owned g hg first hmem
  have howns' := h'.owned g' hg' first hmem'
  have hdecided : ∃ p : Document → Bool, ∀ doc, p doc = true ↔ g.Owns fields doc := by
    classical exact ⟨fun doc => decide (g.Owns fields doc), fun _ => decide_eq_true_iff⟩
  obtain ⟨p, hp⟩ := hdecided
  refine ⟨g', hg', (h.members_perm hcoherent hs hg fun doc _ => hp doc).trans ?_⟩
  refine (hperm.filter p).trans (h'.members_perm hcoherent hs' hg' fun doc hdoc => ?_).symm
  rw [hp, h.owns_iff hcoherent hs hg hfirst (hperm.symm.subset hdoc) howns,
    h'.owns_iff hcoherent hs' hg' (hperm.subset hfirst) hdoc howns']

theorem Partition.ascending_rows : (rowSets groups).Pairwise fun A B => ∀ a ∈ A, ∀ b ∈ B,
    Value.compareItems (a.values fields) (b.values fields) = some .lt := by
  refine List.pairwise_map.mpr (h.ascending.imp_of_mem fun hg hg' hlt a ha b hb => ?_)
  exact h.lt_of_owned hcoherent hs hg hg' hlt (h.mem_docs hg ha) (h.mem_docs hg' hb)
    (h.owned _ hg a ha) (h.owned _ hg' b hb)

theorem Partition.nodup_rows : (rowSets groups).Nodup := by
  refine (h.ascending_rows hcoherent hs).imp_of_mem fun hA _ hlt heq => ?_
  obtain ⟨a, ha⟩ := h.exists_row hA
  exact compareItems_self_ne_lt _ (hlt a ha a (heq ▸ ha))

/-- Whatever the order in which the rows come, there are the same groups in the same order. -/
theorem Partition.unique (h' : Partition fields docs' groups') (hperm : docs.Perm docs') :
    rowSets groups = rowSets groups' := by
  have hs' : ∀ doc ∈ docs', s (doc.values fields) := fun doc hdoc => hs doc (hperm.symm.subset hdoc)
  have hsame : (rowSets groups).Perm (rowSets groups') := by
    refine (List.perm_ext_iff_of_nodup (h.nodup_rows hcoherent hs)
      (h'.nodup_rows hcoherent hs')).mpr fun A => ⟨fun hA => ?_, fun hA => ?_⟩
    · obtain ⟨g, hg, rfl⟩ := List.mem_map.mp hA
      obtain ⟨g', hg', hmembers⟩ := h.exists_same hcoherent hs h' hperm hg
      exact List.mem_map.mpr ⟨g', hg', Multiset.coe_eq_coe.mpr hmembers.symm⟩
    · obtain ⟨g', hg', rfl⟩ := List.mem_map.mp hA
      obtain ⟨g, hg, hmembers⟩ := h'.exists_same hcoherent hs' h hperm.symm hg'
      exact List.mem_map.mpr ⟨g, hg, Multiset.coe_eq_coe.mpr hmembers.symm⟩
  refine hsame.eq_of_pairwise (fun A B hA hB hAB hBA => ?_) (h.ascending_rows hcoherent hs)
    (h'.ascending_rows hcoherent hs')
  obtain ⟨a, ha⟩ := h.exists_row hA
  obtain ⟨b, hb⟩ := h'.exists_row hB
  have hab := hcoherent.swap_some (hAB a ha b hb)
  cases hab.symm.trans (hBA b hb a ha)

end Arrival

-- ---------------------------------------------------------------------------
-- Pushing all rows
-- ---------------------------------------------------------------------------

variable {docs : List Document}

/-- Rows that come in another order are refused as well, or grouped in the same way. -/
theorem foldlM_push_perm {s : List Value → Prop} {docs' : List Document} (hne : fields ≠ [])
    (hcoherent : Coherent Value.compareItems s) (hs : ∀ doc ∈ docs, s (doc.values fields))
    (hpresent : ∀ doc ∈ docs, ∀ field ∈ fields, (doc.lookup field).isSome)
    (hperm : docs'.Perm docs) :
    (docs'.foldlM (push typeName fields) []).toOption.map rowSets =
      (docs.foldlM (push typeName fields) []).toOption.map rowSets := by
  have hs' : ∀ doc ∈ docs', s (doc.values fields) := fun doc hdoc => hs doc (hperm.subset hdoc)
  have hpresent' : ∀ doc ∈ docs', ∀ field ∈ fields, (doc.lookup field).isSome :=
    fun doc hdoc => hpresent doc (hperm.subset hdoc)
  have hpairs : docs'.Pairwise (Comparable fields) ↔ docs.Pairwise (Comparable fields) :=
    hperm.pairwise_iff Comparable.symm
  rcases foldlM_push hne hcoherent hs hpresent with
      ⟨hcomparable, groups, hgroups, hpartition⟩ | ⟨hnot, _, _, _, _, _, _, -, herror⟩ <;>
    rcases foldlM_push hne hcoherent hs' hpresent' with
      ⟨hcomparable', groups', hgroups', hpartition'⟩ | ⟨hnot', _, _, _, _, _, _, -, herror'⟩
  · rw [hgroups, hgroups']
    exact congrArg some (hpartition'.unique hcoherent hs' hpartition hperm)
  · exact absurd (hpairs.mpr hcomparable) hnot'
  · exact absurd (hpairs.mp hcomparable') hnot
  · rw [herror, herror']
    rfl

theorem foldlM_push_all (typeName : String) (docs : List Document) :
    docs.foldlM (push typeName []) (initial typeName []) = .ok [⟨typeName, [], docs⟩] := by
  induction docs using List.reverseRecOn with
  | nil => rfl
  | append_singleton docs doc ih =>
    rw [List.foldlM_append, ih]
    rfl

theorem Partition.sum_count {groups : List Group} (h : Partition fields docs groups) :
    (groups.map count).sum = docs.length := by
  rw [← h.rows.length_eq, List.length_flatMap]
  rfl

/-- Rows that have all the fields, with no double among the values of a field that equals two integers
there, are grouped as long as any two of them compare, and in the same way in whatever order they come. -/
theorem push_partitions (typeName : String)
    (hpresent : ∀ doc ∈ docs, ∀ field ∈ fields, (doc.lookup field).isSome)
    (hsharp : ∀ field ∈ fields, Value.Sharp (docs.map (·.lookupOrNull field))) :
    let pushed (rows : List Document) := rows.foldlM (push typeName fields) (initial typeName fields)
    (fields ≠ [] →
      ((∃ groups, pushed docs = .ok groups) ↔ docs.Pairwise (Comparable fields)) ∧
      (∀ e, pushed docs = .error e → ∃ a ∈ docs, ∃ b ∈ docs, ∃ field ∈ fields,
        e = .typeMismatch field (a.lookupOrNull field).kind (b.lookupOrNull field).kind) ∧
      (∀ groups, pushed docs = .ok groups → Partition fields docs groups ∧
        (∀ doc ∈ docs, ∃ g ∈ groups, doc ∈ g.members ∧
          ∀ other ∈ groups, doc ∈ other.members ∨ other.Owns fields doc → other = g) ∧
        (groups.map count).sum = docs.length) ∧
      ∀ docs', docs'.Perm docs →
        (pushed docs').toOption.map rowSets = (pushed docs).toOption.map rowSets) ∧
    (fields = [] → pushed docs = .ok [⟨typeName, [], docs⟩]) := by
  intro pushed
  refine ⟨fun hne => ?_, ?_⟩
  · have hcoherent := Document.values_coherent hsharp
    have hkeys : ∀ doc ∈ docs, doc.values fields ∈ docs.map (·.values fields) :=
      fun doc hdoc => List.mem_map_of_mem hdoc
    have hinitial : initial typeName fields = [] := by
      rw [initial, if_neg (by simpa using hne)]
    simp only [pushed, hinitial]
    have hperm : ∀ docs' : List Document, docs'.Perm docs →
        (docs'.foldlM (push typeName fields) []).toOption.map rowSets =
          (docs.foldlM (push typeName fields) []).toOption.map rowSets :=
      fun _ => foldlM_push_perm hne hcoherent hkeys hpresent
    rcases foldlM_push hne hcoherent hkeys hpresent with ⟨hcomparable, groups, hgroups, hpartition⟩ |
      ⟨hnot, a, ha, b, hb, field, hfield, -, herror⟩
    · refine ⟨⟨fun _ => hcomparable, fun _ => ⟨groups, hgroups⟩⟩, fun e he => ?_,
        fun groups' hgroups' => ?_, hperm⟩
      · cases hgroups.symm.trans he
      · cases hgroups.symm.trans hgroups'
        exact ⟨hpartition, fun doc hdoc => hpartition.sole_group hcoherent hkeys hdoc,
          hpartition.sum_count⟩
    · refine ⟨⟨fun ⟨groups, hgroups⟩ => ?_, fun hcomparable => absurd hcomparable hnot⟩,
        fun e he => ?_, fun groups hgroups => ?_, hperm⟩
      · cases herror.symm.trans hgroups
      · exact ⟨a, ha, b, hb, field, hfield, (Except.error.inj (herror.symm.trans he)).symm⟩
      · cases herror.symm.trans hgroups
  · rintro rfl
    exact foldlM_push_all typeName docs

/-- Bottles by their size: numbers of both widths are told apart by their values alone. -/
theorem push_partitions_bottles :
    let bottle (size : Value) : Document := ⟨[("size", size)]⟩
    let bottles := [bottle (.int32 2), bottle (.int64 1), bottle (.int64 2)]
    let pushed (rows : List Document) := rows.foldlM (push "bottle" ["size"]) (initial "bottle" ["size"])
    (∀ doc ∈ bottles, ∀ field ∈ ["size"], (doc.lookup field).isSome) ∧
      (∀ field ∈ ["size"], Value.Sharp (bottles.map (·.lookupOrNull field))) ∧
      ∃ groups, pushed bottles = .ok groups ∧ Partition ["size"] bottles groups ∧
        groups.map count = [1, 2] ∧
        (pushed bottles.reverse).toOption.map rowSets = some (rowSets groups) := by
  intro bottle bottles pushed
  have hpresent : ∀ doc ∈ bottles, ∀ field ∈ ["size"], (doc.lookup field).isSome := by decide +kernel
  have hsharp : ∀ field ∈ ["size"], Value.Sharp (bottles.map (·.lookupOrNull field)) := by
    intro field hfield
    rw [List.mem_singleton.mp hfield]
    exact Value.sharp_of_integers (by decide +kernel)
  obtain ⟨-, -, hpartition, hperm⟩ := (push_partitions "bottle" hpresent hsharp).1 (by simp)
  have hcounts : (pushed bottles).toOption.map (List.map count) = some [1, 2] := by decide +kernel
  cases hpushed : pushed bottles with
  | error e =>
    rw [hpushed] at hcounts
    cases hcounts
  | ok groups =>
    rw [hpushed] at hcounts
    refine ⟨hpresent, hsharp, groups, rfl, (hpartition groups hpushed).1, Option.some.inj hcounts, ?_⟩
    exact (hperm bottles.reverse (List.reverse_perm bottles)).trans
      (congrArg (fun result : Except Failure (List Group) => result.toOption.map rowSets) hpushed)

/-- A box in a box groups on its own, although its key is not equal to itself. -/
theorem lone_box_apart :
    let box : Document := ⟨[("inner", .document [])]⟩
    ∃ g, [box].foldlM (push "box" ["inner"]) (initial "box" ["inner"]) = .ok [g] ∧ g.members = [box] ∧
      ∀ o, compareKeys ["inner"] g.key (box.values ["inner"]) ≠ .ok o :=
  ⟨_, rfl, rfl, nofun⟩

end DocStore.Group
