import DocStore.Proofs.ValueOrder
import Mathlib.Data.List.Perm.Subperm

/-!
# Values that are the same

Queries take two values for the same if they compare as equal or, where they cannot be compared, if
they are structurally equal. As long as no double occurs in them, comparing is a partial order up to
equality, and being the same is an equivalence (`Value.compare_consistent`). Structural equality looks
fields up by their names, so this is about values in which no document repeats a name. Documents that
are built by insertions never do.
-/

namespace DocStore

-- ---------------------------------------------------------------------------
-- Fields
-- ---------------------------------------------------------------------------

namespace Fields

variable {fields : Fields} {name : String} {v : Value}

def names (fields : Fields) : List String := fields.map Prod.fst

theorem mem_of_get? (h : fields.get? name = some v) : (name, v) ∈ fields := by
  induction fields with
  | nil => cases h
  | cons head rest ih =>
    simp only [get?] at h
    split at h
    · rename_i hname
      cases h
      rw [← hname]
      exact List.mem_cons_self
    · exact List.mem_cons_of_mem _ (ih h)

theorem get?_of_mem (hnames : fields.names.Nodup) (h : (name, v) ∈ fields) :
    fields.get? name = some v := by
  induction fields with
  | nil => cases h
  | cons head rest ih =>
    obtain ⟨hhead, hrest⟩ := List.nodup_cons.mp hnames
    rcases List.mem_cons.mp h with rfl | hmem
    · simp [get?]
    · have hne : head.1 ≠ name := fun heq => hhead (heq ▸ List.mem_map_of_mem hmem)
      rw [get?, if_neg hne]
      exact ih hrest hmem

theorem mem_names_insert {other : String} :
    other ∈ (insert name v fields).names ↔ other = name ∨ other ∈ fields.names := by
  induction fields with
  | nil => simp [insert, names]
  | cons head rest ih =>
    simp only [names] at ih ⊢
    simp only [insert]
    split
    · rename_i hname
      simp [hname]
    · simp only [List.map_cons, List.mem_cons, ih]
      tauto

theorem nodup_names_insert (h : fields.names.Nodup) : (insert name v fields).names.Nodup := by
  induction fields with
  | nil => exact List.pairwise_singleton _ name
  | cons head rest ih =>
    obtain ⟨hhead, hrest⟩ := List.nodup_cons.mp h
    simp only [insert]
    split
    · rename_i hname
      subst hname
      exact h
    · rename_i hname
      refine List.nodup_cons.mpr ⟨fun hmem => ?_, ih hrest⟩
      rcases mem_names_insert.mp hmem with heq | hold
      · exact hname heq
      · exact hhead hold

theorem nodup_names_insertAll {pairs : List (String × Value)} (h : fields.names.Nodup) :
    (insertAll pairs fields).names.Nodup := by
  induction pairs generalizing fields with
  | nil => exact h
  | cons head rest ih => exact ih (nodup_names_insert h)

end Fields

namespace Value

-- ---------------------------------------------------------------------------
-- Parts
-- ---------------------------------------------------------------------------

def parts : Value → List Value
  | .array items => items
  | .document fields | .scopedCode _ fields => fields.map Prod.snd
  | _ => []

def fieldNames : Value → List String
  | .document fields | .scopedCode _ fields => Fields.names fields
  | _ => []

/-- The first value is the second one or occurs in it, at any depth. -/
inductive Inside : Value → Value → Prop
  | self (v : Value) : Inside v v
  | part {v part whole : Value} (hpart : part ∈ whole.parts) (h : Inside v part) : Inside v whole

def Doubleless (v : Value) : Prop := ∀ x, ¬ Inside (.double x) v

/-- No document in the value repeats a name, and no scope of code does. -/
def Unrepeated (v : Value) : Prop := ∀ w, Inside w v → w.fieldNames.Nodup

variable {a b c v w : Value}

theorem Doubleless.of_mem_parts (h : v.Doubleless) (hw : w ∈ v.parts) : w.Doubleless :=
  fun x hx => h x (.part hw hx)

theorem Unrepeated.of_mem_parts (h : v.Unrepeated) (hw : w ∈ v.parts) : w.Unrepeated :=
  fun u hu => h u (.part hw hu)

theorem doubleless_iff :
    v.Doubleless ↔ (∀ x, v ≠ .double x) ∧ ∀ part ∈ v.parts, part.Doubleless := by
  refine ⟨fun h => ⟨fun x hv => h x (hv ▸ .self _), fun w => h.of_mem_parts⟩, ?_⟩
  rintro ⟨hself, hparts⟩ x (_ | ⟨hpart, hinside⟩)
  · exact hself x rfl
  · exact hparts _ hpart x hinside

theorem unrepeated_iff :
    v.Unrepeated ↔ v.fieldNames.Nodup ∧ ∀ part ∈ v.parts, part.Unrepeated := by
  refine ⟨fun h => ⟨h v (.self v), fun w => h.of_mem_parts⟩, ?_⟩
  rintro ⟨hself, hparts⟩ w (_ | ⟨hpart, hinside⟩)
  · exact hself
  · exact hparts _ hpart w hinside

theorem unrepeated_ofPairs {pairs : List (String × Value)}
    (h : ∀ v ∈ (Fields.ofPairs pairs).map Prod.snd, v.Unrepeated) :
    (document (Fields.ofPairs pairs)).Unrepeated :=
  unrepeated_iff.mpr ⟨Fields.nodup_names_insertAll .nil, h⟩

theorem sizeOf_lt_of_mem_parts (hw : w ∈ v.parts) : sizeOf w < sizeOf v := by
  have hfields {fields : Fields} (h : w ∈ fields.map Prod.snd) : sizeOf w < sizeOf fields := by
    obtain ⟨⟨name, value⟩, hmem, rfl⟩ := List.mem_map.mp h
    have hlt := List.sizeOf_lt_of_mem hmem
    rw [Prod.mk.sizeOf_spec] at hlt
    dsimp only
    omega
  cases v with
  | array items =>
    have hlt : sizeOf w < sizeOf items := List.sizeOf_lt_of_mem hw
    rw [Value.array.sizeOf_spec]
    omega
  | document fields =>
    have hlt := hfields hw
    rw [Value.document.sizeOf_spec]
    omega
  | scopedCode source scope =>
    have hlt := hfields hw
    rw [Value.scopedCode.sizeOf_spec]
    omega
  | _ => cases hw

/-- What goes over from the parts of a value to the value holds of every value. -/
theorem of_parts {motive : Value → Prop} (h : ∀ v, (∀ part ∈ v.parts, motive part) → motive v)
    (v : Value) : motive v :=
  h v fun part _ => of_parts h part
termination_by sizeOf v
decreasing_by exact sizeOf_lt_of_mem_parts ‹_›

-- ---------------------------------------------------------------------------
-- Structural equality
-- ---------------------------------------------------------------------------

theorem eqvItems_iff {as bs : List Value} :
    eqvItems as bs = true ↔ List.Forall₂ (fun a b => a.eqv b = true) as bs := by
  induction as generalizing bs with
  | nil => cases bs <;> simp [eqvItems]
  | cons a as ih => cases bs <;> simp [eqvItems, ih]

theorem eqvFields_iff {fields other : Fields} :
    eqvFields fields other = true ↔
      ∀ field ∈ fields, ∃ v, other.get? field.1 = some v ∧ field.2.eqv v = true := by
  induction fields with
  | nil => simp [eqvFields]
  | cons head rest ih =>
    obtain ⟨name, v⟩ := head
    rw [List.forall_mem_cons, ← ih]
    simp only [eqvFields]
    cases other.get? name <;> simp

/-- How values come to be structurally equal. -/
inductive Corresponds : Value → Value → Prop
  | self (v : Value) : Corresponds v v
  | doubles {x y : Double} (h : x.eqv y = true) : Corresponds (.double x) (.double y)
  | arrays {as bs : List Value} (h : eqvItems as bs = true) : Corresponds (.array as) (.array bs)
  | documents {fields other : Fields} (hlength : fields.length = other.length)
    (h : eqvFields fields other = true) : Corresponds (.document fields) (.document other)
  | scopes (source : String) {scope other : Fields} (hlength : scope.length = other.length)
    (h : eqvFields scope other = true) :
    Corresponds (.scopedCode source scope) (.scopedCode source other)

theorem corresponds_of_eqv (h : a.eqv b = true) : Corresponds a b := by
  cases a with
  | double x =>
    cases b with
    | double y => exact .doubles h
    | _ => cases h
  | array as =>
    cases b with
    | array bs => exact .arrays h
    | _ => cases h
  | document fields =>
    cases b with
    | document other =>
      simp only [eqv, Bool.and_eq_true, beq_iff_eq] at h
      exact .documents h.1 h.2
    | _ => cases h
  | scopedCode source scope =>
    cases b with
    | scopedCode source' other =>
      simp only [eqv, Bool.and_eq_true, beq_iff_eq] at h
      obtain ⟨⟨rfl, hlength⟩, h⟩ := h
      exact .scopes _ hlength h
    | _ => cases h
  | _ => cases b <;> simp_all [eqv, Corresponds.self]

theorem eqv_refl (v : Value) (hdouble : v.Doubleless) (hnames : v.Unrepeated) : v.eqv v = true := by
  induction v using of_parts with
  | _ v ih =>
    have hparts : ∀ w ∈ v.parts, w.eqv w = true := fun w hw =>
      ih w hw (hdouble.of_mem_parts hw) (hnames.of_mem_parts hw)
    have hfields {fields : Fields} (hnodup : fields.names.Nodup)
        (heqv : ∀ w ∈ fields.map Prod.snd, w.eqv w = true) : eqvFields fields fields = true := by
      refine eqvFields_iff.mpr fun field hfield => ⟨field.2, Fields.get?_of_mem hnodup hfield, ?_⟩
      exact heqv _ (List.mem_map_of_mem hfield)
    cases v with
    | double x => exact absurd (.self _) (hdouble x)
    | array items => exact eqvItems_iff.mpr (List.forall₂_same.mpr hparts)
    | document fields => simp [eqv, hfields (hnames _ (.self _)) hparts]
    | scopedCode source scope => simp [eqv, hfields (hnames _ (.self _)) hparts]
    | _ => simp [eqv]

theorem eqvItems_symm {as bs : List Value}
    (hback : ∀ v ∈ as, ∀ w ∈ bs, v.eqv w = true → w.eqv v = true) (h : eqvItems as bs = true) :
    eqvItems bs as = true := by
  rw [eqvItems_iff] at h ⊢
  induction h with
  | nil => exact .nil
  | cons hhead htail ih =>
    refine .cons (hback _ List.mem_cons_self _ List.mem_cons_self hhead) (ih fun v hv w hw => ?_)
    exact hback v (List.mem_cons_of_mem _ hv) w (List.mem_cons_of_mem _ hw)

theorem eqvItems_trans {as bs cs : List Value}
    (hon : ∀ v ∈ as, ∀ w u, v.eqv w = true → w.eqv u = true → v.eqv u = true)
    (h : eqvItems as bs = true) (h' : eqvItems bs cs = true) : eqvItems as cs = true := by
  rw [eqvItems_iff] at h h' ⊢
  induction h generalizing cs with
  | nil => exact h'
  | cons hhead htail ih =>
    cases h' with
    | cons hhead' htail' =>
      refine .cons (hon _ List.mem_cons_self _ _ hhead hhead') (ih (fun v hv => ?_) htail')
      exact hon v (List.mem_cons_of_mem _ hv)

theorem eqvFields_symm {fields other : Fields} (hlength : fields.length = other.length)
    (hnames : fields.names.Nodup) (hnames' : other.names.Nodup)
    (hback : ∀ v ∈ fields.map Prod.snd, ∀ w ∈ other.map Prod.snd, v.eqv w = true → w.eqv v = true)
    (h : eqvFields fields other = true) : eqvFields other fields = true := by
  rw [eqvFields_iff] at h ⊢
  have hsub : fields.names ⊆ other.names := by
    intro name hname
    obtain ⟨field, hfield, rfl⟩ := List.mem_map.mp hname
    obtain ⟨v, hv, -⟩ := h field hfield
    exact List.mem_map.mpr ⟨_, Fields.mem_of_get? hv, rfl⟩
  -- There are as many names on either side, so none on the right is left over.
  have hperm : fields.names.Perm other.names :=
    (List.subperm_of_subset hnames hsub).perm_of_length_le (by simp [Fields.names, hlength])
  intro field hfield
  obtain ⟨partner, hpartner, hname⟩ := List.mem_map.mp (hperm.mem_iff.mpr (List.mem_map_of_mem hfield))
  obtain ⟨v, hv, heqv⟩ := h partner hpartner
  have hsame : v = field.2 := by
    rw [hname, Fields.get?_of_mem hnames' hfield] at hv
    exact (Option.some.inj hv).symm
  subst hsame
  refine ⟨partner.2, ?_, hback _ (List.mem_map_of_mem hpartner) _ (List.mem_map_of_mem hfield) heqv⟩
  rw [← hname]
  exact Fields.get?_of_mem hnames hpartner

theorem eqvFields_trans {fields other last : Fields}
    (hon : ∀ v ∈ fields.map Prod.snd, ∀ w u, v.eqv w = true → w.eqv u = true → v.eqv u = true)
    (h : eqvFields fields other = true) (h' : eqvFields other last = true) :
    eqvFields fields last = true := by
  rw [eqvFields_iff] at h h' ⊢
  intro field hfield
  obtain ⟨v, hv, hfirst⟩ := h field hfield
  obtain ⟨w, hw, hsecond⟩ := h' _ (Fields.mem_of_get? hv)
  exact ⟨w, hw, hon _ (List.mem_map_of_mem hfield) v w hfirst hsecond⟩

theorem eqv_symm (hab : a.eqv b = true) (ha : a.Unrepeated) (hb : b.Unrepeated) : b.eqv a = true := by
  induction a using of_parts generalizing b with
  | _ a ih =>
    have hback : ∀ v ∈ a.parts, ∀ w ∈ b.parts, v.eqv w = true → w.eqv v = true :=
      fun v hv w hw heqv => ih v hv heqv (ha.of_mem_parts hv) (hb.of_mem_parts hw)
    have hnames := ha _ (.self _)
    have hnames' := hb _ (.self _)
    cases corresponds_of_eqv hab with
    | self => exact hab
    | doubles h =>
      simp only [eqv, Double.eqv, Bool.and_eq_true, beq_iff_eq] at h ⊢
      exact ⟨⟨h.1.2, h.1.1⟩, h.2.symm⟩
    | arrays h => exact eqvItems_symm hback h
    | documents hlength h => simp [eqv, hlength, eqvFields_symm hlength hnames hnames' hback h]
    | scopes source hlength h => simp [eqv, hlength, eqvFields_symm hlength hnames hnames' hback h]

theorem eqv_trans (hab : a.eqv b = true) (hbc : b.eqv c = true) : a.eqv c = true := by
  induction a using of_parts generalizing b c with
  | _ a ih =>
    have hon : ∀ v ∈ a.parts, ∀ w u, v.eqv w = true → w.eqv u = true → v.eqv u = true :=
      fun v hv w u hvw hwu => ih v hv hvw hwu
    cases corresponds_of_eqv hab with
    | self => exact hbc
    | doubles h =>
      cases c with
      | double z =>
        simp only [eqv, Double.eqv, Bool.and_eq_true, beq_iff_eq] at h hbc ⊢
        exact ⟨⟨h.1.1, hbc.1.2⟩, h.2.trans hbc.2⟩
      | _ => cases hbc
    | arrays h =>
      cases c with
      | array cs => exact eqvItems_trans hon h hbc
      | _ => cases hbc
    | documents hlength h =>
      cases c with
      | document last =>
        simp only [eqv, Bool.and_eq_true, beq_iff_eq] at hbc ⊢
        exact ⟨hlength.trans hbc.1, eqvFields_trans hon h hbc.2⟩
      | _ => cases hbc
    | scopes source hlength h =>
      cases c with
      | scopedCode source' last =>
        simp only [eqv, Bool.and_eq_true, beq_iff_eq] at hbc ⊢
        exact ⟨⟨hbc.1.1, hlength.trans hbc.1.2⟩, eqvFields_trans hon h hbc.2⟩
      | _ => cases hbc

theorem compareItems_of_eqv {as bs : List Value}
    (halike : ∀ v ∈ as, ∀ w u, v.eqv w = true → v.compare u = w.compare u)
    (h : eqvItems as bs = true) (cs : List Value) : compareItems as cs = compareItems bs cs := by
  rw [eqvItems_iff] at h
  induction h generalizing cs with
  | nil => rfl
  | cons hhead htail ih =>
    cases cs with
    | nil => rfl
    | cons c cs =>
      have hrest := ih (fun v hv => halike v (List.mem_cons_of_mem _ hv)) cs
      simp only [compareItems, halike _ List.mem_cons_self _ c hhead, hrest]

theorem compareNumbers_of_eqv {x y : Double} (h : x.eqv y = true) (c : Value) :
    (Value.double x).compareNumbers c = (Value.double y).compareNumbers c := by
  have hrank : x.rank = y.rank := by
    simp only [Double.eqv, Bool.and_eq_true, Bool.not_eq_true', beq_iff_eq] at h
    rw [Double.rank, Double.rank, if_neg (by simp [h]), if_neg (by simp [h]), h.2]
  have hcompare : Number.compare (.double x) = Number.compare (.double y) := by
    funext n
    cases n <;> simp only [Number.compare, compareOn, Number.rank, hrank]
  rw [compareNumbers_eq, compareNumbers_eq]
  change c.number?.map (Number.compare (.double x)) = c.number?.map (Number.compare (.double y))
  rw [hcompare]

theorem compare_of_eqv (h : a.eqv b = true) (c : Value) : a.compare c = b.compare c := by
  induction a using of_parts generalizing b c with
  | _ a ih =>
    have halike : ∀ v ∈ a.parts, ∀ w u, v.eqv w = true → v.compare u = w.compare u :=
      fun v hv w u hvw => ih v hv hvw u
    cases corresponds_of_eqv h with
    | self => rfl
    | doubles h =>
      have hnumbers := compareNumbers_of_eqv h c
      cases c <;> exact hnumbers
    | arrays h =>
      cases c with
      | array cs => exact compareItems_of_eqv halike h cs
      | _ => rfl
    | documents => cases c <;> rfl
    | scopes => cases c <;> rfl

-- ---------------------------------------------------------------------------
-- Without doubles
-- ---------------------------------------------------------------------------

theorem Doubleless.integers (h : v.Doubleless) : ∀ n ∈ v.numbers, n.isInteger = true := by
  induction v using of_parts with
  | _ v ih =>
    cases v with
    | array items =>
      intro n hn
      obtain ⟨w, hw, hn⟩ := mem_numbersIn.mp hn
      exact ih w hw (h.of_mem_parts hw) n hn
    | double x => exact absurd (.self _) (h x)
    | int32 | int64 =>
      intro n hn
      rw [List.mem_singleton.mp hn]
      rfl
    | _ => exact nofun

/-- Values without doubles compare coherently, as no double can equal two integers. -/
theorem doubleless_coherent : Coherent compare Doubleless :=
  (compare_coherent (s := fun n => n.isInteger = true) nofun).mono fun _ h => h.integers

theorem same_of_compare {o : Ordering} (h : a.compare b = some o) : a.same b = (o == .eq) := by
  rw [same, h]

theorem same_of_none (h : a.compare b = none) : a.same b = a.eqv b := by
  rw [same, h]

theorem compare_self {o : Ordering} (h : v.compare v = some o) : o = .eq := by
  have hswap := compare_swap v v
  rw [h, Option.map_some, Option.some.injEq] at hswap
  cases o with
  | eq => rfl
  | lt | gt => cases hswap

theorem same_refl (hdouble : v.Doubleless) (hnames : v.Unrepeated) : v.same v = true := by
  cases h : v.compare v with
  | some o => rw [same_of_compare h, compare_self h, beq_self_eq_true]
  | none => rw [same_of_none h, eqv_refl v hdouble hnames]

theorem same_symm (h : a.same b = true) (ha : a.Unrepeated) (hb : b.Unrepeated) :
    b.same a = true := by
  cases hab : a.compare b with
  | some o =>
    rw [same_of_compare hab, beq_iff_eq] at h
    subst h
    have hba : b.compare a = some .eq := by rw [compare_swap a b, hab]; rfl
    rw [same_of_compare hba, beq_self_eq_true]
  | none =>
    have hba : b.compare a = none := by rw [compare_swap a b, hab]; rfl
    rw [same_of_none hab] at h
    rw [same_of_none hba, eqv_symm h ha hb]

theorem same_trans (ha : a.Doubleless) (hb : b.Doubleless) (hc : c.Doubleless)
    (hab : a.same b = true) (hbc : b.same c = true) : a.same c = true := by
  cases hab' : a.compare b with
  | some o =>
    rw [same_of_compare hab', beq_iff_eq] at hab
    subst hab
    have hexchange := doubleless_coherent.congr ha hb hc hab'
    cases hbc' : b.compare c with
    | some o => rwa [same_of_compare (hexchange.trans hbc'), ← same_of_compare hbc']
    | none =>
      -- What compares as equal to something compares as equal to itself, and so to its likes.
      rw [same_of_none hbc'] at hbc
      have hbb : b.compare b = some .eq := (doubleless_coherent.congr ha hb hb hab').symm.trans hab'
      rw [compare_of_eqv hbc, compare_swap b c, hbc'] at hbb
      cases hbb
  | none =>
    rw [same_of_none hab'] at hab
    have hexchange := compare_of_eqv hab c
    cases hbc' : b.compare c with
    | some o => rwa [same_of_compare (hexchange.trans hbc'), ← same_of_compare hbc']
    | none =>
      rw [same_of_none hbc'] at hbc
      rw [same_of_none (hexchange.trans hbc'), eqv_trans hab hbc]

/-- Values turned round compare the other way round. Among values without doubles two steps of which
neither goes down compare as far as the greater one, equal values compare alike with all others, and
to be the same is an equivalence. -/
theorem compare_consistent :
    (∀ a b : Value, b.compare a = (a.compare b).map Ordering.swap) ∧
      (∀ a b c : Value, a.Doubleless → b.Doubleless → c.Doubleless →
        (∀ o o', a.compare b = some o → b.compare c = some o' → o.isLE → o'.isLE →
          a.compare c = some (o.then o')) ∧
        (a.compare b = some .eq → a.compare c = b.compare c)) ∧
      Equivalence fun a b : {v : Value // v.Doubleless ∧ v.Unrepeated} => a.val.same b.val = true := by
  refine ⟨compare_swap, fun a b c ha hb hc => ⟨doubleless_coherent.transits a b c ha hb hc,
    doubleless_coherent.congr ha hb hc⟩, ⟨?_, ?_, ?_⟩⟩
  · exact fun v => same_refl v.2.1 v.2.2
  · exact fun {a b} h => same_symm h a.2.2 b.2.2
  · exact fun {a b c} hab hbc => same_trans a.2.1 b.2.1 c.2.1 hab hbc

/-- Fives of either width compare as equal, also in front of bytes that are told apart by their
subtypes alone, and fields in either order make the same document. -/
theorem compare_consistent_mixed :
    let fields := Fields.ofPairs [("n", .int32 1), ("m", .null)]
    let turned := Fields.ofPairs [("m", .null), ("n", .int32 1)]
    let a := array [.int32 5, .binary 0 [1]]
    let b := array [.int64 5, .binary 1 [1]]
    let c := array [.int64 7, .document fields]
    a.compare b = some .eq ∧ a.compare c = b.compare c ∧ a.compare c = some .lt ∧
      (document turned).same (document fields) = true := by
  intro fields turned a b c
  have hpair {P : Value → Prop} {p q : Value} (hp : P p) (hq : P q) : ∀ v ∈ [p, q], P v :=
    List.forall_mem_cons.mpr ⟨hp, List.forall_mem_singleton.mpr hq⟩
  have hleaf {v : Value} (hv : v.parts = []) (hne : ∀ x, v ≠ .double x) : v.Doubleless :=
    doubleless_iff.mpr ⟨hne, by simp [hv]⟩
  have hone : (int32 1).Doubleless ∧ (int32 1).Unrepeated :=
    ⟨hleaf rfl nofun, unrepeated_iff.mpr ⟨.nil, nofun⟩⟩
  have hnull : null.Doubleless ∧ null.Unrepeated :=
    ⟨hleaf rfl nofun, unrepeated_iff.mpr ⟨.nil, nofun⟩⟩
  have hfields : (document fields).Doubleless :=
    doubleless_iff.mpr ⟨nofun, hpair hone.1 hnull.1⟩
  have hturned : (document turned).Doubleless :=
    doubleless_iff.mpr ⟨nofun, hpair hnull.1 hone.1⟩
  have ha : a.Doubleless :=
    doubleless_iff.mpr ⟨nofun, hpair (hleaf rfl nofun) (hleaf rfl nofun)⟩
  have hb : b.Doubleless :=
    doubleless_iff.mpr ⟨nofun, hpair (hleaf rfl nofun) (hleaf rfl nofun)⟩
  have hc : c.Doubleless := doubleless_iff.mpr ⟨nofun, hpair (hleaf rfl nofun) hfields⟩
  have heq : a.compare b = some .eq := by decide +kernel
  have hlt : b.compare c = some .lt := by decide +kernel
  have hsame : (document fields).same (document turned) = true := by decide +kernel
  obtain ⟨-, hamong, hequivalence⟩ := compare_consistent
  obtain ⟨htransits, hcongr⟩ := hamong a b c ha hb hc
  exact ⟨heq, hcongr heq, htransits .eq .lt heq hlt rfl rfl,
    hequivalence.symm (x := ⟨_, hfields, unrepeated_ofPairs (hpair hone.2 hnull.2)⟩)
      (y := ⟨_, hturned, unrepeated_ofPairs (hpair hnull.2 hone.2)⟩) hsame⟩

end Value

end DocStore
