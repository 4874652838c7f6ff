import DocStore.Proofs.Drains
import DocStore.Proofs.Steady

/-!
# Candidates as a list

A search echoes another one if it ends in the same way, either always or at least where that one succeeds
(`Sweeping.Echo`). To look values up or to scan is to consider the candidates of a list until there are
enough rows, and then to stop or to fail: the records that were found (`considerEach_considers`), or what
the cursor of the scan yields (`scan_considers`). Bookmarks need not be followed any further. Where the
list ends does not matter to a search that succeeds before (`considerAll_extend`).
-/

namespace DocStore

variable {α β σ : Type}

-- ---------------------------------------------------------------------------
-- Searches that echo each other
-- ---------------------------------------------------------------------------

/-- Successes always count, failures only if the echo has to be exact. -/
def Counts {ε : Type} (exact : Bool) (result : Except ε α) : Prop := exact = true ∨ ∃ a, result = .ok a

theorem counts_ok {ε : Type} (exact : Bool) (a : α) : Counts exact (.ok a : Except ε α) := .inr ⟨a, rfl⟩

theorem Counts.bind {ε : Type} {exact : Bool} {w : ExceptT ε (StateM σ) α}
    {f : α → ExceptT ε (StateM σ) β} {s : σ} (h : Counts exact ((w >>= f) s).1) :
    Counts exact (w s).1 := by
  refine h.imp_right fun ⟨b, hb⟩ => ?_
  obtain ⟨a, mid, hrun, -⟩ := run_bind_ok (Prod.ext hb rfl : (w >>= f) s = (.ok b, _))
  exact ⟨a, by rw [hrun]⟩

theorem Counts.of_map {ε : Type} {exact : Bool} {result : Except ε α} {f : α → β}
    (h : Counts exact (result.map f)) : Counts exact result := by
  refine h.imp_right fun ⟨b, hb⟩ => ?_
  cases result with
  | error e => cases hb
  | ok a => exact ⟨a, rfl⟩

/-- The second computation answers as the first one does, where that counts. -/
def Exec.Echo (exact : Bool) (w w' : Exec α) : Prop :=
  ∀ trail, Counts exact (w trail).1 → (w trail).1 = (w' trail).1

theorem Exec.Echo.bind {exact : Bool} {w w' : Exec α} {k k' : α → Exec β} (hw : w.Echo exact w')
    (hk : ∀ a, (k a).Echo exact (k' a)) (hsteady : ∀ a, Steady (k a)) :
    (w >>= k).Echo exact (w' >>= k') := by
  intro trail hcounts
  have hanswer := hw trail hcounts.bind
  rw [run_bind] at hcounts ⊢
  rw [run_bind]
  rcases hrun : w trail with ⟨result, t⟩
  rcases hrun' : w' trail with ⟨result', t'⟩
  rw [hrun, hrun'] at hanswer
  rw [hrun] at hcounts
  cases hanswer
  cases result with
  | error e => rfl
  | ok a =>
    have hmoved := (hsteady a).answer t t'
    rw [hmoved] at hcounts ⊢
    exact hk a t' hcounts

theorem Exec.Echo.after {exact : Bool} {result : Except Failure α} {k k' : α → Exec β}
    (hk : ∀ a, result = .ok a → (k a).Echo exact (k' a)) :
    (Exec.ofExcept result >>= k).Echo exact (Exec.ofExcept result >>= k') := by
  cases result with
  | error e => exact fun _ _ => rfl
  | ok a => exact hk a rfl

/-- From any state the second search answers as the first one does, where that counts, and leaves the
same behind, but for the trail. -/
def Sweeping.Echo (exact : Bool) (w w' : Sweeping σ α) : Prop :=
  ∀ s, Counts exact (w s).1 → (w s).1 = (w' s).1 ∧ (w s).2.Agree (w' s).2

namespace Sweeping.Echo

variable {exact : Bool} {w w' w'' : Sweeping σ α} {f f' : α → Sweeping σ β}

theorem refl (w : Sweeping σ α) : w.Echo exact w := fun _ _ => ⟨rfl, .refl _⟩

theorem symm (h : w.Echo true w') : w'.Echo true w := fun s _ =>
  ⟨(h s (.inl rfl)).1.symm, (h s (.inl rfl)).2.symm⟩

theorem trans (h : w.Echo exact w') (h' : w'.Echo exact w'') : w.Echo exact w'' := by
  intro s hcounts
  obtain ⟨hanswer, hlast⟩ := h s hcounts
  obtain ⟨hanswer', hlast'⟩ := h' s (hanswer ▸ hcounts)
  exact ⟨hanswer.trans hanswer', hlast.trans hlast'⟩

theorem of_exact (h : w.Echo true w') : w.Echo exact w' := fun s _ => h s (.inl rfl)

theorem ofExec {work work' : Exec α} (h : work.Echo exact work') :
    (Sweeping.ofExec work : Sweeping σ α).Echo exact (Sweeping.ofExec work') := fun s hcounts =>
  ⟨h s.trail hcounts, ⟨rfl, rfl, rfl, rfl⟩⟩

theorem after (w : Sweeping σ α) (hf : ∀ s a t, w s = (.ok a, t) → (f a).Echo exact (f' a)) :
    (w >>= f).Echo exact (w >>= f') := by
  intro s hcounts
  rw [run_bind] at hcounts ⊢
  rw [run_bind]
  rcases hrun : w s with ⟨_ | a, t⟩
  · exact ⟨rfl, .refl t⟩
  · rw [hrun] at hcounts
    exact hf s a t hrun t hcounts

theorem bind (hw : w.Echo exact w') (hf : ∀ a, (f a).Echo exact (f' a))
    (hsteady : ∀ a, (f a).Steady) : (w >>= f).Echo exact (w' >>= f') := by
  intro s hcounts
  obtain ⟨hanswer, hlast⟩ := hw s hcounts.bind
  rw [run_bind] at hcounts ⊢
  rw [run_bind]
  rcases hrun : w s with ⟨result, t⟩
  rcases hrun' : w' s with ⟨result', t'⟩
  rw [hrun, hrun'] at hanswer hlast
  rw [hrun] at hcounts
  cases hanswer
  cases result with
  | error e => exact ⟨rfl, hlast⟩
  | ok a =>
    obtain ⟨hmoved, hagree⟩ := (hsteady a).answer t t' hlast
    obtain ⟨hanswer', hagree'⟩ := hf a t' (hmoved ▸ hcounts)
    exact ⟨hmoved.trans hanswer', hagree.trans hagree'⟩

theorem guarded {w w' : Sweeping σ Unit} (h : w.Echo exact w') (limit : Option Nat) :
    (do if ← Search.isFull limit then pure () else w : Sweeping σ Unit).Echo exact
      (do if ← Search.isFull limit then pure () else w') := by
  refine .after _ fun _ full _ _ => ?_
  cases full with
  | true => exact .refl (pure ())
  | false => exact h

theorem triple (h : w.Echo true w') {s : Sweep σ} {post : α → Sweep σ → Prop} {fail : Sweep σ → Prop}
    (hw : Triple w' s post fail) (hpost : ∀ a s s', s.Agree s' → post a s' → post a s)
    (hfail : ∀ s s', s.Agree s' → fail s' → fail s) : Triple w s post fail := by
  obtain ⟨hanswer, hlast⟩ := h s (.inl rfl)
  rcases hrun : w s with ⟨result, t⟩
  rcases hrun' : w' s with ⟨result', t'⟩
  rw [hrun, hrun'] at hanswer hlast
  cases hanswer
  cases result with
  | error e => exact Triple.of_run_error hrun (hfail t t' hlast (hw.fail_of_run hrun'))
  | ok a => exact Triple.of_run hrun (hpost a t t' hlast (hw.post_of_run hrun'))

end Sweeping.Echo

namespace Search

variable {scene : Scene} {schema : Schema} {sink : Sink σ} {limit : Option Nat}

-- ---------------------------------------------------------------------------
-- Draws as a list
-- ---------------------------------------------------------------------------

section Draws

variable {q : Query Test} {p p' : Sweep σ}

def Full (limit : Option Nat) (p : Sweep σ) : Prop := limit.any (· ≤ p.emitted) = true

theorem full_run {w : Sweeping σ Unit} (h : Full limit p) :
    (do if ← isFull limit then pure () else w) p = (.ok (), p) := by
  simp only [run_bind, isFull_run, show limit.any (· ≤ p.emitted) = true from h, if_true, run_pure]

theorem not_full_run {w : Sweeping σ Unit} (h : ¬ Full limit p) :
    (do if ← isFull limit then pure () else w) p = w p := by
  have hnot : limit.any (· ≤ p.emitted) = false := Bool.eq_false_iff.mpr h
  simp only [run_bind, isFull_run, hnot, Bool.false_eq_true, if_false]

section Runs

variable {fuel : Nat} {cursor : Cursor Failure}

theorem considerDrawn_none (h : ¬ Full limit p)
    (hdraw : Sweeping.draw scene cursor p = (.ok none, p')) :
    considerDrawn scene schema sink limit q cursor (fuel + 1) p = (.ok (), p') := by
  rw [considerDrawn, not_full_run h, run_bind, hdraw]
  rfl

theorem considerDrawn_some {c : Candidate} (h : ¬ Full limit p)
    (hdraw : Sweeping.draw scene cursor p = (.ok (some c), p')) :
    considerDrawn scene schema sink limit q cursor (fuel + 1) p =
      (do
        consider scene schema sink q c
        considerDrawn scene schema sink limit q cursor fuel) p' := by
  rw [considerDrawn, not_full_run h, run_bind, hdraw]

theorem considerDrawn_error {e : Failure} (h : ¬ Full limit p)
    (hdraw : Sweeping.draw scene cursor p = (.error e, p')) :
    considerDrawn scene schema sink limit q cursor (fuel + 1) p = (.error e, p') := by
  rw [considerDrawn, not_full_run h, run_bind, hdraw]

end Runs

/-- Considers candidates one after the other as long as more rows are wanted, and then does `last`. -/
def considerAll (scene : Scene) (schema : Schema) (sink : Sink σ) (limit : Option Nat) (q : Query Test)
    (last : Sweeping σ Unit) : List Candidate → Sweeping σ Unit
  | [] => do if ← isFull limit then pure () else last
  | c :: rest => do
    if ← isFull limit then pure ()
    else
      consider scene schema sink q c
      considerAll scene schema sink limit q last rest

def halt : Option Failure → Sweeping σ Unit
  | none => pure ()
  | some e => throw e

theorem halt_steady (stop : Option Failure) : (halt stop : Sweeping σ Unit).Steady := by
  cases stop with
  | none => exact .pure ()
  | some e => exact .throw e

theorem considerAll_full {last : Sweeping σ Unit} (h : Full limit p) (left : List Candidate) :
    considerAll scene schema sink limit q last left p = (.ok (), p) := by
  cases left with
  | nil => exact full_run h
  | cons c rest => exact full_run h

theorem considerAll_cons {last : Sweeping σ Unit} (h : ¬ Full limit p) (c : Candidate)
    (rest : List Candidate) :
    considerAll scene schema sink limit q last (c :: rest) p =
      (consider scene schema sink q c >>= fun _ =>
        considerAll scene schema sink limit q last rest) p := not_full_run h

theorem considerAll_steady {last : Sweeping σ Unit} (hq : ∀ c ∈ q.clauses, c.Steady)
    (hlast : last.Steady) (left : List Candidate) :
    (considerAll scene schema sink limit q last left).Steady := by
  induction left with
  | nil =>
    refine .bind isFull_steady fun full => ?_
    cases full with
    | true => exact .pure _
    | false => exact hlast
  | cons c rest ih =>
    refine .bind isFull_steady fun full => ?_
    cases full with
    | true => exact .pure _
    | false => exact .bind (consider_steady hq c) fun _ => ih

/-- The keys that were looked up and have a record, up to one without, and the failure at that one. -/
def listing (schema : Schema) (spec : IndexSpec) :
    List (Bytes × Option Bytes) → List Candidate × Option Failure
  | [] => ([], none)
  | (_, none) :: _ =>
    ([], some (.engine (.corruptIndex schema.typeName spec.name .missingRecord)))
  | (key, some value) :: rest =>
    (⟨key, value⟩ :: (listing schema spec rest).1, (listing schema spec rest).2)

/-- To go through looked-up records is to consider those that were found. -/
theorem considerEach_considers (spec : IndexSpec) (found : List (Bytes × Option Bytes)) :
    considerEach scene schema sink limit q spec found =
      considerAll scene schema sink limit q (halt (listing schema spec found).2)
        (listing schema spec found).1 := by
  induction found with
  | nil =>
    funext p
    by_cases hfull : Full limit p
    · exact (full_run hfull).symm
    · exact (not_full_run hfull).symm
  | cons pair rest ih =>
    obtain ⟨key, value⟩ := pair
    cases value with
    | none => rfl
    | some value =>
      rw [considerEach, ih]
      rfl

theorem listing_found {spec : IndexSpec} {found : List (Bytes × Option Bytes)}
    (h : ∀ pair ∈ found, ∃ value, pair.2 = some value) :
    ∃ left, listing schema spec found = (left, none) ∧
      found = left.map fun c => (c.key, some c.value) := by
  induction found with
  | nil => exact ⟨[], rfl, rfl⟩
  | cons pair rest ih =>
    obtain ⟨key, value⟩ := pair
    obtain ⟨value, rfl⟩ := h _ List.mem_cons_self
    obtain ⟨left, hleft, rfl⟩ := ih fun pair hpair => h pair (List.mem_cons_of_mem _ hpair)
    refine ⟨⟨key, value⟩ :: left, ?_, rfl⟩
    simp only [listing, hleft]

theorem considerDrawn_considers (hq : ∀ c ∈ q.clauses, c.Steady) {cursor : Cursor Failure} {fuel : Nat}
    {left : List Candidate} {stop : Option Failure}
    (hleft : cursor.Yields scene.codec scene.view p.trail.bookmark left stop)
    (hfuel : left.length < fuel) :
    let drawn := considerDrawn scene schema sink limit q cursor fuel p
    let listed := considerAll scene schema sink limit q (halt stop) left p
    drawn.1 = listed.1 ∧ drawn.2.Agree listed.2 := by
  induction fuel generalizing p left with
  | zero => cases hfuel
  | succ fuel ih =>
    by_cases hfull : Full limit p
    · simp only [considerAll_full hfull]
      rw [considerDrawn, full_run hfull]
      exact ⟨rfl, .refl p⟩
    obtain ⟨last, reads, hnext, hlast⟩ := Cursor.next_yields hleft
    let p₁ : Sweep σ := { p with
      trail := { p.trail with bookmark := last, reads := reads.reverse ++ p.trail.reads } }
    have hdraw : Sweeping.draw scene cursor p = (Cursor.foremost left stop, p₁) := by
      simp only [Sweeping.draw, hnext, p₁]
    have hagree : p₁.Agree p := ⟨rfl, rfl, rfl, rfl⟩
    cases left with
    | nil =>
      have hhalt : considerAll scene schema sink limit q (halt stop) [] p = halt stop p :=
        not_full_run hfull
      cases stop with
      | none =>
        rw [considerDrawn_none hfull hdraw, hhalt]
        exact ⟨rfl, hagree⟩
      | some e =>
        rw [considerDrawn_error hfull hdraw, hhalt]
        exact ⟨rfl, hagree⟩
    | cons c rest =>
      have hconsider : (consider scene schema sink q c).Steady := consider_steady hq c
      have hrest : (considerAll scene schema sink limit q (halt stop) rest).Steady :=
        considerAll_steady hq (halt_steady stop) rest
      obtain ⟨hanswer, hagree'⟩ := hconsider.answer p₁ p hagree
      have hplace := hconsider.bookmark p₁
      rw [considerDrawn_some hfull hdraw, considerAll_cons hfull, run_bind, run_bind]
      rcases hrun : consider scene schema sink q c p₁ with ⟨result, s⟩
      rcases hrun' : consider scene schema sink q c p with ⟨result', s'⟩
      rw [hrun, hrun'] at hanswer hagree'
      rw [hrun] at hplace
      cases hanswer
      cases result with
      | error e => exact ⟨rfl, hagree'⟩
      | ok _ =>
        -- The test has put the bookmark back where the draw left it.
        have hyields : cursor.Yields scene.codec scene.view s.trail.bookmark rest stop := by
          rw [show s.trail.bookmark = last from hplace]
          exact hlast
        obtain ⟨hdrawn, hafter⟩ := ih hyields (Nat.lt_of_succ_lt_succ hfuel)
        obtain ⟨hmoved, hmovedAfter⟩ := hrest.answer s s' hagree'
        exact ⟨hdrawn.trans hmoved, hafter.trans hmovedAfter⟩

theorem scan_considers (hq : ∀ c ∈ q.clauses, c.Steady) {source : Source}
    {filter : Option (Value → Except Failure Bool)} {left : List Candidate} {stop : Option Failure}
    (hleft : Cursor.Yields scene.codec scene.view ⟨source, scene.batchSize, filter, .ofEngine⟩ .start
      left stop) :
    (scan scene schema sink limit q source filter).Echo true
      (considerAll scene schema sink limit q (halt stop) left) := by
  intro s _
  let fresh : Sweep σ := { s with trail := { s.trail with bookmark := .start } }
  let cursor : Cursor Failure := ⟨source, scene.batchSize, filter, .ofEngine⟩
  let drawn := considerDrawn scene schema sink limit q cursor (scene.view.candidateBound + 1) fresh
  let listed := considerAll scene schema sink limit q (halt stop) left fresh
  obtain ⟨hdrawn, hagree⟩ : drawn.1 = listed.1 ∧ drawn.2.Agree listed.2 :=
    considerDrawn_considers hq hleft (Nat.lt_succ_of_le hleft.length_le)
  obtain ⟨hmoved, hmovedAfter⟩ :=
    (considerAll_steady hq (halt_steady stop) left).answer fresh s ⟨rfl, rfl, rfl, rfl⟩
  have hlast := hagree.trans hmovedAfter
  exact ⟨hdrawn.trans hmoved, hlast.seen, hlast.skip, hlast.emitted, hlast.acc⟩

/-- A list that ends in a failure succeeds only if the search has had enough before, so that it need not
know what is at the end. -/
theorem considerAll_extend {e : Failure} {last : Sweeping σ Unit} (left more : List Candidate) :
    (considerAll scene schema sink limit q (halt (some e)) left).Echo false
      (considerAll scene schema sink limit q last (left ++ more)) := by
  intro s hcounts
  induction left generalizing s with
  | nil =>
    by_cases hfull : Full limit s
    · rw [considerAll_full hfull, considerAll_full hfull]
      exact ⟨rfl, .refl s⟩
    · have hthrow : considerAll scene schema sink limit q (halt (some e)) [] s = (.error e, s) :=
        not_full_run hfull
      rw [hthrow] at hcounts
      obtain ⟨_, hok⟩ := hcounts.resolve_left Bool.false_ne_true
      cases hok
  | cons c rest ih =>
    by_cases hfull : Full limit s
    · rw [considerAll_full hfull, considerAll_full hfull]
      exact ⟨rfl, .refl s⟩
    · rw [considerAll_cons hfull, run_bind] at hcounts
      rw [considerAll_cons hfull, List.cons_append, considerAll_cons hfull, run_bind, run_bind]
      rcases hrun : consider scene schema sink q c s with ⟨_ | _, t⟩
      · exact ⟨rfl, .refl t⟩
      · rw [hrun] at hcounts
        exact ih t hcounts

theorem considerAll_unlimited {e : Failure} (left : List Candidate) (s : Sweep σ) :
    ¬ Counts false (considerAll scene schema sink none q (halt (some e)) left s).1 := by
  have hall (s : Sweep σ) : ¬ Full none s := nofun
  induction left generalizing s with
  | nil =>
    have hthrow : considerAll scene schema sink none q (halt (some e)) [] s = (.error e, s) :=
      not_full_run (hall s)
    rw [hthrow]
    rintro (hfalse | ⟨_, hok⟩)
    · cases hfalse
    · cases hok
  | cons c rest ih =>
    intro hcounts
    rw [considerAll_cons (hall s), run_bind] at hcounts
    rcases hrun : consider scene schema sink q c s with ⟨_ | _, t⟩
    · rw [hrun] at hcounts
      obtain ⟨_, hok⟩ := hcounts.resolve_left Bool.false_ne_true
      cases hok
    · rw [hrun] at hcounts
      exact ih t hcounts

end Draws

end Search

end DocStore
