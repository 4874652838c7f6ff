import DocStore.Proofs.AccessPaths
import DocStore.Proofs.QueryTrees
import DocStore.Proofs.Settling

/-!
# Paging

A search that skips rows and stops early hands on a stretch of the rows that it finds without doing
so. The search that collects all of them tells which rows there are, and a paged search over the same
view `Follows` them: it ends as if they had been offered to it one by one. Early exits at any point of
it are then rows that are offered in vain (`offer_run`). `walk_paged` is the law for searches, whether
they sort or not, and `find_paged` for what callers can do with a query.
-/

namespace DocStore

variable {α σ : Type}

/-- What is left of a list after `skip` items, up to `limit` of them if there is one. -/
def stretch (skip : Nat) (limit : Option Nat) (items : List α) : List α :=
  match limit with
  | some limit => (items.drop skip).take limit
  | none => items.drop skip

theorem stretch_nil (skip : Nat) (limit : Option Nat) : stretch skip limit ([] : List α) = [] := by
  cases limit <;> simp [stretch]

theorem stretch_zero (skip : Nat) (items : List α) : stretch skip (some 0) items = [] := by
  simp [stretch]

theorem stretch_succ (skip : Nat) (limit : Option Nat) (item : α) (items : List α) :
    stretch (skip + 1) limit (item :: items) = stretch skip limit items := by
  cases limit <;> rfl

theorem map_stretch {β : Type} (f : α → β) (skip : Nat) (limit : Option Nat) (items : List α) :
    (stretch skip limit items).map f = stretch skip limit (items.map f) := by
  cases limit <;> simp [stretch, List.map_drop, List.map_take]

def Query.paged {π : Type} (q : Query π) (skip limit : Option Nat) : Query π := { q with skip, limit }

namespace Search

variable {scene : Scene} {schema : Schema} {sink : Sink σ} {limit : Option Nat} {q : Query Test}
  {rows more : List Row} {p p' : Sweep σ} {s s' s'' : Sweep (List Row)}

-- ---------------------------------------------------------------------------
-- Offering rows
-- ---------------------------------------------------------------------------

def offer (sink : Sink σ) (limit : Option Nat) : List Row → Sweeping σ Unit
  | [] => pure ()
  | row :: rest => do
    if ← isFull limit then pure ()
    else
      accept sink row
      offer sink limit rest

theorem offer_full (h : Full limit p) : offer sink limit rows p = (.ok (), p) := by
  cases rows with
  | nil => rfl
  | cons row rest => exact full_run h

theorem offer_singleton {row : Row} (h : ¬ Full limit p) :
    offer sink limit [row] p = accept sink row p := by
  have hrun : offer sink limit [row] p = (accept sink row >>= fun _ => pure ()) p := not_full_run h
  rw [hrun, run_bind]
  rcases accept sink row p with ⟨_ | _, _⟩ <;> rfl

theorem offer_append (rows more : List Row) (p : Sweep σ) :
    offer sink limit (rows ++ more) p = (offer sink limit rows >>= fun _ => offer sink limit more) p := by
  induction rows generalizing p with
  | nil => rfl
  | cons row rest ih =>
    by_cases hfull : Full limit p
    · simp only [run_bind, offer_full hfull]
    · have hrun (rows : List Row) : offer sink limit (row :: rows) p =
          (accept sink row >>= fun _ => offer sink limit rows) p := not_full_run hfull
      rw [List.cons_append, hrun, run_bind, run_bind, hrun, run_bind]
      rcases accept sink row p with ⟨_ | _, p'⟩
      · rfl
      · exact (ih p').trans (run_bind _ _ _)

theorem offer_steady (rows : List Row) : (offer sink limit rows).Steady := by
  induction rows with
  | nil => exact .pure _
  | cons row rest ih =>
    refine .bind isFull_steady fun full => ?_
    cases full with
    | true => exact .pure _
    | false => exact .bind (accept_steady row) fun _ => ih

/-- Unless it has had enough, the search has counted all rows that it was offered. -/
theorem offer_seen (h : offer sink limit rows p = (.ok (), p')) :
    Full limit p' ∨ p'.seen = (rows.map Row.key).reverse ++ p.seen := by
  induction rows generalizing p with
  | nil =>
    cases h
    exact .inr rfl
  | cons row rest ih =>
    by_cases hfull : Full limit p
    · rw [offer_full hfull] at h
      cases h
      exact .inl hfull
    · have hrun : offer sink limit (row :: rest) p =
          (accept sink row >>= fun _ => offer sink limit rest) p := not_full_run hfull
      have hseen : (accept sink row p).2.seen = row.key :: p.seen := by
        rw [accept_run]
        split <;> rfl
      rw [hrun, run_bind] at h
      rcases haccept : accept sink row p with ⟨_ | _, last⟩
      · rw [haccept] at h
        cases h
      · rw [haccept] at h hseen
        refine (ih h).imp_right fun hlast => ?_
        rw [hlast, hseen]
        simp

theorem offer_run (rows : List Row) (p : Sweep σ) :
    ((offer sink limit rows p).1, (offer sink limit rows p).2.acc) =
      feed sink (stretch p.skip (limit.map (· - p.emitted)) rows) p.acc := by
  induction rows generalizing p with
  | nil =>
    rw [stretch_nil]
    rfl
  | cons row rest ih =>
    by_cases hfull : Full limit p
    · rw [offer_full hfull]
      cases limit with
      | none => cases hfull
      | some limit =>
        have hnone : limit - p.emitted = 0 := by simpa [Full, Nat.sub_eq_zero_iff_le] using hfull
        rw [Option.map_some, hnone, stretch_zero]
        rfl
    · have hrun : offer sink limit (row :: rest) p =
          (accept sink row >>= fun _ => offer sink limit rest) p := not_full_run hfull
      rw [hrun, run_bind, accept_run]
      by_cases hskip : p.skip = 0
      · have hleft : stretch p.skip (limit.map (· - p.emitted)) (row :: rest) =
            row :: stretch p.skip (limit.map (· - (p.emitted + 1))) rest := by
          cases limit with
          | none => rw [hskip]; rfl
          | some limit =>
            have hmore : limit - p.emitted = limit - (p.emitted + 1) + 1 := by
              have : p.emitted < limit := by simpa [Full] using hfull
              omega
            rw [hskip, Option.map_some, hmore]
            rfl
        rw [if_pos hskip, hleft]
        have hfeed (rows : List Row) : feed sink (row :: rows) p.acc =
            (sink row >>= fun _ => feed sink rows) p.acc := rfl
        rw [hfeed, run_bind]
        rcases sink row p.acc with ⟨_ | _, acc⟩
        · rfl
        · exact ih { p with seen := row.key :: p.seen, emitted := p.emitted + 1, acc }
      · obtain ⟨skip, hsucc⟩ := Nat.exists_eq_succ_of_ne_zero hskip
        rw [if_neg hskip, hsucc, stretch_succ]
        exact ih _

-- ---------------------------------------------------------------------------
-- A search beside another one
-- ---------------------------------------------------------------------------

structure Follows (sink : Sink σ) (limit : Option Nat) (rows : List Row) (w : Sweeping σ Unit)
    (p : Sweep σ) : Prop where
  answer : (w p).1 = (offer sink limit rows p).1
  last : (w p).2.Agree (offer sink limit rows p).2

/-- A paged search that has had enough, or has found as much as the other one. -/
def Abreast (limit : Option Nat) (p : Sweep σ) (s : Sweep (List Row)) : Prop :=
  Full limit p ∨ p.seen = s.seen

structure Grown (rows : List Row) (s s' : Sweep (List Row)) : Prop where
  acc : s'.acc = rows.reverse ++ s.acc
  seen : s'.seen = (rows.map Row.key).reverse ++ s.seen
  skip : s'.skip = 0

theorem Grown.trans (h : Grown rows s s') (h' : Grown more s' s'') : Grown (rows ++ more) s s'' where
  acc := by rw [h'.acc, h.acc, List.reverse_append, List.append_assoc]
  seen := by rw [h'.seen, h.seen, List.map_append, List.reverse_append, List.append_assoc]
  skip := h'.skip

section Follow

variable {w w' : Sweeping σ Unit}

theorem Follows.congr (h : Follows sink limit rows w p) (hrun : w' p' = w p) (hagree : p.Agree p') :
    Follows sink limit rows w' p' := by
  obtain ⟨hanswer, hlast⟩ := (offer_steady rows).answer p p' hagree
  refine ⟨?_, ?_⟩
  · rw [hrun, h.answer, hanswer]
  · rw [hrun]
    exact h.last.trans hlast

theorem follows_nil (hok : (w p).1 = .ok ()) (hagree : (w p).2.Agree p) :
    Follows sink limit [] w p := ⟨hok, hagree⟩

theorem follows_full (hfull : Full limit p) (hrun : w p = (.ok (), p)) :
    Follows sink limit rows w p := by
  refine ⟨?_, ?_⟩ <;> rw [hrun, offer_full hfull]
  exact Sweep.Agree.refl p

theorem Follows.bind (h : Follows sink limit rows w p)
    (h' : ∀ p', w p = (.ok (), p') → Follows sink limit more w' p') :
    Follows sink limit (rows ++ more) (w >>= fun _ => w') p := by
  obtain ⟨hanswer, hlast⟩ := h
  have happend : offer sink limit (rows ++ more) p =
      (offer sink limit rows >>= fun _ => offer sink limit more) p := offer_append rows more p
  rw [run_bind] at happend
  rcases hrun : w p with ⟨result, p₁⟩
  rcases hoffer : offer sink limit rows p with ⟨result', p₂⟩
  rw [hrun, hoffer] at hanswer hlast
  rw [hoffer] at happend
  cases hanswer
  cases result with
  | error e => exact ⟨by rw [run_bind, hrun, happend], by rw [run_bind, hrun, happend]; exact hlast⟩
  | ok _ =>
    obtain ⟨hanswer', hlast'⟩ := (offer_steady more).answer p₁ p₂ hlast
    have hrest := h' p₁ hrun
    refine ⟨?_, ?_⟩ <;> rw [run_bind, hrun, happend]
    · exact hrest.answer.trans hanswer'
    · exact hrest.last.trans hlast'

theorem Follows.abreast (h : Follows sink limit rows w p) (habreast : Abreast limit p s)
    (hgrown : Grown rows s s') (hrun : w p = (.ok (), p')) : Abreast limit p' s' := by
  obtain ⟨hanswer, hlast⟩ := h
  rw [hrun] at hanswer hlast
  rcases hoffer : offer sink limit rows p with ⟨result, last⟩
  rw [hoffer] at hanswer hlast
  cases hanswer
  have hfull : Full limit last → Full limit p' := fun hfull => by
    unfold Full at hfull ⊢
    rwa [hlast.emitted]
  rcases habreast with henough | hseen
  · rw [offer_full henough] at hoffer
    cases hoffer
    exact .inl (hfull henough)
  · rcases offer_seen hoffer with henough | hlastSeen
    · exact .inl (hfull henough)
    · refine .inr ?_
      rw [hlast.seen, hlastSeen, hseen, hgrown.seen]

end Follow

/-- If the first search succeeds, it finds some rows and the second one follows them. -/
def Pages (sink : Sink σ) (limit : Option Nat) (w₀ : Sweeping (List Row) Unit)
    (w : Sweeping σ Unit) : Prop :=
  ∀ s s', s.skip = 0 → w₀ s = (.ok (), s') → ∃ rows, Grown rows s s' ∧
    ∀ p, Abreast limit p s → Follows sink limit rows w p

theorem Pages.pure : Pages sink limit (Pure.pure ()) (Pure.pure ()) := by
  intro s s' hskip hrun
  cases hrun
  exact ⟨[], ⟨rfl, rfl, hskip⟩, fun p _ => follows_nil rfl (.refl p)⟩

theorem Pages.guarded {w₀ : Sweeping (List Row) Unit} {w : Sweeping σ Unit}
    (h : Pages sink limit w₀ w) :
    Pages sink limit (do if ← isFull none then Pure.pure () else w₀)
      (do if ← isFull limit then Pure.pure () else w) := by
  intro s s' hskip hrun
  have hall : ¬ Full none s := nofun
  rw [not_full_run hall] at hrun
  obtain ⟨rows, hgrown, hfollows⟩ := h s s' hskip hrun
  refine ⟨rows, hgrown, fun p habreast => ?_⟩
  by_cases hfull : Full limit p
  · exact follows_full hfull (full_run hfull)
  · exact (hfollows p habreast).congr (not_full_run hfull) (.refl p)

theorem Pages.bind {w₀ w₀' : Sweeping (List Row) Unit} {w w' : Sweeping σ Unit}
    (h : Pages sink limit w₀ w) (h' : Pages sink limit w₀' w') :
    Pages sink limit (w₀ >>= fun _ => w₀') (w >>= fun _ => w') := by
  intro s s'' hskip hrun
  rw [run_bind] at hrun
  rcases hfirst : w₀ s with ⟨_ | _, s'⟩
  · rw [hfirst] at hrun
    cases hrun
  rw [hfirst] at hrun
  obtain ⟨rows, hgrown, hfollows⟩ := h s s' hskip hfirst
  obtain ⟨more, hgrown', hfollows'⟩ := h' s' s'' hgrown.skip hrun
  refine ⟨rows ++ more, hgrown.trans hgrown', fun p habreast => ?_⟩
  refine (hfollows p habreast).bind fun p' hp' => hfollows' p' ?_
  exact (hfollows p habreast).abreast habreast hgrown hp'

theorem Pages.after {work : Exec α} (hwork : DocStore.Steady work)
    {f₀ : α → Sweeping (List Row) Unit} {f : α → Sweeping σ Unit}
    (h : ∀ a, Pages sink limit (f₀ a) (f a)) :
    Pages sink limit (Sweeping.ofExec work >>= f₀) (Sweeping.ofExec work >>= f) := by
  intro s s' hskip hrun
  rw [run_bind] at hrun
  rcases hfirst : work s.trail with ⟨_ | a, trail⟩
  · simp only [Sweeping.ofExec, hfirst] at hrun
    cases hrun
  simp only [Sweeping.ofExec, hfirst] at hrun
  obtain ⟨rows, hgrown, hfollows⟩ := h a { s with trail } s' hskip hrun
  refine ⟨rows, ⟨hgrown.acc, hgrown.seen, hgrown.skip⟩, fun p habreast => ?_⟩
  have hanswer : (work p.trail).1 = .ok a := (hwork.answer p.trail s.trail).trans (by rw [hfirst])
  rcases hsecond : work p.trail with ⟨result, trail'⟩
  rw [hsecond] at hanswer
  cases hanswer
  refine (hfollows { p with trail := trail' } habreast).congr ?_ ⟨rfl, rfl, rfl, rfl⟩
  simp only [run_bind, Sweeping.ofExec, hsecond]

/-- What echoes two such searches pages in the same way. -/
theorem Pages.echo {w₀ w₀' : Sweeping (List Row) Unit} {w w' : Sweeping σ Unit}
    (h : Pages sink limit w₀ w) (h₀ : w₀'.Echo true w₀) (h' : w'.Echo true w) :
    Pages sink limit w₀' w' := by
  intro s s' hskip hrun
  obtain ⟨hanswer, hlast⟩ := h₀ s (.inl rfl)
  rcases hfirst : w₀ s with ⟨result, last⟩
  rw [hrun, hfirst] at hanswer hlast
  cases hanswer
  obtain ⟨rows, hgrown, hfollows⟩ := h s last hskip hfirst
  refine ⟨rows, ⟨hlast.acc.trans hgrown.acc, hlast.seen.trans hgrown.seen,
    hlast.skip.trans hgrown.skip⟩, fun p habreast => ?_⟩
  obtain ⟨hsame, hagree⟩ := h' p (.inl rfl)
  have hp := hfollows p habreast
  exact ⟨hsame.trans hp.answer, hagree.trans hp.last⟩

theorem halt_pages (stop : Option Failure) : Pages sink limit (halt stop) (halt stop) := by
  cases stop with
  | none => exact .pure
  | some e =>
    intro s s' _ hrun
    cases hrun

-- ---------------------------------------------------------------------------
-- Candidates
-- ---------------------------------------------------------------------------

section Branch

variable (hsteady : ∀ c ∈ q.clauses, c.Steady)
include hsteady

theorem consider_follows {c : Candidate} (hskip : s.skip = 0)
    (hrun : consider scene schema collector q c s = (.ok (), s')) :
    ∃ rows, Grown rows s s' ∧ ∀ p : Sweep σ, ¬ Full limit p → p.seen = s.seen →
      Follows sink limit rows (consider scene schema sink q c) p := by
  rw [consider_run] at hrun
  by_cases hseen : s.seen.contains c.key = true
  · rw [if_pos hseen] at hrun
    cases hrun
    refine ⟨[], ⟨rfl, rfl, hskip⟩, fun p _ hp => ?_⟩
    have hsame : consider scene schema sink q c p = (.ok (), p) := by
      rw [consider_run, hp, if_pos hseen]
    exact follows_nil (by rw [hsame]) (by rw [hsame]; exact .refl p)
  rw [if_neg hseen] at hrun
  cases hdecode : decodeRecord scene.codec schema c.key c.value with
  | error e =>
    simp only [hdecode] at hrun
    cases hrun
  | ok doc =>
    have hanswer : DocStore.Steady (Evaluation.clausesHold scene schema ⟨c.key, doc⟩ q.clauses) :=
      clausesHold_steady hsteady _
    rcases htest : Evaluation.clausesHold scene schema ⟨c.key, doc⟩ q.clauses s.trail with
      ⟨_ | holds, trail⟩
    · simp only [hdecode, htest] at hrun
      cases hrun
    have htest' (p : Sweep σ) : ∃ trail',
        Evaluation.clausesHold scene schema ⟨c.key, doc⟩ q.clauses p.trail = (.ok holds, trail') :=
      ⟨_, Prod.ext ((hanswer.answer p.trail s.trail).trans (by rw [htest])) rfl⟩
    cases holds with
    | false =>
      simp only [hdecode, htest] at hrun
      cases hrun
      refine ⟨[], ⟨rfl, rfl, hskip⟩, fun p _ hp => ?_⟩
      obtain ⟨trail', htrail⟩ := htest' p
      have hsame : consider scene schema sink q c p = (.ok (), { p with trail := trail' }) := by
        rw [consider_run, hp, if_neg hseen, hdecode]
        simp only [htrail]
      exact follows_nil (by rw [hsame]) (by rw [hsame]; exact ⟨rfl, rfl, rfl, rfl⟩)
    | true =>
      simp only [hdecode, htest, accept_run, hskip, if_true, collector] at hrun
      cases hrun
      refine ⟨[⟨c.key, doc⟩], ⟨rfl, rfl, rfl⟩, fun p hnot hp => ?_⟩
      obtain ⟨trail', htrail⟩ := htest' p
      have haccept : consider scene schema sink q c p =
          accept sink ⟨c.key, doc⟩ { p with trail := trail' } := by
        rw [consider_run, hp, if_neg hseen, hdecode]
        simp only [htrail]
      obtain ⟨hanswer, hlast⟩ :=
        (accept_steady ⟨c.key, doc⟩).answer { p with trail := trail' } p ⟨rfl, rfl, rfl, rfl⟩
      refine ⟨?_, ?_⟩ <;> rw [haccept, offer_singleton hnot]
      · exact hanswer
      · exact hlast

theorem considerAll_pages (stop : Option Failure) (left : List Candidate) :
    Pages sink limit (considerAll scene schema collector none q (halt stop) left)
      (considerAll scene schema sink limit q (halt stop) left) := by
  induction left with
  | nil => exact .guarded (halt_pages stop)
  | cons c rest ih =>
    intro s s'' hskip hrun
    have hall : ¬ Full none s := nofun
    rw [considerAll_cons hall, run_bind] at hrun
    rcases hfirst : consider scene schema collector q c s with ⟨_ | _, s'⟩
    · rw [hfirst] at hrun
      cases hrun
    rw [hfirst] at hrun
    obtain ⟨rows, hgrown, hfollows⟩ := consider_follows hsteady hskip hfirst
    obtain ⟨more, hgrown', hfollows'⟩ := ih s' s'' hgrown.skip hrun
    refine ⟨rows ++ more, hgrown.trans hgrown', fun p habreast => ?_⟩
    by_cases hfull : Full limit p
    · exact follows_full hfull (considerAll_full hfull _)
    · have hp := hfollows p hfull (habreast.resolve_left hfull)
      refine (hp.bind fun p' hp' => hfollows' p' ?_).congr (considerAll_cons hfull c rest) (.refl p)
      exact hp.abreast habreast hgrown hp'

theorem scan_pages (source : Source) (filter : Option (Value → Except Failure Bool)) :
    Pages sink limit (scan scene schema collector none q source filter)
      (scan scene schema sink limit q source filter) := by
  let cursor : Cursor Failure := ⟨source, scene.batchSize, filter, .ofEngine⟩
  obtain ⟨left, stop, hleft⟩ : ∃ left stop, cursor.Yields scene.codec scene.view .start left stop :=
    Cursor.exists_yields _
  exact (considerAll_pages hsteady stop left).echo (scan_considers hsteady hleft)
    (scan_considers hsteady hleft)

theorem pass_pages :
    Pages sink limit (pass scene schema collector none q) (pass scene schema sink limit q) := by
  refine .after (.ofExcept _) fun plan => .after (.report _) fun _ => ?_
  cases plan with
  | lookup spec values =>
    refine .after (.ofReading (Index.lookup_steady _ _ _ _) _) fun keys => ?_
    refine .after (.ofReading (.multiGet _) _) fun found => ?_
    rw [considerEach_considers, considerEach_considers]
    exact considerAll_pages hsteady _ _
  | indexScan spec filtered => exact scan_pages hsteady _ _
  | recordScan => exact scan_pages hsteady _ _

end Branch

-- ---------------------------------------------------------------------------
-- Whole queries
-- ---------------------------------------------------------------------------

theorem passEach_pages {branches : List (Query Test)}
    (hsteady : ∀ b ∈ branches, ∀ c ∈ b.clauses, c.Steady) :
    Pages sink limit (passEach scene schema collector none branches)
      (passEach scene schema sink limit branches) := by
  induction branches with
  | nil => exact .pure
  | cons b rest ih =>
    refine Pages.guarded (.bind (pass_pages (hsteady b List.mem_cons_self)) (ih fun b' hb' => ?_))
    exact hsteady b' (List.mem_cons_of_mem _ hb')

theorem passAll_pages {branches : List (Query Test)}
    (hsteady : ∀ b ∈ branches, ∀ c ∈ b.clauses, c.Steady) :
    Pages sink limit (passAll scene schema collector none branches)
      (passAll scene schema sink limit branches) := by
  cases branches with
  | nil => exact .pure
  | cons b rest =>
    exact (pass_pages (hsteady b List.mem_cons_self)).bind
      (passEach_pages fun b' hb' => hsteady b' (List.mem_cons_of_mem _ hb'))

theorem considerEach_paged (q : Query Test) (skip limit' : Option Nat) (spec : IndexSpec)
    (found : List (Bytes × Option Bytes)) :
    considerEach scene schema sink limit (q.paged skip limit') spec found =
      considerEach scene schema sink limit q spec found := by
  induction found with
  | nil => rfl
  | cons pair rest ih =>
    obtain ⟨key, value⟩ := pair
    cases value with
    | none => rfl
    | some value =>
      simp only [considerEach, ih]
      rfl

theorem considerDrawn_paged (q : Query Test) (skip limit' : Option Nat) (cursor : Cursor Failure)
    (fuel : Nat) :
    considerDrawn scene schema sink limit (q.paged skip limit') cursor fuel =
      considerDrawn scene schema sink limit q cursor fuel := by
  induction fuel with
  | zero => rfl
  | succ fuel ih =>
    simp only [considerDrawn, ih]
    rfl

theorem passAll_paged (q : Query Test) (skip limit' : Option Nat) :
    passAll scene schema sink limit (q.paged skip limit').branches =
      passAll scene schema sink limit q.branches := by
  have hpass : pass scene schema sink limit (q.paged skip limit') =
      pass scene schema sink limit q := by
    simp only [pass, scan, considerEach_paged, considerDrawn_paged]
    rfl
  rw [Query.branches_eq, Query.branches_eq, passAll, passAll, hpass]
  rfl

section Paged

variable (hsteady : q.Steady) (hskip : q.skip = none) (hlimit : q.limit = none) {trail : Trail}
include hsteady hskip hlimit

theorem sweep_paged (hrows : (sweepRows scene schema q trail).1 = .ok rows)
    (skip limit : Option Nat) (acc : σ) (trail' : Trail) :
    let swept := sweep scene schema sink (q.paged skip limit) acc trail'
    (swept.1, swept.2.1) = feed sink (stretch (skip.getD 0) limit rows) acc := by
  let first : Sweep (List Row) := ⟨trail, [], q.skipCount, 0, []⟩
  let p : Sweep σ := ⟨trail', [], skip.getD 0, 0, acc⟩
  have hcount : first.skip = 0 := by simp [first, Query.skipCount, hskip]
  simp only [sweepRows, sweep, hlimit] at hrows
  rcases hrun : passAll scene schema collector none q.branches first with ⟨_ | _, last⟩
  · simp only [first] at hrun
    simp only [hrun] at hrows
    cases hrows
  have hpages : Pages sink limit (passAll scene schema collector none q.branches)
      (passAll scene schema sink limit q.branches) := passAll_pages hsteady
  obtain ⟨found, hgrown, hfollows⟩ := hpages first last hcount hrun
  have hfound : found = rows := by
    simp only [first] at hrun
    simp only [hrun, Except.map, Except.ok.injEq] at hrows
    rw [← hrows, hgrown.acc]
    simp [first]
  subst hfound
  obtain ⟨hanswer, hlast⟩ := hfollows p (.inr rfl)
  have hoffer : ((offer sink limit found p).1, (offer sink limit found p).2.acc) =
      feed sink (stretch p.skip (limit.map (· - p.emitted)) found) p.acc := offer_run found p
  have hleft : limit.map (· - p.emitted) = limit := by cases limit <;> rfl
  rw [hleft, ← hanswer, ← hlast.acc, ← passAll_paged q skip limit] at hoffer
  exact hoffer

/-- A paged search hands on a stretch of what it finds without paging, and nothing else. -/
theorem walk_paged (hrows : (findRows scene schema q trail).1 = .ok rows) (skip limit : Option Nat)
    (acc : σ) (trail' : Trail) :
    let walked := walk scene schema sink (q.paged skip limit) acc trail'
    (walked.1, walked.2.1) = feed sink (stretch (skip.getD 0) limit rows) acc := by
  have hvalid := validate_of_findRows hrows
  have hvalid' : (q.paged skip limit).validate = .ok () := hvalid
  cases hsort : q.sortFields.isEmpty with
  | true =>
    have hsort' : (q.paged skip limit).sortFields.isEmpty = true := hsort
    simp only [findRows, walk_unsorted hvalid hsort] at hrows
    simp only [walk_unsorted hvalid' hsort']
    exact sweep_paged hsteady hskip hlimit hrows skip limit acc trail'
  | false =>
    have hsort' : (q.paged skip limit).sortFields.isEmpty = false := hsort
    have hall (sorted : List Row) : slice q sorted = sorted := by
      simp [slice, Query.skipCount, hskip, hlimit]
    have hslice (sorted : List Row) :
        slice (q.paged skip limit) sorted = stretch (skip.getD 0) limit sorted := by
      cases limit <;> rfl
    simp only [findRows, walk_sorted hvalid hsort] at hrows
    simp only [walk_sorted hvalid' hsort']
    cases hsorted : (sortedRows scene schema q trail).1 with
    | error e =>
      rw [hsorted] at hrows
      cases hrows
    | ok sorted =>
      have hsame : (sortedRows scene schema (q.paged skip limit) trail').1 = .ok sorted :=
        ((sortedRows_steady hsteady.unpaged).answer trail' trail).trans hsorted
      simp only [hsorted, feedSorted, feed_collector, hall, Except.map, List.append_nil,
        List.reverse_reverse, Except.ok.injEq] at hrows
      simp only [hsame, feedSorted, hslice, hrows]
      rfl

end Paged

end Search

-- ---------------------------------------------------------------------------
-- What callers ask for
-- ---------------------------------------------------------------------------

theorem mapM_eq_ok_iff {β : Type} {f : α → Except Failure β} {items : List α} {results : List β} :
    items.mapM f = .ok results ↔ items.map f = results.map .ok := by
  induction items generalizing results with
  | nil => cases results <;> simp [pure, Except.pure]
  | cons item rest ih =>
    rw [List.mapM_cons]
    constructor
    · intro h
      cases hitem : f item with
      | error e =>
        rw [hitem] at h
        cases h
      | ok first =>
        cases hrest : rest.mapM f with
        | error e =>
          rw [hitem, hrest] at h
          cases h
        | ok more =>
          rw [hitem, hrest] at h
          cases h
          rw [List.map_cons, List.map_cons, hitem, ih.mp hrest]
    · intro h
      cases results with
      | nil => cases h
      | cons first more =>
        obtain ⟨hitem, hrest⟩ := List.cons.inj h
        rw [hitem, ih.mpr hrest]
        rfl

namespace Search

variable {scene : Scene} {schema : Schema} {sink sink' : Sink σ} {rows : List Row}

theorem feed_counter (rows : List Row) (count : Nat) :
    feed counter rows count = (.ok (), count + rows.length) := by
  induction rows generalizing count with
  | nil => rfl
  | cons row rest ih =>
    change (counter row >>= fun _ => feed counter rest) count = _
    rw [run_bind]
    exact (ih (count + 1)).trans (by rw [List.length_cons, Nat.add_right_comm]; rfl)

end Search

namespace Records

open Search

variable {settings : Settings} {entity : Entity} {session session' : Session}

theorem feed_read {f : Document → ExceptT Failure (StateM σ) Unit} {rows : List Row}
    {docs : List Document} (hread : rows.map (fun row => entity.read row.doc) = docs.map .ok) (acc : σ) :
    feed (fun row => match entity.read row.doc with
      | .ok doc => f doc
      | .error e => throw e) rows acc = docs.forM f acc := by
  induction rows generalizing docs acc with
  | nil =>
    cases docs with
    | nil => rfl
    | cons doc docs => cases hread
  | cons row rest ih =>
    cases docs with
    | nil => cases hread
    | cons doc docs =>
      obtain ⟨hdoc, hdocs⟩ := List.cons.inj hread
      have hfeed (sink : Sink σ) : feed sink (row :: rest) acc =
          (sink row >>= fun _ => feed sink rest) acc := rfl
      have hcall : (doc :: docs).forM f acc = (f doc >>= fun _ => docs.forM f) acc := rfl
      rw [hfeed, hcall, run_bind, run_bind]
      simp only [hdoc]
      rcases f doc acc with ⟨_ | _, acc'⟩
      · rfl
      · exact ih hdocs acc'

theorem find_eq_ok_iff {q : Query Predicate} {docs : List Document} :
    (find settings entity q session).1 = .ok docs ↔ ∃ schema rows, entity.validSchema = .ok schema ∧
      (Search.findRows (scene settings session) schema (q.ready (scene settings session))
        (trail session)).1 = .ok rows ∧
      rows.map (fun row => entity.read row.doc) = docs.map .ok := by
  simp only [find, schema, run_bind, Work.ofExcept, findRows, searching_run]
  cases entity.validSchema with
  | error e => simp
  | ok schema =>
    simp only [Except.ok.injEq, exists_and_left, exists_eq_left']
    cases (Search.findRows (scene settings session) schema (q.ready (scene settings session))
      (trail session)).1 with
    | error e => simp
    | ok rows => simp [mapM_eq_ok_iff]

theorem docs_of_read {rows : List Row} {docs : List Document}
    (hread : rows.map (fun row => entity.read row.doc) = docs.map .ok) :
    docs = rows.map Row.doc ∧ ∀ row ∈ rows, entity.read row.doc = .ok row.doc := by
  have hdoc : ∀ row ∈ rows, entity.read row.doc = .ok row.doc := by
    intro row hrow
    obtain ⟨doc, -, hdoc⟩ := List.mem_map.mp (hread ▸ List.mem_map_of_mem hrow)
    rw [← hdoc, Entity.read_ok hdoc.symm]
  have hsame : rows.map (fun row => entity.read row.doc) = (rows.map Row.doc).map .ok := by
    rw [List.map_map]
    exact List.map_congr_left hdoc
  exact ⟨List.map_injective_iff.mpr (fun _ _ => Except.ok.inj) (hread.symm.trans hsame), hdoc⟩

/-- Whatever is done with the matches of the query is done with these rows. -/
def Walks (settings : Settings) (session : Session) (schema : Schema) (q : Query Predicate)
    (rows : List Row) : Prop :=
  ∀ (σ : Type) (sink : Sink σ) (acc : σ),
    let walked := walk (scene settings session) schema sink (q.ready (scene settings session)) acc
      (trail session)
    (walked.1, walked.2.1) = feed sink rows acc

section Walks

variable {schema : Schema} {q : Query Predicate} {rows : List Row} {docs : List Document}

theorem walks_paged (hskip : q.skip = none) (hlimit : q.limit = none)
    (hview : session'.txn.view = session.txn.view)
    (hrows : (Search.findRows (scene settings session) schema (q.ready (scene settings session))
      (trail session)).1 = .ok rows) (skip limit : Option Nat) :
    Walks settings session' schema (q.paged skip limit) (stretch (skip.getD 0) limit rows) := by
  have hscene : scene settings session' = scene settings session := by rw [scene, hview, scene]
  have hready : (q.paged skip limit).ready (scene settings session) =
      (q.ready (scene settings session)).paged skip limit := by
    cases q
    rfl
  have hskip' : (q.ready (scene settings session)).skip = none := by
    cases q
    exact hskip
  have hlimit' : (q.ready (scene settings session)).limit = none := by
    cases q
    exact hlimit
  intro σ sink acc
  rw [hscene, hready]
  exact walk_paged (q.ready_steady _) hskip' hlimit' hrows skip limit acc (trail session')

variable (hwalks : Walks settings session schema q rows)
include hwalks

theorem Walks.findRows_ok : (Search.findRows (scene settings session) schema
    (q.ready (scene settings session)) (trail session)).1 = .ok rows := by
  have hcollect := hwalks (List Row) collector []
  rw [feed_collector, List.append_nil] at hcollect
  obtain ⟨hok, hacc⟩ := Prod.mk.inj hcollect
  simp only [Search.findRows, hok, hacc, Except.map, List.reverse_reverse]

variable (hschema : entity.validSchema = .ok schema)
include hschema

theorem Walks.count : (count settings entity q session).1 = .ok rows.length := by
  have hcount := hwalks Nat counter 0
  rw [feed_counter, Nat.zero_add] at hcount
  obtain ⟨hok, hacc⟩ := Prod.mk.inj hcount
  simp only [Records.count, Records.schema, run_bind, Work.ofExcept, hschema, searching_run,
    Search.count, hok, hacc, Except.map]

variable (hread : rows.map (fun row => entity.read row.doc) = docs.map .ok)
include hread

theorem Walks.find : (find settings entity q session).1 = .ok docs :=
  find_eq_ok_iff.mpr ⟨schema, rows, hschema, hwalks.findRows_ok, hread⟩

theorem Walks.forEach (f : Document → ExceptT Failure (StateM σ) Unit) (acc : σ) :
    (forEach settings entity q f acc session).1 = .ok (docs.forM f acc) := by
  have hwalk := hwalks σ (fun row => match entity.read row.doc with
    | .ok doc => f doc
    | .error e => throw e) acc
  rw [feed_read hread] at hwalk
  simp only [Records.forEach, hschema, searching_run]
  exact congrArg Except.ok hwalk

end Walks

theorem findOne_of_walks {schema : Schema} {q : Query Predicate} {rows : List Row}
    {docs : List Document} (hwalks : Walks settings session schema q.firstOnly rows)
    (hschema : entity.validSchema = .ok schema)
    (hread : rows.map (fun row => entity.read row.doc) = docs.map .ok) :
    (findOne settings entity q session).1 =
      match docs.head? with
      | some doc => .ok doc
      | none => .error .notFound := by
  have hrows := hwalks.findRows_ok
  simp only [findOne, Records.schema, run_bind, Work.ofExcept, hschema, findRows, searching_run, hrows]
  cases rows with
  | nil =>
    cases docs with
    | nil => rfl
    | cons doc docs => cases hread
  | cons row rest =>
    cases docs with
    | nil => cases hread
    | cons doc docs => exact (List.cons.inj hread).1

/-- A page of a query is a stretch of what the query finds, whichever way callers ask for it. -/
theorem find_paged {q : Query Predicate} {docs : List Document} (hskip : q.skip = none)
    (hlimit : q.limit = none) (hview : session'.txn.view = session.txn.view)
    (hfind : (find settings entity q session).1 = .ok docs) (skip limit : Nat) :
    let page := (q.skipping skip).limitTo limit
    let part := (docs.drop skip).take limit
    (find settings entity page session').1 = .ok part ∧
      (count settings entity page session').1 = .ok part.length ∧
      (∀ (σ : Type) (f : Document → ExceptT Failure (StateM σ) Unit) (acc : σ),
        (forEach settings entity page f acc session').1 = .ok (part.forM f acc)) ∧
      ∀ one ∈ [q.skipping skip, page], (findOne settings entity one session').1 =
        match docs[skip]? with
        | some doc => .ok doc
        | none => .error .notFound := by
  obtain ⟨schema, rows, hschema, hrows, hread⟩ := find_eq_ok_iff.mp hfind
  have hskipping : q.skipping skip = q.paged (some skip) none := by
    simp [Query.skipping, Query.paged, hskip, hlimit]
  have hpage : (q.skipping skip).limitTo limit = q.paged (some skip) (some limit) := by
    simp [Query.limitTo, Query.paged, hskipping]
  have hwalks := walks_paged hskip hlimit hview hrows (some skip)
  have hpart (limit : Nat) : (stretch skip (some limit) rows).map (fun row => entity.read row.doc) =
      (stretch skip (some limit) docs).map .ok := by
    rw [map_stretch, map_stretch, hread]
  intro page part
  simp only [page, hpage]
  refine ⟨(hwalks (some limit)).find hschema (hpart limit), ?_, fun σ f acc => ?_, fun one hone => ?_⟩
  · have hlength := congrArg List.length (hpart limit)
    rw [List.length_map, List.length_map] at hlength
    rw [(hwalks (some limit)).count hschema]
    exact congrArg Except.ok hlength
  · exact (hwalks (some limit)).forEach hschema (hpart limit) f acc
  · have hfirst : one.firstOnly = q.paged (some skip) (some 1) := by
      simp only [hskipping, List.mem_cons, List.not_mem_nil, or_false] at hone
      rcases hone with rfl | rfl <;> rfl
    rw [findOne_of_walks (hfirst ▸ hwalks (some 1)) hschema (hpart 1)]
    have hhead : (stretch skip (some 1) docs).head? = docs[skip]? := by
      rw [stretch, ← List.head?_drop]
      cases docs.drop skip <;> rfl
    rw [hhead]

/-- The books from the end of their codes; the second page of one book holds the other one. -/
theorem find_paged_books :
    let session : Session := ⟨((Turn.reached Turn.bookSettings
      (Turn.bookTurns.take 11)).store.start true).1, []⟩
    let q := (anyBook.sortBy ["code"]).reverse
    let page := (q.skipping 1).limitTo 1
    let code (doc : Document) := (doc.lookup "code").map Value.text
    q.skip = none ∧ q.limit = none ∧
      ∃ docs, (find Turn.bookSettings Turn.bookEntity q session).1 = .ok docs ∧
        docs.map code = [some "b", some "a"] ∧
        (find Turn.bookSettings Turn.bookEntity page session).1 = .ok ((docs.drop 1).take 1) ∧
        (count Turn.bookSettings Turn.bookEntity page session).1 = .ok 1 := by
  intro session q page code
  have hcodes : (find Turn.bookSettings Turn.bookEntity q session).1.toOption.map (List.map code) =
      some [some "b", some "a"] := by
    decide +kernel
  cases hfind : (find Turn.bookSettings Turn.bookEntity q session).1 with
  | error e =>
    rw [hfind] at hcodes
    cases hcodes
  | ok docs =>
    rw [hfind] at hcodes
    have hdocs : docs.map code = [some "b", some "a"] := Option.some.inj hcodes
    have hlength : docs.length = 2 := by simpa using congrArg List.length hdocs
    obtain ⟨hpage, hcount, -⟩ := find_paged rfl rfl rfl hfind 1 1
    have hone : ((docs.drop 1).take 1).length = 1 := by simp [hlength]
    rw [hone] at hcount
    exact ⟨rfl, rfl, docs, rfl, hdocs, hpage, hcount⟩

end Records

end DocStore
