import DocStore.Cursor.Place
import DocStore.Proofs.Settling

/-!
# Sharing a bookmark

Cursors at one shared bookmark, of which only the one opened last is advanced or closed, do not notice
each other: each draws what it would draw from a bookmark of its own, and when it closes the bookmark
is again what it was before. The invariant behind this is `Stacked`; one move keeps it up (`sound_step`),
and so does any number of them (`sound_run`). The scans of a search and of what its predicates ask for
are such cursors (`draw_at_shelf`, `parked_at_shelf`), so a search cannot tell that it was interrupted
(`sharing_unnoticed`).
-/

namespace DocStore

variable {ε : Type}

-- ---------------------------------------------------------------------------
-- Cursors with a bookmark of their own
-- ---------------------------------------------------------------------------

namespace Cursor

def reached (codec : Codec) (c : Cursor ε) (b : Bookmark) (views : List Data) : Bookmark :=
  views.foldl (fun b view => (c.next codec view b).2.1) b

def drawn (codec : Codec) (c : Cursor ε) : Bookmark → List Data → List (Except ε (Option Candidate))
  | _, [] => []
  | b, view :: rest => (c.next codec view b).1 :: c.drawn codec (c.next codec view b).2.1 rest

theorem reached_append (codec : Codec) (c : Cursor ε) (b : Bookmark) (views : List Data)
    (view : Data) :
    c.reached codec b (views ++ [view]) = (c.next codec view (c.reached codec b views)).2.1 :=
  List.foldl_append

theorem drawn_append (codec : Codec) (c : Cursor ε) (b : Bookmark) (views : List Data)
    (view : Data) :
    c.drawn codec b (views ++ [view]) =
      c.drawn codec b views ++ [(c.next codec view (c.reached codec b views)).1] := by
  induction views generalizing b with
  | nil => rfl
  | cons first rest ih => rw [List.cons_append, drawn, drawn, ih, List.cons_append]; rfl

end Cursor

-- ---------------------------------------------------------------------------
-- Cursors at one bookmark
-- ---------------------------------------------------------------------------

/-- A cursor at the shared bookmark: what stood there before it was opened, and what it has drawn from
which views. -/
structure Usage (ε : Type) where
  cursor : Cursor ε
  before : Bookmark
  draws : List (Data × Except ε (Option Candidate))

namespace Usage

def views (usage : Usage ε) : List Data := usage.draws.map Prod.fst

def results (usage : Usage ε) : List (Except ε (Option Candidate)) := usage.draws.map Prod.snd

def own (codec : Codec) (usage : Usage ε) : Bookmark :=
  usage.cursor.reached codec .start usage.views

/-- The cursor has drawn what it would have drawn with a bookmark of its own. -/
def Undisturbed (codec : Codec) (usage : Usage ε) : Prop :=
  usage.results = usage.cursor.drawn codec .start usage.views

def add (usage : Usage ε) (view : Data) (result : Except ε (Option Candidate)) : Usage ε :=
  { usage with draws := usage.draws ++ [(view, result)] }

variable {codec : Codec} {usage : Usage ε} {view : Data}

@[simp] theorem views_add (result : Except ε (Option Candidate)) :
    (usage.add view result).views = usage.views ++ [view] := List.map_append

@[simp] theorem results_add (result : Except ε (Option Candidate)) :
    (usage.add view result).results = usage.results ++ [result] := List.map_append

theorem own_add (result : Except ε (Option Candidate)) :
    (usage.add view result).own codec = (usage.cursor.next codec view (usage.own codec)).2.1 := by
  unfold own
  rw [views_add]
  exact Cursor.reached_append codec usage.cursor .start usage.views view

theorem Undisturbed.add (h : usage.Undisturbed codec) :
    (usage.add view (usage.cursor.next codec view (usage.own codec)).1).Undisturbed codec := by
  unfold Undisturbed at h ⊢
  rw [views_add, results_add, h]
  exact (Cursor.drawn_append codec usage.cursor .start usage.views view).symm

end Usage

/-- The shared bookmarks with the cursors at one of them, the latest first, and those that have been
closed there, each with what stood there afterwards. -/
structure Desk (ε : Type) where
  shelf : Shelf
  live : List (Usage ε × Place)
  done : List (Usage ε × Option Bookmark)

/-- Only the cursor that was opened last is advanced or closed. -/
inductive Move (ε : Type) where
  | opening (cursor : Cursor ε)
  | drawing (view : Data)
  | closing

namespace Desk

/-- One move at the shared bookmark `n`. Without a cursor there is nothing to advance or close. -/
def step (codec : Codec) (n : Nat) (desk : Desk ε) : Move ε → Desk ε
  | .opening cursor =>
    match desk.shelf[n]?, Place.opened desk.shelf (some n) with
    | some before, some (place, shelf) =>
      { desk with shelf, live := (⟨cursor, before, []⟩, place) :: desk.live }
    | _, _ => desk
  | .drawing view =>
    match desk.live with
    | [] => desk
    | (usage, place) :: rest =>
      let (result, place, shelf, _) := usage.cursor.nextAt codec view place desk.shelf
      { desk with shelf, live := (usage.add view result, place) :: rest }
  | .closing =>
    match desk.live with
    | [] => desk
    | (usage, place) :: rest =>
      let shelf := place.closed desk.shelf
      { shelf, live := rest, done := (usage, shelf[n]?) :: desk.done }

def run (codec : Codec) (n : Nat) (desk : Desk ε) (moves : List (Move ε)) : Desk ε :=
  moves.foldl (step codec n) desk

end Desk

/-- On the shelf stands the own bookmark of the latest cursor, and each has put aside that of the one
before it. -/
inductive Stacked (codec : Codec) (n : Nat) : Option Bookmark → List (Usage ε × Place) → Prop
  | nil (b : Option Bookmark) : Stacked codec n b []
  | cons (usage : Usage ε) {rest : List (Usage ε × Place)} :
    Stacked codec n (some usage.before) rest →
      Stacked codec n (some (usage.own codec)) ((usage, .shared n usage.before) :: rest)

structure Desk.Sound (codec : Codec) (n : Nat) (desk : Desk ε) : Prop where
  stacked : Stacked codec n desk.shelf[n]? desk.live
  live : ∀ usage place, (usage, place) ∈ desk.live → usage.Undisturbed codec
  done : ∀ usage after, (usage, after) ∈ desk.done →
    usage.Undisturbed codec ∧ after = some usage.before

namespace Desk

variable {codec : Codec} {n : Nat} {desk : Desk ε}

theorem sound_opening (h : desk.Sound codec n) (cursor : Cursor ε) :
    (desk.step codec n (.opening cursor)).Sound codec n := by
  obtain ⟨shelf, live, done⟩ := desk
  obtain ⟨hstacked, hlive, hdone⟩ := h
  simp only [step, Place.opened]
  cases hbefore : shelf[n]? with
  | none => exact ⟨hstacked, hlive, hdone⟩
  | some before =>
    obtain ⟨hn, -⟩ := List.getElem?_eq_some_iff.mp hbefore
    have hstart : (shelf.set n .start)[n]? = some .start := List.getElem?_set_self hn
    dsimp only at hstacked
    rw [hbefore] at hstacked
    refine ⟨?_, fun usage place husage => ?_, hdone⟩
    · change Stacked codec n (shelf.set n .start)[n]? _
      rw [hstart]
      exact hstacked.cons ⟨cursor, before, []⟩
    · rcases List.mem_cons.mp husage with heq | husage
      · cases heq
        rfl
      · exact hlive usage place husage

theorem sound_drawing (h : desk.Sound codec n) (view : Data) :
    (desk.step codec n (.drawing view)).Sound codec n := by
  obtain ⟨shelf, live, done⟩ := desk
  obtain ⟨hstacked, hlive, hdone⟩ := h
  dsimp only at hstacked hlive
  generalize hb : shelf[n]? = b at hstacked
  cases hstacked with
  | nil => exact ⟨.nil _, hlive, hdone⟩
  | cons usage hrest =>
    obtain ⟨hn, -⟩ := List.getElem?_eq_some_iff.mp hb
    simp only [step, Cursor.nextAt, Place.bookmark, Place.moved, hb, Option.getD_some]
    refine ⟨?_, fun other place hother => ?_, hdone⟩
    · change Stacked codec n (shelf.set n (usage.cursor.next codec view (usage.own codec)).2.1)[n]? _
      rw [List.getElem?_set_self hn,
        ← Usage.own_add (usage.cursor.next codec view (usage.own codec)).1]
      exact hrest.cons (usage.add view _)
    · rcases List.mem_cons.mp hother with heq | hother
      · cases heq
        exact (hlive usage _ List.mem_cons_self).add
      · exact hlive other place (List.mem_cons_of_mem _ hother)

theorem sound_closing (h : desk.Sound codec n) : (desk.step codec n .closing).Sound codec n := by
  obtain ⟨shelf, live, done⟩ := desk
  obtain ⟨hstacked, hlive, hdone⟩ := h
  dsimp only at hstacked hlive hdone
  generalize hb : shelf[n]? = b at hstacked
  cases hstacked with
  | nil => exact ⟨.nil _, hlive, hdone⟩
  | cons usage hrest =>
    obtain ⟨hn, -⟩ := List.getElem?_eq_some_iff.mp hb
    have hleft : (shelf.set n usage.before)[n]? = some usage.before := List.getElem?_set_self hn
    simp only [step, Place.closed, hleft]
    refine ⟨?_, fun other place hother => ?_, fun other after hother => ?_⟩
    · change Stacked codec n (shelf.set n usage.before)[n]? _
      rw [hleft]
      exact hrest
    · exact hlive other place (List.mem_cons_of_mem _ hother)
    · rcases List.mem_cons.mp hother with heq | hother
      · cases heq
        exact ⟨hlive usage _ List.mem_cons_self, rfl⟩
      · exact hdone other after hother

theorem sound_step (h : desk.Sound codec n) (move : Move ε) :
    (desk.step codec n move).Sound codec n := by
  cases move with
  | opening cursor => exact sound_opening h cursor
  | drawing view => exact sound_drawing h view
  | closing => exact sound_closing h

theorem sound_run (h : desk.Sound codec n) (moves : List (Move ε)) :
    (desk.run codec n moves).Sound codec n := by
  induction moves generalizing desk with
  | nil => exact h
  | cons move rest ih => exact ih (sound_step h move)

theorem sound_start (shelf : Shelf) : (⟨shelf, [], []⟩ : Desk ε).Sound codec n :=
  ⟨.nil _, nofun, nofun⟩

end Desk

-- ---------------------------------------------------------------------------
-- Scans at the shared bookmark of a search
-- ---------------------------------------------------------------------------

namespace Sweeping

variable {σ α : Type}

/-- A search draws from a cursor at a shelf that holds the bookmark of the search. -/
theorem draw_at_shelf (scene : Scene) (cursor : Cursor Failure) (aside : Bookmark) (s : Sweep σ) :
    let drawn := cursor.nextAt scene.codec scene.view (.shared 0 aside) [s.trail.bookmark]
    (draw scene cursor s).1 = drawn.1 ∧ [(draw scene cursor s).2.trail.bookmark] = drawn.2.2.1 :=
  ⟨rfl, rfl⟩

/-- Such a cursor is opened before a scan and closed after it, also if the scan fails. -/
theorem parked_at_shelf (work : Sweeping σ α) (s : Sweep σ) :
    ∃ place shelf, Place.opened [s.trail.bookmark] (some 0) = some (place, shelf) ∧
      let fresh : Sweep σ := { s with trail := { s.trail with bookmark := place.bookmark shelf } }
      (parked work s).1 = (work fresh).1 ∧
        [(parked work s).2.trail.bookmark] = place.closed [(work fresh).2.trail.bookmark] :=
  ⟨.shared 0 s.trail.bookmark, [.start], rfl, rfl, rfl⟩

end Sweeping

/-- Whatever cursors do at one bookmark in the manner of a stack, each draws what it would draw on its
own and leaves the bookmark as it was. And a query finds what it would find if the outcomes of all
queries that its predicates ask were known in advance. -/
theorem sharing_unnoticed :
    (∀ (ε : Type) (codec : Codec) (n : Nat) (shelf : Shelf) (moves : List (Move ε)),
      let desk := (⟨shelf, [], []⟩ : Desk ε).run codec n moves
      (∀ usage place, (usage, place) ∈ desk.live →
        usage.results = usage.cursor.drawn codec .start usage.views) ∧
      ∀ usage after, (usage, after) ∈ desk.done →
        usage.results = usage.cursor.drawn codec .start usage.views ∧ after = some usage.before) ∧
    ∀ (settings : Settings) (entity : Entity) (q : Query Predicate) (session : Session),
      (Records.find settings entity q session).1 =
        (Records.find settings entity (q.settled settings session) session).1 := by
  refine ⟨fun ε codec n shelf moves => ?_, find_settled⟩
  have hsound : ((⟨shelf, [], []⟩ : Desk ε).run codec n moves).Sound codec n :=
    Desk.sound_run (Desk.sound_start shelf) moves
  exact ⟨hsound.live, hsound.done⟩

end DocStore
