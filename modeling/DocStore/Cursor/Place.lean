import DocStore.Cursor

/-!
# Places of cursors

A cursor has a bookmark of its own or uses one that others use too. One that opens at a shared
bookmark starts it afresh and puts what stood there aside; when it closes, the bookmark gets that
back. As long as the cursors at one bookmark close in the reverse order of opening, none of them
notices the others.
-/

namespace DocStore

abbrev Shelf := List Bookmark

inductive Place where
  | own (b : Bookmark)
  /-- The shared bookmark `n`, which gets `aside` back. -/
  | shared (n : Nat) (aside : Bookmark)

namespace Place

def opened (shelf : Shelf) : Option Nat → Option (Place × Shelf)
  | none => some (own .start, shelf)
  | some n => shelf[n]?.map fun aside => (shared n aside, shelf.set n .start)

def bookmark (shelf : Shelf) : Place → Bookmark
  | own b => b
  | shared n _ => shelf[n]?.getD .start

def moved (shelf : Shelf) (b : Bookmark) : Place → Place × Shelf
  | own _ => (own b, shelf)
  | shared n aside => (shared n aside, shelf.set n b)

def closed (shelf : Shelf) : Place → Shelf
  | own _ => shelf
  | shared n aside => shelf.set n aside

theorem closed_opened {shelf shelf' : Shelf} {n : Option Nat} {p : Place}
    (h : opened shelf n = some (p, shelf')) : p.closed shelf' = shelf := by
  cases n with
  | none => simp [opened] at h; simp [← h.1, ← h.2, closed]
  | some n =>
    simp only [opened, Option.map_eq_some_iff, Prod.mk.injEq] at h
    obtain ⟨b, hb, rfl, rfl⟩ := h
    have hn : n < shelf.length := (List.getElem?_eq_some_iff.1 hb).1
    have hv : shelf[n] = b := (List.getElem?_eq_some_iff.1 hb).2
    simp [closed, ← hv]

end Place

namespace Cursor

variable {ε : Type} (codec : Codec) (view : Data) (c : Cursor ε)

def nextAt (place : Place) (shelf : Shelf) :
    Except ε (Option Candidate) × Place × Shelf × List Bytes :=
  let (result, b, reads) := c.next codec view (place.bookmark shelf)
  let (place, shelf) := place.moved shelf b
  (result, place, shelf, reads)

end Cursor

end DocStore
