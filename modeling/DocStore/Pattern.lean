import DocStore.Text.Blank
import DocStore.Text.CaseFold
import DocStore.Text.DecimalDigit
import DocStore.Text.WordChar

/-!
# Text patterns

Regular expressions with character classes, anchors and word edges, searched for anywhere in a text.
The search steps through the text with all ways of matching at once: `step` is what remains to be
matched after one character, and `nullable` tells whether nothing need remain. Both see the
characters on either side of the position, which is what anchors and word edges ask about.
-/

namespace DocStore

namespace Pattern

inductive ClassItem where
  | range (first last : Char)
  | digit (negated : Bool)
  | word (negated : Bool)
  | blank (negated : Bool)
  deriving DecidableEq, Repr

def ClassItem.contains (c : Char) : ClassItem → Bool
  | .range first last => first ≤ c && c ≤ last
  | .digit negated => Text.isDecimalDigit c != negated
  | .word negated => Text.isWordChar c != negated
  | .blank negated => Text.isBlank c != negated

/-- With `anyCase`, a character is in the class if one that differs only in case is. -/
structure CharClass where
  negated : Bool
  items : List ClassItem
  anyCase : Bool
  deriving DecidableEq, Repr

def CharClass.contains (s : CharClass) (c : Char) : Bool :=
  let listed := if s.anyCase then
      (Text.caseVariants c).any fun d => s.items.any (·.contains d)
    else s.items.any (·.contains c)
  listed != s.negated

inductive Regex where
  | never
  | empty
  | chars (place : Nat) (s : CharClass)
  | seq (first second : Regex)
  | alt (left right : Regex)
  | star (r : Regex)
  | textStart
  | textEnd
  | wordEdge (negated : Bool)
  deriving DecidableEq, Repr

namespace Regex

def andThen : Regex → Regex → Regex
  | .never, _ => .never
  | _, .never => .never
  | .empty, r => r
  | r, .empty => r
  | .seq r s, t => .seq r (s.andThen t)
  | r, s => .seq r s

def isAlternativeOf (r : Regex) : Regex → Bool
  | .alt left right => r == left || r.isAlternativeOf right
  | s => r == s

/-- Alternation that lists each alternative once. -/
def orElse : Regex → Regex → Regex
  | .never, s => s
  | .alt left right, s => let rest := right.orElse s
    if left.isAlternativeOf rest then rest else .alt left rest
  | r, .never => r
  | r, s => if r.isAlternativeOf s then s else .alt r s

def isWord : Option Char → Bool
  | some c => Text.isWordChar c
  | none => false

/-- Matches the empty text between the characters `before` and `after`. -/
def nullable (before after : Option Char) : Regex → Bool
  | .never => false
  | .empty => true
  | .chars _ _ => false
  | .seq r s => r.nullable before after && s.nullable before after
  | .alt r s => r.nullable before after || s.nullable before after
  | .star _ => true
  | .textStart => before.isNone
  | .textEnd => after.isNone
  | .wordEdge negated => (isWord before != isWord after) != negated

def numbered (next : Nat) : Regex → Regex × Nat
  | .chars _ s => (.chars next s, next + 1)
  | .seq r s =>
    let (r, next) := r.numbered next
    let (s, next) := s.numbered next
    (.seq r s, next)
  | .alt r s =>
    let (r, next) := r.numbered next
    let (s, next) := s.numbered next
    (.alt r s, next)
  | .star r =>
    let (r, next) := r.numbered next
    (.star r, next)
  | other => (other, next)

/-- The ways to match up to one position, each the parts that are left to match one after the other.
However a place was reached, the same parts are left behind it, so `seen` notes the places that have
been read and each is followed once. -/
structure Ways where
  seen : Array Bool
  parts : List (List Regex)

def Ways.read (c : Char) (place : Nat) (s : CharClass) (rest : List Regex) (ways : Ways) : Ways :=
  if ways.seen.getD place false || !s.contains c then ways
  else ⟨ways.seen.setIfInBounds place true, rest :: ways.parts⟩

/-- Adds the ways to match on behind `c`, which stands behind `before` and ahead of `rest`. -/
def step (before : Option Char) (c : Char) : Regex → List Regex → Ways → Ways
  | .chars place s, rest, ways => ways.read c place s rest
  | .seq r s, rest, ways =>
    let ways := r.step before c (s :: rest) ways
    if r.nullable before (some c) then s.step before c rest ways else ways
  | .alt r s, rest, ways => s.step before c rest (r.step before c rest ways)
  | .star r, rest, ways => r.step before c (.star r :: rest) ways
  | _, _, ways => ways

def stepAll (before : Option Char) (c : Char) : List Regex → Ways → Ways
  | [], ways => ways
  | r :: rest, ways =>
    let ways := r.step before c rest ways
    if r.nullable before (some c) then stepAll before c rest ways else ways

def searchFrom (r : Regex) (places : Nat) (live : List (List Regex)) (before : Option Char) :
    List Char → Bool
  | [] => ([r] :: live).any fun parts => parts.all (nullable before none)
  | c :: rest =>
    let now := [r] :: live
    let next := now.foldl (fun ways parts => stepAll before c parts ways)
      ⟨Array.replicate places false, []⟩
    now.any (fun parts => parts.all (nullable before (some c))) ||
      r.searchFrom places next.parts (some c) rest

def repeated (r : Regex) (last : Regex) : Nat → Regex
  | 0 => last
  | count + 1 => r.andThen (repeated r last count)

def optional (r : Regex) : Nat → Regex
  | 0 => .empty
  | count + 1 => Regex.empty.orElse (r.andThen (optional r count))

end Regex

end Pattern

structure Pattern where
  source : String
  regex : Pattern.Regex
  places : Nat
  deriving DecidableEq, Repr

namespace Pattern

def ofRegex (source : String) (regex : Regex) : Pattern :=
  let (regex, places) := regex.numbered 0
  { source, regex, places }

def occursIn (p : Pattern) (s : String) : Bool := p.regex.searchFrom p.places [] none s.toList

end Pattern

end DocStore
