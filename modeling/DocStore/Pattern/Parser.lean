import DocStore.Pattern

/-!
# Reading patterns

The written form of patterns: literals, escapes, the dot, classes in brackets, groups, alternatives,
repetition and the flag `i`, which ignores case up to the end of the group it stands in. A text that
is no pattern reads as `none`.
-/

namespace DocStore.Pattern

def literal (anyCase : Bool) (c : Char) : Regex := .chars 0 ⟨false, [.range c c], anyCase⟩

def anyChar : Regex := .chars 0 ⟨true, [.range '\n' '\n'], false⟩

def controlOf? : Char → Option Char
  | 'n' => some '\n'
  | 't' => some '\t'
  | 'r' => some '\r'
  | 'f' => some '\x0c'
  | 'v' => some '\x0b'
  | 'a' => some '\x07'
  | _ => none

def classOf? : Char → Option ClassItem
  | 'd' => some (.digit false)
  | 'D' => some (.digit true)
  | 'w' => some (.word false)
  | 'W' => some (.word true)
  | 's' => some (.blank false)
  | 'S' => some (.blank true)
  | _ => none

/-- An escape outside of brackets. Other letters and digits have no meaning. -/
def escape? (anyCase : Bool) (c : Char) : Option Regex :=
  match classOf? c, controlOf? c with
  | some item, _ => some (.chars 0 ⟨false, [item], false⟩)
  | none, some control => some (literal anyCase control)
  | none, none =>
    if c = 'b' then some (.wordEdge false)
    else if c = 'B' then some (.wordEdge true)
    else if c = 'A' then some .textStart
    else if c = 'z' then some .textEnd
    else if c.isAlphanum then none
    else some (literal anyCase c)

def classChar? : List Char → Option (Char × List Char)
  | '\\' :: c :: rest =>
    match controlOf? c with
    | some control => some (control, rest)
    | none => if c.isAlphanum then none else some (c, rest)
  | c :: rest => some (c, rest)
  | [] => none

/-- The items up to the closing bracket; one that comes first is an item itself. -/
def classItems? : Nat → Bool → List Char → Option (List ClassItem × List Char)
  | 0, _, _ => none
  | _, _, [] => none
  | fuel + 1, isFirst, c :: rest =>
    if c = ']' ∧ isFirst = false then some ([], rest)
    else
      match c, rest with
      | '\\', e :: rest' =>
        match classOf? e with
        | some item => do
          let (items, rest) ← classItems? fuel false rest'
          pure (item :: items, rest)
        | none => rangeThen? fuel (c :: rest)
      | _, _ => rangeThen? fuel (c :: rest)
where
  rangeThen? (fuel : Nat) (cs : List Char) : Option (List ClassItem × List Char) := do
    let (first, rest) ← classChar? cs
    match rest with
    | '-' :: ']' :: _ =>
      let (items, rest) ← classItems? fuel false rest
      pure (.range first first :: items, rest)
    | '-' :: rest' =>
      let (last, rest) ← classChar? rest'
      let (items, rest) ← classItems? fuel false rest
      pure (.range first last :: items, rest)
    | _ =>
      let (items, rest) ← classItems? fuel false rest
      pure (.range first first :: items, rest)

def class? (anyCase : Bool) (cs : List Char) : Option (Regex × List Char) :=
  match cs with
  | '^' :: rest => do
    let (items, rest) ← classItems? (rest.length + 1) true rest
    pure (.chars 0 ⟨true, items, anyCase⟩, rest)
  | _ => do
    let (items, rest) ← classItems? (cs.length + 1) true cs
    pure (.chars 0 ⟨false, items, anyCase⟩, rest)

def number? (cs : List Char) : Option (Nat × List Char) :=
  let digits := cs.takeWhile Char.isDigit
  if digits.isEmpty then none
  else some (digits.foldl (fun n c => 10 * n + (c.toNat - 48)) 0, cs.dropWhile Char.isDigit)

def counts? (cs : List Char) : Option ((Nat × Option Nat) × List Char) := do
  let (least, rest) ← number? cs
  match rest with
  | '\x7d' :: rest => pure ((least, some least), rest)
  | ',' :: '\x7d' :: rest => pure ((least, none), rest)
  | ',' :: rest =>
    let (most, rest) ← number? rest
    match rest with
    | '\x7d' :: rest => if least ≤ most then pure ((least, some most), rest) else none
    | _ => none
  | _ => none

/-- Asking for few repetitions first changes no answer of a search. -/
def dropLazy : List Char → List Char
  | '?' :: rest => rest
  | cs => cs

def repetitions? : Nat → Regex → List Char → Option (Regex × List Char)
  | 0, _, _ => none
  | fuel + 1, r, cs =>
    match cs with
    | '*' :: rest => repetitions? fuel (.star r) (dropLazy rest)
    | '+' :: rest => repetitions? fuel (r.andThen (.star r)) (dropLazy rest)
    | '?' :: rest => repetitions? fuel (Regex.empty.orElse r) (dropLazy rest)
    | '\x7b' :: rest => do
      let ((least, most), rest) ← counts? rest
      let tail := match most with
        | none => .star r
        | some most => r.optional (most - least)
      repetitions? fuel (r.repeated tail least) (dropLazy rest)
    | _ => some (r, cs)

inductive Opening where
  | group (anyCase : Bool) (rest : List Char)
  | flag (anyCase : Bool) (rest : List Char)

def opening? (anyCase : Bool) : List Char → Option Opening
  | '?' :: ':' :: rest => some (.group anyCase rest)
  | '?' :: 'i' :: ')' :: rest => some (.flag true rest)
  | '?' :: 'i' :: ':' :: rest => some (.group true rest)
  | '?' :: '-' :: 'i' :: ')' :: rest => some (.flag false rest)
  | '?' :: '-' :: 'i' :: ':' :: rest => some (.group false rest)
  | '?' :: 'P' :: '<' :: rest => named rest
  | '?' :: '<' :: rest => named rest
  | '?' :: _ => none
  | rest => some (.group anyCase rest)
where
  named (rest : List Char) : Option Opening :=
    match rest.dropWhile (· != '>') with
    | _ :: rest => some (.group anyCase rest)
    | [] => none

/-- Reads alternatives up to the end of the group. `alts` holds those before, `done` the parts of
the current one. -/
def group? : Nat → Bool → Regex → Regex → List Char → Option (Regex × List Char)
  | 0, _, _, _, _ => none
  | fuel + 1, anyCase, alts, done, cs =>
    match cs with
    | [] => some (alts.orElse done, [])
    | ')' :: _ => some (alts.orElse done, cs)
    | '|' :: rest => group? fuel anyCase (alts.orElse done) .empty rest
    | '(' :: rest =>
      match opening? anyCase rest with
      | none => none
      | some (.flag anyCase rest) => group? fuel anyCase alts done rest
      | some (.group inner rest) =>
        match group? fuel inner .never .empty rest with
        | some (r, ')' :: rest) => part fuel anyCase alts done r rest
        | _ => none
    | '[' :: rest => do
      let (r, rest) ← class? anyCase rest
      part fuel anyCase alts done r rest
    | '.' :: rest => part fuel anyCase alts done anyChar rest
    | '^' :: rest => part fuel anyCase alts done .textStart rest
    | '$' :: rest => part fuel anyCase alts done .textEnd rest
    | '\\' :: c :: rest => do
      let r ← escape? anyCase c
      part fuel anyCase alts done r rest
    | c :: rest =>
      if c = '\\' ∨ c = '*' ∨ c = '+' ∨ c = '?' ∨ c = '\x7b' then none
      else part fuel anyCase alts done (literal anyCase c) rest
where
  part (fuel : Nat) (anyCase : Bool) (alts done r : Regex) (rest : List Char) :
      Option (Regex × List Char) := do
    let (r, rest) ← repetitions? (rest.length + 1) r rest
    group? fuel anyCase alts (done.andThen r) rest

def ofString? (source : String) : Option Pattern :=
  let cs := source.toList
  match group? (2 * cs.length + 2) false .never .empty cs with
  | some (regex, []) => some (ofRegex source regex)
  | _ => none

end DocStore.Pattern
