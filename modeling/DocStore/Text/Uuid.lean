import DocStore.Bytes

/-!
# UUID texts

A UUID is 16 bytes, written as 32 hexadecimal digits or in five groups of them with hyphens between.
The groups may stand in braces or after `urn:uuid:` in letters of either case.
-/

namespace DocStore.Text.Uuid

def group? (count : Nat) (cs : List Char) : Option (List Char × List Char) :=
  match cs.drop count with
  | '-' :: rest => some (cs.take count, rest)
  | _ => none

def grouped? (cs : List Char) : Option Bytes := do
  let (a, cs) ← group? 8 cs
  let (b, cs) ← group? 4 cs
  let (c, cs) ← group? 4 cs
  let (d, cs) ← group? 4 cs
  Bytes.ofHexDigits? (a ++ b ++ c ++ d ++ cs)

def urn : String := "urn:uuid:"

def parse? (s : String) : Option Bytes :=
  let cs := s.toList
  if cs.length = 32 then Bytes.ofHexDigits? cs
  else if cs.length = 36 then grouped? cs
  else if cs.length = 38 ∧ cs.head? = some '\x7b' ∧ cs.getLast? = some '\x7d' then
    grouped? cs.tail.dropLast
  else if cs.length = 45 ∧ (cs.take 9).map Char.toLower = urn.toList then grouped? (cs.drop 9)
  else none

end DocStore.Text.Uuid
