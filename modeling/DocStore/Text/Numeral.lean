/-!
# Numerals

Whole numbers written in decimal digits.
-/

namespace DocStore.Text.Numeral

/-- At least one digit, and nothing else. -/
def nat? : List Char → Option Nat
  | [] => none
  | cs => cs.foldlM (fun n c => if c.isDigit then some (10 * n + (c.toNat - 48)) else none) 0

def fixed? (count : Nat) (cs : List Char) : Option (Nat × List Char) := do
  guard (count ≤ cs.length)
  let n ← nat? (cs.take count)
  pure (n, cs.drop count)

def splitSign : List Char → Bool × List Char
  | '-' :: cs => (true, cs)
  | '+' :: cs => (false, cs)
  | cs => (false, cs)

def int? (cs : List Char) : Option Int :=
  let (negative, digits) := splitSign cs
  (nat? digits).map fun n => if negative then -(n : Int) else n

end DocStore.Text.Numeral
