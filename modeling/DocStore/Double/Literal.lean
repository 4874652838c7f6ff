import DocStore.Double.Decimal
import DocStore.Text.Numeral

/-!
# Reading doubles

The double that a numeral stands for: digits with an optional point, sign and exponent, or a word
for infinity or NaN in letters of either case. The nearest double is taken, of two the even one.
-/

namespace DocStore.Double

/-- The double nearest to `digits * 10 ^ power`. The number of places before the point decides alone
what is far beyond the range of doubles. -/
def ofDecimal (negative : Bool) (digits : Nat) (power : Int) : Double :=
  let places : Int := (toString digits).length + power
  if digits = 0 ∨ places < -400 then ofMagnitude negative 0
  else if 400 < places then ofMagnitude negative infinityBits
  else if 0 ≤ power then ofRatio negative (digits * Decimal.tenPower power.toNat) 1
  else ofRatio negative digits (Decimal.tenPower (-power).toNat)

def ofDigits? (negative : Bool) (cs : List Char) : Option Double := do
  let (significand, exponent) := cs.span fun c => c != 'e'
  let (whole, point) := significand.span fun c => c != '.'
  let fraction := point.drop 1
  let digits ← Text.Numeral.nat? (whole ++ fraction)
  let power ← match exponent with
    | [] => some 0
    | _ :: exponent => Text.Numeral.int? exponent
  pure (ofDecimal negative digits (power - fraction.length))

def ofText? (s : String) : Option Double :=
  let (negative, cs) := Text.Numeral.splitSign (s.toList.map Char.toLower)
  match String.ofList cs with
  | "nan" => some (ofMagnitude negative nan.magnitude)
  | "inf" | "infinity" => some (ofMagnitude negative infinityBits)
  | _ => ofDigits? negative cs

end DocStore.Double
