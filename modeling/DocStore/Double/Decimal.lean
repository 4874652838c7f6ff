import DocStore.Double

/-!
# Decimal text of a double

A double is written with the fewest digits that read back as the same double, the nearest such
decimal if there are several, and never with an exponent. The reals that round to the double form an
interval, whose ends belong to it when the significand is even. The grids of 1, 2, … 17 digits are
tried in turn, and on each only the two neighbours of the value can lie in the interval.
-/

namespace DocStore

structure Decimal where
  digits : Nat
  power : Int
  deriving DecidableEq, Repr

namespace Decimal

def tenPower (n : Nat) : Nat := Nat.pow 10 n

def compareRatio (d : Decimal) (num den : Nat) : Ordering :=
  if 0 ≤ d.power then compare (d.digits * tenPower d.power.toNat * den) num
  else compare (d.digits * den) (num * tenPower (-d.power).toNat)

def trimWith : Nat → Decimal → Decimal
  | 0, d => d
  | fuel + 1, d =>
    if d.digits % 10 = 0 then trimWith fuel ⟨d.digits / 10, d.power + 1⟩ else d

def trim (d : Decimal) : Decimal := trimWith 20 d

def text (d : Decimal) : String :=
  let digits := (toString d.digits).toList
  let whole : Int := digits.length + d.power
  if 0 ≤ d.power then String.ofList (digits ++ List.replicate d.power.toNat '0')
  else if 0 < whole then
    String.ofList (digits.take whole.toNat ++ '.' :: digits.drop whole.toNat)
  else String.ofList ('0' :: '.' :: List.replicate (-whole).toNat '0' ++ digits)

end Decimal

namespace Double

/-- The reals that round to one double: `low / den` to `high / den` around `value / den`. -/
structure Interval where
  low : Nat
  value : Nat
  high : Nat
  den : Nat
  closed : Bool

/-- The interval of a finite positive double. Below a power of two the gap is half as wide. -/
def interval (x : Double) : Interval :=
  let (significand, power) := x.decompose
  let below := if significand = hiddenBit ∧ 0 < power then 1 else 2
  { low := (4 * significand - below) <<< power
    value := (4 * significand) <<< power
    high := (4 * significand + 2) <<< power
    den := 4 * unit
    closed := significand % 2 == 0 }

def Interval.contains (i : Interval) (d : Decimal) : Bool :=
  let low := d.compareRatio i.low i.den
  let high := d.compareRatio i.high i.den
  (low == .gt || i.closed && low == .eq) && (high == .lt || i.closed && high == .eq)

def leadingPlaces : Nat → Nat → Nat → Nat
  | 0, _, _ => 0
  | fuel + 1, num, den => if den ≤ num then 0 else 1 + leadingPlaces fuel (num * 10) den

def decimalExponent (num den : Nat) : Int :=
  if den ≤ num then ((toString (num / den)).length : Int) - 1
  else -(leadingPlaces 400 num den : Int)

/-- The neighbour of the value on the grid `10 ^ power` that reads back, the nearer if both do. -/
def Interval.onGrid? (i : Interval) (power : Int) : Option Decimal :=
  let floor :=
    if 0 ≤ power then i.value / (i.den * Decimal.tenPower power.toNat)
    else i.value * Decimal.tenPower (-power).toNat / i.den
  let down : Decimal := ⟨floor, power⟩
  let up : Decimal := ⟨floor + 1, power⟩
  match i.contains down, i.contains up with
  | true, true =>
    let middle : Decimal := ⟨10 * floor + 5, power - 1⟩
    some (if middle.compareRatio i.value i.den == .gt then down else up)
  | true, false => some down
  | false, true => some up
  | false, false => none

def Interval.shortestOf (i : Interval) (first : Int) : List Nat → Decimal
  | [] => ⟨0, 0⟩
  | count :: rest => (i.onGrid? (first - count + 1)).getD (i.shortestOf first rest)

def shortest (x : Double) : Decimal :=
  let i := x.interval
  (i.shortestOf (decimalExponent i.value i.den) ((List.range 17).map (· + 1))).trim

def text (x : Double) : String :=
  if x.isNaN then "NaN"
  else
    let sign := if x.isNegative then "-" else ""
    if x.isInfinite then sign ++ "inf"
    else if x.magnitude = 0 then sign ++ "0"
    else sign ++ x.shortest.text

end Double

end DocStore
