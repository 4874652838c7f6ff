import DocStore.Double.Decimal
import DocStore.Text.Numeral
import DocStore.Value

/-!
# Decimal numbers

The text of a decimal number of 128 bits, and the number that a text stands for. Such a number has
up to 34 digits and a power of ten from -6176 to 6111. A text is read only if that needs no
rounding. One without any digits is zero, and zeros may come before the plus of a coefficient.
-/

namespace DocStore.Decimal128

def maxDigits : Nat := 34

def leastExponent : Int := -6176

def greatestExponent : Int := 6111

/-- Exponent and coefficient of a finite number; a coefficient beyond 34 digits counts as zero. -/
inductive Class where
  | nan
  | infinite
  | finite (exponent : Int) (coefficient : Nat)

def isNegative (d : Decimal128) : Bool := 1 <<< 127 ≤ Bytes.ofLe d.bytes

def classify (d : Decimal128) : Class :=
  let raw := Bytes.ofLe d.bytes % (1 <<< 127)
  let top := raw >>> 122
  if top = 31 then .nan
  else if top = 30 then .infinite
  else if 24 ≤ top then .finite (unbiased ((raw >>> 111) % (1 <<< 14))) 0
  else
    let coefficient := raw % (1 <<< 113)
    .finite (unbiased (raw >>> 113))
      (if coefficient < Decimal.tenPower maxDigits then coefficient else 0)
where
  unbiased (exponent : Nat) : Int := exponent + leastExponent

def finiteText (exponent : Int) (coefficient : Nat) : String :=
  let digits := toString coefficient
  let adjusted : Int := exponent + digits.length - 1
  if exponent ≤ 0 ∧ -6 ≤ adjusted then Decimal.text ⟨coefficient, exponent⟩
  else
    let tail := String.ofList (digits.toList.drop 1)
    String.ofList (digits.toList.take 1) ++ (if tail.isEmpty then "" else "." ++ tail) ++ "E" ++
      (if adjusted < 0 then "" else "+") ++ toString adjusted

def text (d : Decimal128) : String :=
  match d.classify with
  | .nan => "NaN"
  | .infinite => (if d.isNegative then "-" else "") ++ "Infinity"
  | .finite exponent coefficient =>
    (if d.isNegative then "-" else "") ++ finiteText exponent coefficient

def ofBits (negative : Bool) (bits : Nat) : Decimal128 :=
  ⟨Bytes.le 16 (if negative then 1 <<< 127 + bits else bits), Bytes.length_le ..⟩

/-- Leaves out the characters after the first `count`, which must be zeros. -/
def keep? (count : Nat) (cs : List Char) : Option (List Char) :=
  if (cs.drop count).all (· == '0') then some (cs.take count) else none

def withoutZeros (cs : List Char) : List Char :=
  match cs.dropWhile (· == '0') with
  | [] => ['0']
  | rest => rest

/-- Moves the exponent into its range. That adds or leaves out zeros at the end of any coefficient
but a single zero. -/
def fit? (cs : List Char) (exponent : Int) : Option (List Char × Int) :=
  if cs = ['0'] then some (cs, max leastExponent (min greatestExponent exponent))
  else if exponent < leastExponent then do
    let missing := (leastExponent - exponent).toNat
    guard (missing ≤ cs.length)
    pure (← keep? (cs.length - missing) cs, leastExponent)
  else if greatestExponent < exponent then do
    let zeros := (exponent - greatestExponent).toNat
    guard (cs.length + zeros ≤ maxDigits)
    pure (cs ++ List.replicate zeros '0', greatestExponent)
  else some (cs, exponent)

def coefficient? : List Char → Option Nat
  | '+' :: cs => Text.Numeral.nat? cs
  | cs => Text.Numeral.nat? cs

/-- Exponents are counted in 128 bits on the way. -/
def exponent? (n : Int) : Option Int :=
  if -(1 <<< 127 : Nat) ≤ n ∧ n < (1 <<< 127 : Nat) then some n else none

def ofDigits? (negative : Bool) (cs : List Char) : Option Decimal128 := do
  let (significand, exponent) := cs.span fun c => c != 'e'
  let (whole, point) := significand.span fun c => c != '.'
  let fraction := point.drop 1
  let power ← match exponent with
    | [] => some 0
    | _ :: exponent => Text.Numeral.int? exponent >>= exponent?
  let power ← exponent? (power - fraction.length)
  let cs := withoutZeros (whole ++ fraction)
  let excess := cs.length - maxDigits
  let (cs, exponent) ← fit? (← keep? maxDigits cs) (power + excess)
  let coefficient ← coefficient? cs
  pure (ofBits negative ((exponent - leastExponent).toNat <<< 113 + coefficient))

def ofText? (s : String) : Option Decimal128 :=
  let (negative, cs) := Text.Numeral.splitSign (s.toList.map Char.toLower)
  match String.ofList cs with
  | "nan" => some (ofBits negative (31 <<< 122))
  | "snan" => some (ofBits negative (63 <<< 121))
  | "inf" | "infinity" => some (ofBits negative (30 <<< 122))
  | _ => ofDigits? negative cs

end DocStore.Decimal128
