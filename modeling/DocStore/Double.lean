/-!
# Double-precision numbers

A double is its 64 bits, so a stored NaN keeps its payload. Every operation is exact integer
arithmetic on the fields of those bits, followed by one rounding to the nearest double with ties to
the even neighbour. `scaled` is the value of a finite double in units of `2 ^ (-1074)`, the smallest
positive double, so all finite doubles are whole numbers there.
-/

namespace DocStore

structure Double where
  bits : UInt64
  deriving DecidableEq, Repr, Inhabited

namespace Double

def signBit : Nat := 0x8000000000000000

def infinityBits : Nat := 0x7ff0000000000000

def hiddenBit : Nat := 0x10000000000000

def isNegative (x : Double) : Bool := signBit ≤ x.bits.toNat

/-- The bits below the sign. They order the values of one sign by size. -/
def magnitude (x : Double) : Nat := x.bits.toNat % signBit

def isNaN (x : Double) : Bool := infinityBits < x.magnitude

def isInfinite (x : Double) : Bool := x.magnitude == infinityBits

def isFinite (x : Double) : Bool := x.magnitude < infinityBits

def decompose (x : Double) : Nat × Nat :=
  let fraction := x.magnitude % hiddenBit
  let exponent := x.magnitude / hiddenBit
  if exponent = 0 then (fraction, 0) else (hiddenBit + fraction, exponent - 1)

/-- The value of a finite double in units of `2 ^ (-1074)`. -/
def scaled (x : Double) : Int :=
  let (significand, power) := x.decompose
  let size : Int := (significand <<< power : Nat)
  if x.isNegative then -size else size

def unit : Nat := 1 <<< 1074

def ofMagnitude (negative : Bool) (magnitude : Nat) : Double :=
  ⟨UInt64.ofNat (if negative then signBit + magnitude else magnitude)⟩

def nan : Double := ofMagnitude false (infinityBits + hiddenBit / 2)

def zero : Double := ⟨0⟩

/-- The quotient rounded to the nearest whole number, a half to the even neighbour. -/
def roundQuotient (num den : Nat) : Nat :=
  let quotient := num / den
  let rest := num % den
  if 2 * rest < den then quotient
  else if den < 2 * rest then quotient + 1
  else quotient + quotient % 2

/-- The greatest `e` with `2 ^ e ≤ num / den`, for a positive quotient. -/
def binaryExponent (num den : Nat) : Int :=
  let e : Int := (num.log2 : Int) - den.log2
  let small : Bool := if 0 ≤ e then num < den <<< e.toNat else num <<< (-e).toNat < den
  if small then e - 1 else e

/-- The double nearest to `num / den`, with the given sign. The carry of a significand that rounds
up to the next power of two moves into the exponent field by plain addition. -/
def ofRatio (negative : Bool) (num den : Nat) : Double :=
  if num = 0 then ofMagnitude negative 0
  else
    let e := max (binaryExponent num den) (-1022)
    let ulp := e - 52
    let significand :=
      if 0 ≤ ulp then roundQuotient num (den <<< ulp.toNat)
      else roundQuotient (num <<< (-ulp).toNat) den
    let magnitude := (e + 1022).toNat * hiddenBit + significand
    ofMagnitude negative (min magnitude infinityBits)

def ofInt (n : Int) : Double := ofRatio (n < 0) n.natAbs 1

/-- A sum of finite doubles that is exactly zero is negative only when both are. -/
def add (x y : Double) : Double :=
  if x.isNaN || y.isNaN then nan
  else if x.isInfinite then
    if y.isInfinite && x.isNegative != y.isNegative then nan else x
  else if y.isInfinite then y
  else
    let sum := x.scaled + y.scaled
    if sum = 0 then ofMagnitude (x.isNegative && y.isNegative) 0
    else ofRatio (sum < 0) sum.natAbs unit

def divNat (x : Double) (n : Nat) : Double :=
  if x.isNaN then nan
  else if x.isInfinite then x
  else ofRatio x.isNegative x.scaled.natAbs (unit * n)

def wholeBelow? (x : Double) (bound : Nat) : Option Int :=
  if x.isFinite && x.scaled % unit == 0 && x.scaled.natAbs < bound * unit then
    some (x.scaled / unit)
  else none

def place (x : Double) : Int := if x.isNegative then -(x.magnitude : Int) else x.magnitude

/-- Places all bit patterns on a line: negative NaNs first, then the negative numbers, `-0`, `0`,
the positive numbers and the positive NaNs. -/
def totalPlace (x : Double) : Int :=
  if x.isNegative then -(x.magnitude : Int) - 1 else x.magnitude

/-- Compares as numbers, and by bit pattern once a NaN is involved. -/
def compare (x y : Double) : Ordering :=
  if x.isNaN || y.isNaN then Ord.compare x.totalPlace y.totalPlace
  else Ord.compare x.place y.place

/-- Numeric equality: the zeros are equal, and a NaN equals nothing. -/
def eqv (x y : Double) : Bool := !x.isNaN && !y.isNaN && x.place == y.place

def quietBit : Nat := 0x8000000000000

/-- Widens a single-precision number. A NaN becomes quiet and keeps the rest of its payload. -/
def ofSingle (bits : UInt32) : Double :=
  let raw := bits.toNat
  let negative := 0x80000000 ≤ raw
  let exponent := raw / 0x800000 % 256
  let fraction := raw % 0x800000
  if exponent = 255 then
    let payload := if fraction = 0 then 0 else fraction <<< 29 ||| quietBit
    ofMagnitude negative (infinityBits + payload)
  else
    let size := if exponent = 0 then fraction else (0x800000 + fraction) <<< (exponent - 1)
    ofRatio negative size (1 <<< 149)

end Double

end DocStore
