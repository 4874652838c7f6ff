/-!
# Calendar dates

The civil date and time of a moment, given in milliseconds since the start of 1970, in the
proleptic Gregorian calendar. Moments beyond the years -9999 to 9999 are held at the first or the
last nanosecond of those years.
-/

namespace DocStore

structure Moment where
  year : Int
  month : Nat
  day : Nat
  hour : Nat
  minute : Nat
  second : Nat
  nanosecond : Nat
  deriving DecidableEq, Repr

namespace Moment

def millisPerDay : Int := 86400000

/-- Counts in eras of 400 years and in years that start with March, so that the leap day comes
last. -/
def civil (days : Int) : Int × Nat × Nat :=
  let shifted := days + 719468
  let era := shifted / 146097
  let dayOfEra := (shifted % 146097).toNat
  let yearOfEra := (dayOfEra - dayOfEra / 1460 + dayOfEra / 36524 - dayOfEra / 146096) / 365
  let dayOfYear := dayOfEra - (365 * yearOfEra + yearOfEra / 4 - yearOfEra / 100)
  let monthFromMarch := (5 * dayOfYear + 2) / 153
  let day := dayOfYear - (153 * monthFromMarch + 2) / 5 + 1
  let month := if monthFromMarch < 10 then monthFromMarch + 3 else monthFromMarch - 9
  let year := era * 400 + yearOfEra + (if month ≤ 2 then 1 else 0)
  (year, month, day)

def first : Moment := ⟨-9999, 1, 1, 0, 0, 0, 0⟩

def last : Moment := ⟨9999, 12, 31, 23, 59, 59, 999999999⟩

def isInYears (millis : Int) : Bool :=
  (civil (millis / millisPerDay)).1.natAbs ≤ 9999

def ofMillis (millis : Int) : Moment :=
  let (year, month, day) := civil (millis / millisPerDay)
  if year < -9999 then first
  else if 9999 < year then last
  else
    let inDay := (millis % millisPerDay).toNat
    { year, month, day
      hour := inDay / 3600000
      minute := inDay / 60000 % 60
      second := inDay / 1000 % 60
      nanosecond := inDay % 1000 * 1000000 }

def padded (width n : Nat) : String :=
  let digits := toString n
  String.ofList (List.replicate (width - digits.length) '0') ++ digits

def fractionDigits (m : Moment) : String :=
  String.ofList ((padded 9 m.nanosecond).toList.reverse.dropWhile (· == '0')).reverse

def yearText (m : Moment) : String :=
  (if m.year < 0 then "-" else "") ++ padded 4 m.year.natAbs

/-- The form `2023-11-14 22:13:20.12 +00:00:00`, whose fraction has at least one digit. -/
def text (m : Moment) : String :=
  let fraction := m.fractionDigits
  s!"{m.yearText}-{padded 2 m.month}-{padded 2 m.day} {m.hour}:{padded 2 m.minute}:" ++
    s!"{padded 2 m.second}." ++ (if fraction.isEmpty then "0" else fraction) ++ " +00:00:00"

/-- The form `2023-11-14T22:13:20.12Z`, which has no negative years. -/
def timestampText? (m : Moment) : Option String :=
  if m.year < 0 then none
  else
    let fraction := m.fractionDigits
    some (s!"{m.yearText}-{padded 2 m.month}-{padded 2 m.day}T{padded 2 m.hour}:" ++
      s!"{padded 2 m.minute}:{padded 2 m.second}" ++
      (if fraction.isEmpty then "" else "." ++ fraction) ++ "Z")

end Moment

end DocStore
