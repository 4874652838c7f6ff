import DocStore.Calendar
import DocStore.Text.Numeral

/-!
# Reading timestamps

A timestamp is a civil date and time of the years 0 to 9999 with its distance from UTC, such as
`2023-11-14T22:13:20.12+01:00`. Any ASCII character may stand between date and time. A leap second
is allowed at the end of a month of UTC and counts as the last nanosecond before it.
-/

namespace DocStore

namespace Moment

def daysOfCivil (year : Int) (month day : Nat) : Int :=
  let year := if month ≤ 2 then year - 1 else year
  let era := year / 400
  let yearOfEra := year % 400
  let monthFromMarch := if month ≤ 2 then month + 9 else month - 3
  let dayOfYear := (153 * monthFromMarch + 2) / 5 + day - 1
  let dayOfEra := 365 * yearOfEra + yearOfEra / 4 - yearOfEra / 100 + dayOfYear
  146097 * era + dayOfEra - 719468

/-- Dates that the calendar does not have count on into the next month. -/
def isCivil (year : Int) (month day : Nat) : Bool :=
  1 ≤ month && month ≤ 12 && 1 ≤ day && civil (daysOfCivil year month day) == (year, month, day)

end Moment

namespace Timestamp

def symbol? (c : Char) : List Char → Option (List Char)
  | [] => none
  | d :: rest => if c == d then some rest else none

def twoPairs? (c : Char) (cs : List Char) : Option (Nat × Nat × List Char) := do
  let (first, cs) ← Text.Numeral.fixed? 2 cs
  let (second, cs) ← Text.Numeral.fixed? 2 (← symbol? c cs)
  pure (first, second, cs)

/-- The nanoseconds that a fraction of a second stands for. Digits after the ninth do not count. -/
def fraction? : List Char → Option (Nat × List Char)
  | '.' :: cs => do
    let (digits, rest) := cs.span Char.isDigit
    guard !digits.isEmpty
    let nanos ← Text.Numeral.nat? ((digits ++ List.replicate 9 '0').take 9)
    pure (nanos, rest)
  | cs => some (0, cs)

def offset? : List Char → Option (Int × List Char)
  | [] => none
  | c :: cs =>
    if c == 'Z' || c == 'z' then some (0, cs)
    else do
      guard (c == '+' || c == '-')
      let (hours, minutes, cs) ← twoPairs? ':' cs
      guard (hours ≤ 23 && minutes ≤ 59)
      let seconds : Int := 3600 * hours + 60 * minutes
      pure (if c == '-' then -seconds else seconds, cs)

def endsMonth (second : Int) : Bool :=
  let (_, _, day) := Moment.civil ((second + 1) / 86400)
  (second + 1) % 86400 == 0 && day == 1

/-- The milliseconds since the start of 1970. What is below a millisecond is cut off. -/
def millis? (s : String) : Option Int := do
  let (year, cs) ← Text.Numeral.fixed? 4 s.toList
  let (month, day, cs) ← twoPairs? '-' (← symbol? '-' cs)
  guard (Moment.isCivil year month day)
  let separator ← cs.head?
  guard (separator.val < 128)
  let (hour, minute, cs) ← twoPairs? ':' cs.tail
  let (second, cs) ← Text.Numeral.fixed? 2 (← symbol? ':' cs)
  guard (hour ≤ 23 && minute ≤ 59 && second ≤ 60)
  let (nanos, cs) ← fraction? cs
  let (offset, cs) ← offset? cs
  guard cs.isEmpty
  let minutes : Int := 60 * (24 * Moment.daysOfCivil year month day + hour) + minute
  let start := 60 * minutes - offset
  if second = 60 then
    guard (endsMonth (start + 59))
    pure (((start + 59) * 1000000000 + 999999999).tdiv 1000000)
  else pure (((start + second) * 1000000000 + nanos).tdiv 1000000)

end Timestamp

end DocStore
