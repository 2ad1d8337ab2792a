import ChangeRelay.Number.Numeral

/-!
# Durations

Lengths of time in whole nanoseconds, and how they are worded.

A `Duration` is such a length, and `text` is how it is shown in errors.
-/

namespace ChangeRelay

/-- A length of time in nanoseconds. -/
abbrev Duration := Nat

namespace Duration

def ofMillis (n : Nat) : Duration := n * 1000000

def ofSeconds (n : Nat) : Duration := n * 1000000000

/-- Whole milliseconds; a part of one counts as one. -/
def toMillis (d : Duration) : Nat := (d + 999999) / 1000000

/-- The longest duration there is; longer ones are cut down to it. -/
def longest : Duration := ofSeconds UInt64.size - 1

def thirtyYears : Duration := ofSeconds (30 * 365 * 24 * 60 * 60)

/-- The last millisecond that a timer can be set to. -/
def lastTick : Nat := UInt64.size - 3

/-- When a wait that begins at the millisecond `now` is over: at the end of its last millisecond,
and no later than a timer can be set to. A wait beyond the seconds that a clock counts lasts thirty
years. -/
def dueAt (now : Nat) (d : Duration) : Nat :=
  let wait := if ofSeconds 0x8000000000000000 ≤ ofMillis now + d then thirtyYears else d
  min (now + wait.toMillis) lastTick

/-- `n` units of `10 ^ places` nanoseconds each: the whole units, and behind a point the rest of
them without zeros at the end. -/
def inUnits (n places : Nat) : Numeral :=
  let rest := Digits.ofNat (n % Nat.pow 10 places)
  let padded := List.replicate (places - rest.length) Digit.zero ++ rest
  ⟨false, Digits.ofNat (n / Nat.pow 10 places),
    (padded.reverse.dropWhile (· = Digit.zero)).reverse, none⟩

/-- A duration in the largest unit of which it holds a whole one. -/
def text (d : Duration) : String :=
  if 1000000000 ≤ d then (inUnits d 9).text ++ "s"
  else if 1000000 ≤ d then (inUnits d 6).text ++ "ms"
  else if 1000 ≤ d then (inUnits d 3).text ++ "µs"
  else decimal d ++ "ns"

end Duration

end ChangeRelay
