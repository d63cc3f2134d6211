/-!
Durations: a count of one unit of time. A year has 365 days.
-/

namespace EdgeQuery

inductive DurationUnit
  | nanoseconds | microseconds | milliseconds | seconds | minutes | hours | days | weeks | years
deriving DecidableEq, Repr

namespace DurationUnit

/-- The suffix that a duration of this unit is written with. -/
def text : DurationUnit → String
  | nanoseconds => "ns"
  | microseconds => "µs"
  | milliseconds => "ms"
  | seconds => "s"
  | minutes => "m"
  | hours => "h"
  | days => "d"
  | weeks => "w"
  | years => "y"

/-- Every suffix that is read, with its unit. Microseconds have two, one with the micro sign
U+00B5 and one with the Greek letter U+03BC. -/
def suffixes : List (List Char × DurationUnit) :=
  [(['n', 's'], nanoseconds), (['µ', 's'], microseconds), (['μ', 's'], microseconds),
    (['m', 's'], milliseconds), (['s'], seconds), (['m'], minutes), (['h'], hours),
    (['d'], days), (['w'], weeks), (['y'], years)]

/-- The length of one unit in nanoseconds. -/
def nanos : DurationUnit → Nat
  | nanoseconds => 1
  | microseconds => 1000
  | milliseconds => 1000000
  | seconds => 1000000000
  | minutes => 60 * 1000000000
  | hours => 3600 * 1000000000
  | days => 86400 * 1000000000
  | weeks => 7 * 86400 * 1000000000
  | years => 365 * 86400 * 1000000000

end DurationUnit

structure Duration where
  value : UInt64
  unit : DurationUnit
deriving DecidableEq, Repr

/-- A time in whole seconds, held in 64 bits, and nanoseconds. -/
structure SecondsAndNanos where
  seconds : UInt64
  nanos : Nat
deriving DecidableEq, Repr

namespace Duration

def text (duration : Duration) : String :=
  toString duration.value.toNat ++ duration.unit.text

def totalNanos (duration : Duration) : Nat :=
  duration.value.toNat * duration.unit.nanos

/-- The exact time in seconds and nanoseconds, unless the seconds overflow. -/
def toSeconds? (duration : Duration) : Option SecondsAndNanos :=
  let seconds := duration.totalNanos / 1000000000
  if h : seconds < UInt64.size then
    some ⟨UInt64.ofNatLT seconds h, duration.totalNanos % 1000000000⟩
  else none

end Duration
end EdgeQuery
