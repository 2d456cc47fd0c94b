import RenewalDrive.Text.Numeral

/-!
# Spans of time

A span is a signed amount of time, exact to the nanosecond. Whole seconds and
whole milliseconds of a span are counted toward zero. `Span.phrase` is its text
in logs and reports, such as `2 days 3 hours`.
-/

namespace RenewalDrive

/-- A signed amount of time in nanoseconds. -/
structure Span where
  nanoseconds : Int
deriving DecidableEq

namespace Span

def perSecond : Nat := 1000000000

def perMillisecond : Nat := 1000000

def zero : Span := ⟨0⟩

def ofSeconds (seconds : Int) : Span :=
  ⟨seconds * perSecond⟩

/-- The whole seconds of a span, counted toward zero. -/
def wholeSeconds (span : Span) : Int :=
  span.nanoseconds.tdiv perSecond

/-- What is left of a span beside its whole seconds, with the sign of the span. -/
def subsecond (span : Span) : Int :=
  span.nanoseconds.tmod perSecond

def wholeMilliseconds (span : Span) : Int :=
  span.nanoseconds.tdiv perMillisecond

/-- The milliseconds of a span that is no less than zero, rounded up. -/
def ceilMilliseconds (span : Span) : Nat :=
  (span.nanoseconds.toNat + (perMillisecond - 1)) / perMillisecond

def negate (span : Span) : Span :=
  ⟨-span.nanoseconds⟩

def half (span : Span) : Span :=
  ⟨span.nanoseconds / 2⟩

/-- A span as a time to wait: what is negative is no wait at all. -/
def wait (span : Span) : Span :=
  if span.nanoseconds < 0 then zero else span

/-! ## Limits -/

def limitMilliseconds : Nat := 9223372036854775807

def InLimits (span : Span) : Prop :=
  span.nanoseconds.natAbs ≤ limitMilliseconds * perMillisecond

instance (span : Span) : Decidable span.InLimits :=
  inferInstanceAs (Decidable (_ ≤ _))

/-- A number of units of the given length in seconds, if that stays within the
limits. -/
def ofUnits? (unitSeconds count : Nat) : Option Span :=
  let span := ofSeconds (count * unitSeconds)
  if span.InLimits then some span else none

/-! ## Text -/

inductive Unit where
  | day
  | hour
  | minute
  | second
deriving DecidableEq

def Unit.seconds : Unit -> Nat
  | .day => 86400
  | .hour => 3600
  | .minute => 60
  | .second => 1

def Unit.name : Unit -> String
  | .day => "day"
  | .hour => "hour"
  | .minute => "minute"
  | .second => "second"

/-- A count of units; the plural has an `s`. -/
def Unit.counted (unit : Unit) (count : Nat) : List Char :=
  Text.numeral count ++ ' ' :: unit.name.toList ++ if count = 1 then [] else ['s']

/-- How many of each unit a number of seconds holds; each count stays below the
next longer unit. -/
def unitCounts (seconds : Nat) : List (Unit × Nat) :=
  [(.day, seconds / 86400), (.hour, seconds % 86400 / 3600), (.minute, seconds % 3600 / 60),
    (.second, seconds % 60)]

/-- The text of a span of at least one second: its counts that are not zero. -/
def countsText (seconds : Nat) : List Char :=
  let counts := (unitCounts seconds).filter fun part => part.2 ≠ 0
  (counts.map fun part => part.1.counted part.2).intersperse [' '] |>.flatten

/-- The text of a span: days, hours, minutes and seconds, or milliseconds when
there is no whole second. A negative number of whole seconds has a minus sign. -/
def phrase (span : Span) : String :=
  let seconds := span.wholeSeconds
  String.ofList <|
    if seconds = 0 then Text.numeral span.wholeMilliseconds.natAbs ++ [' ', 'm', 's']
    else if seconds < 0 then '-' :: countsText seconds.natAbs
    else countsText seconds.natAbs

end Span
end RenewalDrive
