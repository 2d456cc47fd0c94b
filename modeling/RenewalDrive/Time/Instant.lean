import RenewalDrive.Time.Calendar
import RenewalDrive.Time.Span

/-!
# Instants

An instant is a point in time within the years -262143 to 262142, exact to the
nanosecond. A leap second is kept: its fraction runs from one to two seconds on
the last second of a minute. Moving an instant by a span may leave the range of
instants, so `add?` and `sub?` answer with an option.
-/

namespace RenewalDrive

namespace Instant

/-- Seconds from 1970-01-01T00:00:00Z to the first instant, -262143-01-01T00:00:00Z. -/
def firstSecond : Int := -8334601228800

/-- Seconds from 1970-01-01T00:00:00Z to the last second, +262142-12-31T23:59:59Z. -/
def lastSecond : Int := 8210266876799

def InRange (second : Int) (fraction : Nat) : Prop :=
  firstSecond ≤ second ∧ second ≤ lastSecond ∧
    (fraction < Span.perSecond ∨ fraction < 2 * Span.perSecond ∧ second % 60 = 59)

instance (second : Int) (fraction : Nat) : Decidable (InRange second fraction) :=
  inferInstanceAs (Decidable (_ ∧ _ ∧ _))

end Instant

/-- A point in time: whole seconds from 1970-01-01T00:00:00Z, leap seconds not
counted, and the nanoseconds since the beginning of that second. -/
structure Instant where
  second : Int
  fraction : Nat
  inRange : Instant.InRange second fraction
deriving DecidableEq

namespace Instant

def ofParts? (second : Int) (fraction : Nat) : Option Instant :=
  if h : InRange second fraction then some ⟨second, fraction, h⟩ else none

/-- The last instant that is not within a leap second. -/
def latest : Instant :=
  ⟨lastSecond, 999999999, by decide⟩

def day (t : Instant) : Int :=
  t.second / 86400

def secondOfDay (t : Instant) : Nat :=
  (t.second % 86400).toNat

def date (t : Instant) : Date :=
  Date.ofDays t.day

def inLeapSecond (t : Instant) : Bool :=
  Span.perSecond ≤ t.fraction

/-! ## Order -/

/-- Earlier or equal: by the second, then by the fraction. -/
protected def le (a b : Instant) : Prop :=
  a.second < b.second ∨ a.second = b.second ∧ a.fraction ≤ b.fraction

protected def lt (a b : Instant) : Prop :=
  a.second < b.second ∨ a.second = b.second ∧ a.fraction < b.fraction

instance : LE Instant := ⟨Instant.le⟩
instance : LT Instant := ⟨Instant.lt⟩

instance (a b : Instant) : Decidable (a ≤ b) :=
  inferInstanceAs (Decidable (_ ∨ _))

instance (a b : Instant) : Decidable (a < b) :=
  inferInstanceAs (Decidable (_ ∨ _))

def earlier (a b : Instant) : Instant :=
  if b < a then b else a

/-! ## Moving -/

/-- Nanoseconds from 1970-01-01T00:00:00Z; the second half of a leap second reads
as the second that follows it. -/
def reading (t : Instant) : Int :=
  t.second * Span.perSecond + t.fraction

/-- The instant with the given reading that is in no leap second. -/
def ofReading? (nanoseconds : Int) : Option Instant :=
  ofParts? (nanoseconds / Span.perSecond) (nanoseconds % Span.perSecond).toNat

/-- The instant that lies a span later. A move that stays within a leap second
keeps its second; one that leaves it forward counts from the second before, and
one that leaves it backward from the second after. -/
def add? (t : Instant) (span : Span) : Option Instant :=
  if t.inLeapSecond then
    let fraction := t.fraction + span.subsecond
    if 0 < span.wholeSeconds ∨ 0 < span.subsecond ∧ 2 * (Span.perSecond : Int) ≤ fraction then
      ofReading? (t.reading - Span.perSecond + span.nanoseconds)
    else if span.wholeSeconds < 0 then
      ofReading? (t.reading + span.nanoseconds)
    else ofParts? t.second fraction.toNat
  else ofReading? (t.reading + span.nanoseconds)

def sub? (t : Instant) (span : Span) : Option Instant :=
  t.add? span.negate

/-- The whole seconds that a leap second adds between two instants, judged by
their seconds within the day. -/
def leapBetween (a b : Instant) : Int :=
  if b.secondOfDay < a.secondOfDay then if b.inLeapSecond then 1 else 0
  else if a.secondOfDay < b.secondOfDay then if a.inLeapSecond then -1 else 0
  else 0

def since (a b : Instant) : Span :=
  ⟨a.reading - b.reading + a.leapBetween b * Span.perSecond⟩

end Instant
end RenewalDrive
