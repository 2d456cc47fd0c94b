import RenewalDrive.Time.Instant

/-!
# Instants as RFC 2822 texts

The form of dates in mail headers, such as `Tue, 3 Mar 2026 12:00:00 +0000`. It
has four digits for the year, so only the years 0 to 9999 can be written.
-/

namespace RenewalDrive
namespace Rfc2822

def dayNames : List String :=
  ["Sun", "Mon", "Tue", "Wed", "Thu", "Fri", "Sat"]

def monthNames : List String :=
  ["Jan", "Feb", "Mar", "Apr", "May", "Jun", "Jul", "Aug", "Sep", "Oct", "Nov", "Dec"]

/-- The written form of an instant in UTC, for the years that have one. -/
def write? (t : Instant) : Option String :=
  let date := t.date
  let second := t.secondOfDay % 60
  if 0 ≤ date.year ∧ date.year ≤ 9999 then
    some <| dayNames.getD (Date.weekday t.day) "" ++ ", " ++ Text.naturalText date.day ++ " " ++
      monthNames.getD (date.month - 1) "" ++ " " ++
      String.ofList
        (Text.paddedNumeral 4 date.year.natAbs ++
          ' ' :: Text.paddedNumeral 2 (t.secondOfDay / 3600) ++
          ':' :: Text.paddedNumeral 2 (t.secondOfDay / 60 % 60) ++
          ':' :: Text.paddedNumeral 2 (if t.inLeapSecond then second + 1 else second)) ++
      " +0000"
  else none

end Rfc2822
end RenewalDrive
