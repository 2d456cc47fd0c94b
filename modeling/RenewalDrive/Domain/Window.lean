import RenewalDrive.Domain.Credential
import RenewalDrive.Text.Blank

/-!
# Renew windows

A renew window says how long before expiry a renewal is due: a share of the
lifetime, or a fixed span. Its text is a percentage, such as `33%`, or a number of
days, hours, minutes or seconds, such as `14d`; a bare number counts days.
-/

namespace RenewalDrive

inductive RenewWindow where
  /-- A share of the lifetime, in hundredths. -/
  | percent (share : Nat)
  | fixed (span : Span)
deriving DecidableEq

namespace RenewWindow

/-- A third of the lifetime, in hundredths. -/
def default : RenewWindow :=
  .percent 33

/-- The span before expiry at which a renewal is due. The share is taken of the
whole seconds of the lifetime, rounded down; a negative lifetime counts as none. -/
def lead (window : RenewWindow) (credential : Credential) : Span :=
  match window with
  | .fixed span => span
  | .percent share =>
      .ofSeconds (credential.lifetime.wholeSeconds.toNat * share / 100)

/-! ## Reading -/

structure Invalid where
  given : String

def Invalid.message (invalid : Invalid) : String :=
  "invalid renew window: " ++ invalid.given

def shareLimit : Nat := 100

def countLimit : Nat := 9223372036854775807

/-- The value of a text that holds digits only, at least one, up to a limit. -/
def count? (limit : Nat) (digits : List Char) : Option Nat :=
  if digits ≠ [] ∧ digits.all Text.isDigit ∧ Text.numeralValue digits ≤ limit then
    some (Text.numeralValue digits)
  else none

/-- The share in front of a percent sign; a plus sign may stand before it. -/
def share? (text : List Char) : Option RenewWindow :=
  match Text.trim text with
  | '+' :: digits => (count? shareLimit digits).map .percent
  | digits => (count? shareLimit digits).map .percent

/-- The length in seconds of the unit with the given letter; days have none or `d`. -/
def unitSeconds? : List Char -> Option Nat
  | [] => some 86400
  | ['d'] => some 86400
  | ['h'] => some 3600
  | ['m'] => some 60
  | ['s'] => some 1
  | _ => none

def span? (text : List Char) : Option RenewWindow := do
  let digits := text.takeWhile Text.isDigit
  let count ← count? countLimit digits
  let unit ← unitSeconds? (Text.trim (text.drop digits.length))
  let span ← Span.ofUnits? unit count
  return .fixed span

def ofTrimmed? (text : List Char) : Option RenewWindow :=
  if text.getLast? = some '%' then share? text.dropLast else span? text

def ofText (text : String) : Except Invalid RenewWindow :=
  let trimmed := Text.trim text.toList
  match ofTrimmed? trimmed with
  | some window => .ok window
  | none => .error ⟨String.ofList trimmed⟩

/-! ## Writing -/

/-- A number of seconds in the largest unit that divides it. -/
def secondsText (seconds : Int) : String :=
  if seconds % 86400 = 0 then Text.integerText (seconds / 86400) ++ "d"
  else if seconds % 3600 = 0 then Text.integerText (seconds / 3600) ++ "h"
  else if seconds % 60 = 0 then Text.integerText (seconds / 60) ++ "m"
  else Text.integerText seconds ++ "s"

def text : RenewWindow -> String
  | .percent share => Text.naturalText share ++ "%"
  | .fixed span => secondsText span.wholeSeconds

/-! ## JSON -/

def toJson (window : RenewWindow) : Json.Value :=
  .text window.text

/-- Reads a window. A string that is no window is a complaint about the record
around it. -/
def reader : Json.Reader (Except Json.Cause RenewWindow) := do
  let given ← Json.Reader.text
  pure ((ofText given).mapError fun invalid => .refused invalid.message)

end RenewWindow
end RenewalDrive
