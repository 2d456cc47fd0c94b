import RenewalDrive.Json.Record
import RenewalDrive.Json.Value
import RenewalDrive.Time.Rfc3339

/-!
# Instants in JSON

Instants stand in JSON texts as strings in RFC 3339 form.
-/

namespace RenewalDrive
namespace Json

def instantValue (t : Instant) : Value :=
  .text (Rfc3339.write t)

/-- An instant that may be absent, as the members to be written: none or one. -/
def instantMember (name : String) : Option Instant -> List (String × Value)
  | none => []
  | some t => [(name, instantValue t)]

def Reader.instant : Reader Instant :=
  textThrough "an RFC 3339 formatted date and time string" fun text =>
    (Rfc3339.read text).mapError Rfc3339.Fault.message

end Json
end RenewalDrive
