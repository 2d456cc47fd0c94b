import RenewalDrive.Json.Instant

/-!
# Credentials

What is kept about the credentials in use for a domain: when they became valid and
when they expire.
-/

namespace RenewalDrive

structure Credential where
  validFrom : Instant
  expires : Instant
deriving DecidableEq

namespace Credential

def lifetime (credential : Credential) : Span :=
  credential.expires.since credential.validFrom

def toJson (credential : Credential) : Json.Value :=
  .object [("validFrom", Json.instantValue credential.validFrom),
    ("expires", Json.instantValue credential.expires)]

structure Draft where
  validFrom : Option Instant
  expires : Option Instant

def shape : Json.Shape Draft Credential where
  title := "struct CredentialInfo"
  fields :=
    [.plain "validFrom" false (·.validFrom) (fun draft t => { draft with validFrom := some t })
        Json.Reader.instant,
      .plain "expires" false (·.expires) (fun draft t => { draft with expires := some t })
        Json.Reader.instant]
  empty := ⟨none, none⟩
  finish draft :=
    match draft.validFrom, draft.expires with
    | none, _ => .error (.missingField "validFrom")
    | some _, none => .error (.missingField "expires")
    | some validFrom, some expires => .ok ⟨validFrom, expires⟩

def reader : Json.Reader Credential :=
  Json.Reader.record shape

end Credential
end RenewalDrive
