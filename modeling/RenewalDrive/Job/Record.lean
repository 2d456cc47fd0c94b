import RenewalDrive.Json.Instant

/-!
# Job records

The part of a drive job that is kept in the store. In JSON every field but the name
may be missing, and the absent times and the absent message are not written.
-/

namespace RenewalDrive

inductive DriveStatus where
  | ok
  /-- The renewal made progress and is to be continued. -/
  | inProgress
  /-- The configuration of the domain lacks something. -/
  | incomplete
  | failed
deriving DecidableEq

namespace DriveStatus

def name : DriveStatus -> String
  | .ok => "ok"
  | .inProgress => "in_progress"
  | .incomplete => "incomplete"
  | .failed => "failed"

def all : List DriveStatus :=
  [.ok, .inProgress, .incomplete, .failed]

def byName : List (String × DriveStatus) :=
  all.map fun status => (status.name, status)

end DriveStatus

/-- A number of consecutive errors has 32 bits: it starts over behind the largest one. -/
abbrev ErrorCount := Fin 4294967296

instance ErrorCount.neZero : @NeZero Nat Zero.ofOfNat0 4294967296 :=
  Nat.instNeZeroSucc

instance : Coe Nat ErrorCount where
  coe := Fin.ofNat 4294967296

structure JobRecord where
  name : String
  /-- A complete set of credentials is staged. -/
  finished : Bool := false
  /-- The staged credentials were announced. -/
  notified : Bool := false
  /-- The earliest next evaluation; without one the job is always due. -/
  nextRun : Option Instant := none
  /-- When the staged credentials become valid. -/
  validFrom : Option Instant := none
  /-- The number of consecutive attempts that did not complete. -/
  errorRuns : ErrorCount := 0
  lastStatus : DriveStatus := .ok
  lastMessage : Option String := none
deriving DecidableEq

namespace JobRecord

def errorRunsLimit : Nat := 4294967295

/-- A text that may be absent, as the members to be written: none or one. -/
def textMember (name : String) : Option String -> List (String × Json.Value)
  | none => []
  | some text => [(name, .text text)]

def toJson (record : JobRecord) : Json.Value :=
  .object <|
    [("name", .text record.name), ("finished", .bool record.finished),
      ("notified", .bool record.notified)] ++
    Json.instantMember "nextRun" record.nextRun ++
    Json.instantMember "validFrom" record.validFrom ++
    [("errorRuns", .natural record.errorRuns), ("lastStatus", .text record.lastStatus.name)] ++
    textMember "lastMessage" record.lastMessage

structure Draft where
  name : Option String := none
  finished : Option Bool := none
  notified : Option Bool := none
  nextRun : Option (Option Instant) := none
  validFrom : Option (Option Instant) := none
  errorRuns : Option Nat := none
  lastStatus : Option DriveStatus := none
  lastMessage : Option (Option String) := none

/-- The record of a draft: the name is needed, all else has a default. -/
def ofDraft (draft : Draft) : Except Json.Cause JobRecord :=
  match draft.name with
  | none => .error (.missingField "name")
  | some name =>
      .ok
        { name := name
          finished := draft.finished.getD false
          notified := draft.notified.getD false
          nextRun := draft.nextRun.getD none
          validFrom := draft.validFrom.getD none
          errorRuns := Fin.ofNat 4294967296 (draft.errorRuns.getD 0)
          lastStatus := draft.lastStatus.getD .ok
          lastMessage := draft.lastMessage.getD none }

def fields : List (Json.Field Draft) :=
  [.plain "name" false (·.name) (fun draft v => { draft with name := some v }) Json.Reader.text,
    .plain "finished" true (·.finished) (fun draft v => { draft with finished := some v })
      Json.Reader.bool,
    .plain "notified" true (·.notified) (fun draft v => { draft with notified := some v })
      Json.Reader.bool,
    .plain "nextRun" true (·.nextRun) (fun draft v => { draft with nextRun := some v })
      (Json.Reader.optional Json.Reader.instant),
    .plain "validFrom" true (·.validFrom) (fun draft v => { draft with validFrom := some v })
      (Json.Reader.optional Json.Reader.instant),
    .plain "errorRuns" true (·.errorRuns) (fun draft v => { draft with errorRuns := some v })
      (Json.Reader.natural errorRunsLimit "u32"),
    .plain "lastStatus" true (·.lastStatus) (fun draft v => { draft with lastStatus := some v })
      (Json.Reader.variant DriveStatus.byName),
    .plain "lastMessage" true (·.lastMessage) (fun draft v => { draft with lastMessage := some v })
      (Json.Reader.optional Json.Reader.text)]

def shape : Json.Shape Draft JobRecord where
  title := "struct JobProps"
  fields := fields
  empty := {}
  finish := ofDraft

def reader : Json.Reader JobRecord :=
  Json.Reader.record shape

end JobRecord
end RenewalDrive
