import RenewalDrive.CommandLine.Arguments
import RenewalDrive.CommandLine.Run
import RenewalDrive.Config.Basic
import RenewalDrive.Config.Json
import RenewalDrive.Config.Load
import RenewalDrive.Daemon.Run
import RenewalDrive.Daemon.Site
import RenewalDrive.Decimal.Notation
import RenewalDrive.Decimal.Shortest
import RenewalDrive.Domain.Credential
import RenewalDrive.Domain.Managed
import RenewalDrive.Domain.Registry
import RenewalDrive.Domain.Window
import RenewalDrive.Drive.Context
import RenewalDrive.Drive.Evaluate
import RenewalDrive.Drive.Event
import RenewalDrive.Drive.Host
import RenewalDrive.Drive.Notice
import RenewalDrive.Drive.Outcome
import RenewalDrive.Drive.Rehearsal
import RenewalDrive.Drive.Simulation
import RenewalDrive.Drive.Watchdog
import RenewalDrive.Job.Basic
import RenewalDrive.Job.Phase
import RenewalDrive.Job.Record
import RenewalDrive.Json.Fault
import RenewalDrive.Json.Instant
import RenewalDrive.Json.Number
import RenewalDrive.Json.Reader
import RenewalDrive.Json.Record
import RenewalDrive.Json.Scalar
import RenewalDrive.Json.Skip
import RenewalDrive.Json.Text
import RenewalDrive.Json.Value
import RenewalDrive.Main
import RenewalDrive.Program.Basic
import RenewalDrive.Program.Renew
import RenewalDrive.Report.Status
import RenewalDrive.Store.Basic
import RenewalDrive.Store.Files
import RenewalDrive.Store.Memory
import RenewalDrive.Store.Route
import RenewalDrive.Store.Tree
import RenewalDrive.Text.Blank
import RenewalDrive.Text.Hidden
import RenewalDrive.Text.Numeral
import RenewalDrive.Text.Quoted
import RenewalDrive.Text.Utf8
import RenewalDrive.Time.Calendar
import RenewalDrive.Time.Instant
import RenewalDrive.Time.Rfc2822
import RenewalDrive.Time.Rfc3339
import RenewalDrive.Time.Span
import RenewalDrive.Proofs.Deeds.Acts
import RenewalDrive.Proofs.Drive.Evaluation
import RenewalDrive.Proofs.Drive.Context
import RenewalDrive.Proofs.Drive.Readings
import RenewalDrive.Proofs.Run.Process
import RenewalDrive.Proofs.Run.Foreign
import RenewalDrive.Proofs.Run.Share
import RenewalDrive.Proofs.Run.Turn
import RenewalDrive.Proofs.Run.Strand
import RenewalDrive.Proofs.Run.Record
import RenewalDrive.Proofs.Run.Attempt
import RenewalDrive.Proofs.Run.Upheld
import RenewalDrive.Proofs.Laws.Agreement
import RenewalDrive.Proofs.Laws.Announcement
import RenewalDrive.Proofs.Laws.Completion
import RenewalDrive.Proofs.Laws.Consistency
import RenewalDrive.Proofs.Laws.Issuance
import RenewalDrive.Proofs.Laws.Retry
import RenewalDrive.Proofs.Time.Order
import RenewalDrive.Proofs.Time.Moves
import RenewalDrive.Proofs.Laws.Backoff
import RenewalDrive.Proofs.Laws.Timer
import RenewalDrive.Proofs.Time.Years
import RenewalDrive.Proofs.Deeds.Steps
import RenewalDrive.Proofs.Deeds.Scripts
import RenewalDrive.Proofs.Drive.Steady
import RenewalDrive.Proofs.Drive.Lasting
import RenewalDrive.Proofs.Run.Sight
import RenewalDrive.Proofs.Laws.Halting
import RenewalDrive.Proofs.Run.Checked
import RenewalDrive.Proofs.Laws.Isolation
import RenewalDrive.Proofs.Laws.Snapshot
import RenewalDrive.Proofs.Watchdog.Signal
import RenewalDrive.Proofs.Watchdog.Calls
import RenewalDrive.Proofs.Laws.LifeCycle
import RenewalDrive.Proofs.Laws.Interval
import RenewalDrive.Proofs.Laws.Reset
import RenewalDrive.Proofs.Text.Numeral
import RenewalDrive.Proofs.Text.Encoding
import RenewalDrive.Proofs.Time.Calendar
import RenewalDrive.Proofs.Time.Rfc3339
import RenewalDrive.Proofs.Json.Reads
import RenewalDrive.Proofs.Json.Literal
import RenewalDrive.Proofs.Json.Scalar
import RenewalDrive.Proofs.Json.Record
import RenewalDrive.Proofs.Store.Records
import RenewalDrive.Proofs.Store.Tree
import RenewalDrive.Proofs.Store.Walk
import RenewalDrive.Proofs.Store.Acts
import RenewalDrive.Proofs.Store.Directories
import RenewalDrive.Proofs.Store.Saving
import RenewalDrive.Proofs.Store.Memory
import RenewalDrive.Proofs.Store.Mirror
import RenewalDrive.Proofs.Store.Changes
import RenewalDrive.Proofs.Laws.Refinement
import RenewalDrive.Proofs.Laws.Confinement
import RenewalDrive.Proofs.Store.Interruption
import RenewalDrive.Proofs.Laws.Atomicity
import RenewalDrive.Proofs.Drive.Undisturbed
import RenewalDrive.Proofs.Laws.Policy
import RenewalDrive.Proofs.Text.Words
import RenewalDrive.Proofs.Laws.Delivery
import RenewalDrive.Proofs.Drive.Followed
import RenewalDrive.Proofs.Laws.Pause
import RenewalDrive.Proofs.Laws.Phase
import RenewalDrive.Proofs.Laws.Recovery
import RenewalDrive.Proofs.Laws.Start
import RenewalDrive.Proofs.Domain.Window
import RenewalDrive.Proofs.Domain.Threshold
import RenewalDrive.Proofs.Run.Life
import RenewalDrive.Proofs.Laws.FreshStart
import RenewalDrive.Proofs.Json.Ensures
import RenewalDrive.Proofs.Json.Nested
import RenewalDrive.Proofs.Config.Written
import RenewalDrive.Proofs.Config.Registry
import RenewalDrive.Proofs.Time.Phrase
import RenewalDrive.Proofs.Report.Table
import RenewalDrive.Proofs.Store.Places
import RenewalDrive.Proofs.Store.Effects
import RenewalDrive.Proofs.Laws.Separation
