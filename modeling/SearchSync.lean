import SearchSync.Cli.Basic
import SearchSync.Config.Basic
import SearchSync.Config.Json
import SearchSync.Config.Yaml
import SearchSync.Connection.Address
import SearchSync.Decimal
import SearchSync.Entity.Basic
import SearchSync.EventLog.Basic
import SearchSync.Json.Basic
import SearchSync.Json.Reader
import SearchSync.Main
import SearchSync.NameMap
import SearchSync.Proofs.Config.Framing
import SearchSync.Proofs.Config.JsonForm
import SearchSync.Proofs.Config.SetupScript
import SearchSync.Proofs.Config.Warnings
import SearchSync.Proofs.Connection.Sanitizing
import SearchSync.Proofs.Entity.Encoding
import SearchSync.Proofs.Entity.Order
import SearchSync.Proofs.EventLog.Reading
import SearchSync.Proofs.EventLog.Usable
import SearchSync.Proofs.EventLog.Violations
import SearchSync.Proofs.Json.Fields
import SearchSync.Proofs.Scan.Failure
import SearchSync.Proofs.Scan.Journal
import SearchSync.Proofs.Scan.Merge
import SearchSync.Proofs.Scan.Moves
import SearchSync.Proofs.Scan.Paging
import SearchSync.Proofs.Scan.Requests
import SearchSync.Proofs.Scan.Retry
import SearchSync.Proofs.Scan.Session
import SearchSync.Proofs.Scan.Shortage
import SearchSync.Proofs.Scan.Sorting
import SearchSync.Proofs.Scan.Step
import SearchSync.Proofs.Schema.Views
import SearchSync.Proofs.Schema.WellFormed
import SearchSync.Proofs.Sync.Consistency
import SearchSync.Proofs.Sync.Convergence
import SearchSync.Proofs.Sync.Course
import SearchSync.Proofs.Sync.Creation
import SearchSync.Proofs.Sync.Delivery
import SearchSync.Proofs.Sync.Documents
import SearchSync.Proofs.Sync.Effect
import SearchSync.Proofs.Sync.Erasure
import SearchSync.Proofs.Sync.Log
import SearchSync.Proofs.Sync.Refinement
import SearchSync.Proofs.Sync.Resolution
import SearchSync.Proofs.Sync.Resuming
import SearchSync.Proofs.Sync.Rows
import SearchSync.Proofs.Sync.Stages
import SearchSync.Proofs.Sync.Turns
import SearchSync.Proofs.Sync.Writes
import SearchSync.Proofs.Text.Pieces
import SearchSync.Proofs.Trigger.Installing
import SearchSync.Proofs.Trigger.Recording
import SearchSync.Proofs.Trigger.Running
import SearchSync.Scan.Basic
import SearchSync.Schema.Basic
import SearchSync.Sync.Bulk
import SearchSync.Sync.Trace
import SearchSync.Sync.Updater
import SearchSync.Text
import SearchSync.Trigger.Basic
import SearchSync.Yaml.Document
import SearchSync.Yaml.Scalar
import SearchSync.Yaml.Token
