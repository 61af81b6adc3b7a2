import Crew.Breaker
import Crew.Call
import Crew.Cli.Arguments
import Crew.Cli.Options
import Crew.Cli.Program
import Crew.Concurrency
import Crew.Config.Basic
import Crew.Config.Load
import Crew.Coordinator
import Crew.Decimal.Layout
import Crew.Decimal.Shortest
import Crew.Decimal.TotalOrder
import Crew.Display
import Crew.Event.Basic
import Crew.Event.Channel
import Crew.Files
import Crew.Form.Config
import Crew.Form.Dated
import Crew.Form.Event
import Crew.Form.Report
import Crew.Form.Result
import Crew.Form.Task
import Crew.Form.Worker
import Crew.Graph.Basic
import Crew.Graph.Build
import Crew.Graph.Layers
import Crew.Json.Decoder
import Crew.Json.Fault
import Crew.Json.Number
import Crew.Json.Outline
import Crew.Json.Pointer
import Crew.Json.Printer
import Crew.Json.Record
import Crew.Json.Tagged
import Crew.Json.Value
import Crew.Main
import Crew.Proofs.Breaker.Timeline
import Crew.Proofs.Condensed
import Crew.Proofs.Graph.Acceptance
import Crew.Proofs.Graph.Cycles
import Crew.Proofs.Graph.Distinct
import Crew.Proofs.Json.Same
import Crew.Proofs.Registry.Changes
import Crew.Proofs.Rehearsal.Course
import Crew.Proofs.Report.Entries
import Crew.Proofs.Resolution.Candidates
import Crew.Proofs.Resolution.Decision
import Crew.Proofs.Run.Accounts
import Crew.Proofs.Run.Books
import Crew.Proofs.Run.Budget
import Crew.Proofs.Run.Changes
import Crew.Proofs.Run.Course
import Crew.Proofs.Run.Dependencies
import Crew.Proofs.Run.Dispatched
import Crew.Proofs.Run.Follows
import Crew.Proofs.Run.Ledger
import Crew.Proofs.Run.Reported
import Crew.Proofs.Run.Rosters
import Crew.Proofs.Run.Settlement
import Crew.Proofs.Run.Surroundings
import Crew.Proofs.Run.Tasks
import Crew.Proofs.Session.Operations
import Crew.Registry.Basic
import Crew.Rehearsal.Basic
import Crew.Rehearsal.Bench
import Crew.Rehearsal.Cast
import Crew.Report
import Crew.Resolution
import Crew.Result
import Crew.Retry
import Crew.Run.Basic
import Crew.Run.Complete
import Crew.Run.Dispatch
import Crew.Scaling
import Crew.Session.Basic
import Crew.Session.Progress
import Crew.Submission
import Crew.Table
import Crew.Task
import Crew.Text.Blank
import Crew.Text.Printable
import Crew.Text.Quoted
import Crew.Time.Calendar
import Crew.Time.Stamp
import Crew.Toml.Document
import Crew.Toml.Node
import Crew.Toml.Scalar
import Crew.Toml.Scan
import Crew.Trust
import Crew.Proofs.Graph.Order
import Crew.Proofs.Graph.Levels
import Crew.Proofs.Graph.Descendants
import Crew.Proofs.Session.Propagation
import Crew.Proofs.Run.Downstream
import Crew.Proofs.Registry.Leases
import Crew.Proofs.Run.Attempts
import Crew.Proofs.Run.Concourse
import Crew.Proofs.Run.Trials
import Crew.Proofs.Run.Arrivals
import Crew.Proofs.Registry.Service
import Crew.Proofs.Run.Waiting
import Crew.Proofs.Run.Cancellation
import Crew.Proofs.Run.Tales
import Crew.Proofs.Display
import Crew.Proofs.Run.Announcements
import Crew.Proofs.Run.Chronicle
import Crew.Proofs.Run.Effort
import Crew.Proofs.Run.Upshots
import Crew.Proofs.Run.Queues
import Crew.Proofs.Run.Fairness
import Crew.Proofs.Run.Droughts
import Crew.Proofs.Retry
import Crew.Proofs.Run.Stretches
import Crew.Proofs.Run.Stillness
import Crew.Proofs.Run.Custody
import Crew.Proofs.Run.Watch
import Crew.Proofs.Rehearsal.Ends
import Crew.Proofs.Run.Termination
import Crew.Proofs.Registry.Tally
import Crew.Proofs.Registry.Offers
import Crew.Proofs.Run.Loads
import Crew.Proofs.Run.Outcomes
import Crew.Proofs.Run.Registrations
import Crew.Proofs.Json.Numbers
import Crew.Proofs.Json.Strings
import Crew.Proofs.Json.Texts
import Crew.Proofs.Json.Records
import Crew.Proofs.Report.Written
import Crew.Proofs.Run.Ratios
import Crew.Proofs.Run.Backoffs
import Crew.Proofs.Scaling.Excursions
import Crew.Proofs.Registry.Selection
import Crew.Proofs.Registry.Outages
import Crew.Proofs.Run.Recipients
import Crew.Proofs.Run.Blame
import Crew.Proofs.Submission.Forms
import Crew.Proofs.Submission.Shapes
import Crew.Proofs.Run.Capacity
import Crew.Proofs.Report.Records
import Crew.Proofs.Run.Trust
import Crew.Proofs.Decimal.Shortest
import Crew.Proofs.Decimal.Bits
import Crew.Proofs.Json.Decimals
import Crew.Proofs.Json.Distinct
import Crew.Proofs.Resolution.Classes
import Crew.Proofs.Registry.Switchboard
import Crew.Proofs.Report.Averages
import Crew.Proofs.Graph.Distances
