import Hella.Lib.Text
import Hella.Lib.Exec
import Hella.Engine.Entities
import Hella.Engine.Store
import Hella.Engine.NodeHandlers
import Hella.Engine.Workflow
import Hella.Control.Agenda
import Hella.Control.Handlers
import Hella.Control.Refinement
import Hella.Properties.CounterKeys
import Hella.Properties.Retry
import Hella.Cluster.Manager
import Hella.Control.Calm
import Hella.Control.CalmSteps
import Hella.Control.History
import Hella.Control.Inert
import Hella.Control.Ledger
import Hella.Control.Nested
import Hella.Control.Pairs
import Hella.Control.Joins
import Hella.Control.Queues
import Hella.Executor.Client
import Hella.Properties.Absorbing
import Hella.Properties.Barrier
import Hella.Properties.Batch
import Hella.Properties.Delivery
import Hella.Properties.Election
import Hella.Properties.Interim
import Hella.Properties.Mastership
import Hella.Properties.Recorded
import Hella.Properties.Redelivery
import Hella.Properties.Unknown
import Hella.Control.Balance
import Hella.Control.Course
import Hella.Properties.Outcome
import Hella.Properties.Stall
import Hella.Engine.JobEvents
import Hella.Plans.Builds
import Hella.Plans.Failures
import Hella.Properties.Agreement
import Hella.Properties.Chaining
import Hella.Properties.Expiry
import Hella.Properties.HalfWritten
import Hella.Properties.PlanRows
import Hella.Properties.Registration
import Hella.Properties.Replacement
import Hella.Properties.Skew
import Hella.Properties.Unauthenticated
import Hella.Properties.Vigilance
import Hella.Control.Apart
import Hella.Control.Descent
import Hella.Control.Oracle
import Hella.Engine.Consumer
import Hella.Lib.Lexical
import Hella.Parser.Meaning
import Hella.Plans.Triggers
import Hella.Properties.Acknowledged
import Hella.Properties.ByHand
import Hella.Properties.ForkPaths
import Hella.Properties.Identity
import Hella.Properties.Notices
import Hella.Properties.OwnQueue
import Hella.Properties.Realised
import Hella.Properties.Reschedule
import Hella.Properties.Termination
import Hella.Engine.Alarms
import Hella.Engine.ConnectionPool
import Hella.Engine.Dao
import Hella.Executor.Xjobs
import Hella.Lib.Monitor
import Hella.Properties.Alarms
import Hella.Properties.Borrowing
import Hella.Properties.Holders
import Hella.Properties.Output
import Hella.Properties.Paging
import Hella.Properties.Reportable
import Hella.Properties.Saved
import Hella.Properties.WakeUps
import Hella.Properties.OwnReports
import Hella.Properties.Administrators
import Hella.Properties.Stacking
import Hella.Properties.Conservation
import Hella.Properties.Stripped
import Hella.Properties.UniqueIDs
import Hella.Properties.Transitions
import Hella.Properties.Ended
import Hella.Properties.RoundTrip
import Hella.Properties.OverWire
import Hella.Properties.Authors
import Hella.Properties.TwoTables
import Hella.Properties.Progress
import Hella.Properties.Filed
import Hella.Plans.Firing
import Hella.Properties.Fired
import Hella.Properties.TakeOver
import Hella.Control.Columns
import Hella.Web.Holdings
import Hella.Web.Dispatch
import Hella.Web.Keeping
import Hella.Web.Console
import Hella.Web.Submissions
import Hella.Properties.Lifetime
