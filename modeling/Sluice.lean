import Sluice.Foundations.Machine
import Sluice.Foundations.Table
import Sluice.Foundations.Pool
import Sluice.Foundations.ReadCommitted
import Sluice.Foundations.Paging
import Sluice.Foundations.LastWins
import Sluice.Foundations.Netip
import Sluice.Foundations.Members
import Sluice.Foundations.Noninterference
import Sluice.Foundations.Selection
import Sluice.Foundations.Batches
import Sluice.Foundations.Custody
import Sluice.Foundations.Decimal
import Sluice.Foundations.Gregorian
import Sluice.Foundations.Keyspace
import Sluice.Foundations.GoSlice
import Sluice.Foundations.AsciiText
import Sluice.Foundations.HttpHeader
import Sluice.Foundations.Renewal
import Sluice.Foundations.Lease
import Sluice.Job.Basic
import Sluice.Job.Template
import Sluice.Job.Json
import Sluice.Job.StoredPayload
import Sluice.Job.StoredTemplate
import Sluice.Job.ValidatedRuns
import Sluice.Job.Webhook
import Sluice.Job.Backoff
import Sluice.Storage.Schema
import Sluice.Storage.Statements
import Sluice.Storage.Sessions
import Sluice.Storage.Lifecycle
import Sluice.Storage.Commits
import Sluice.Storage.History
import Sluice.Storage.RowInvariant
import Sluice.Storage.Fencing
import Sluice.Storage.ExecutionBound
import Sluice.Storage.TenantCap
import Sluice.Storage.DeadLetter
import Sluice.Storage.RunWrites
import Sluice.Storage.RunHistory
import Sluice.Storage.Links
import Sluice.Storage.Owners
import Sluice.Storage.Queries
import Sluice.Storage.Retention
import Sluice.Storage.Tenants
import Sluice.Storage.TenantWrites
import Sluice.Storage.Reaping
import Sluice.Storage.Leases
import Sluice.Storage.Partitions
import Sluice.Storage.Insertion
import Sluice.Storage.Submissions
import Sluice.Queue.Redis
import Sluice.Queue.Markers
import Sluice.Queue.Traffic
import Sluice.Queue.Scripts
import Sluice.Queue.Waking
import Sluice.Worker.Fleet
import Sluice.Worker.Processing
import Sluice.Worker.TenantCache
import Sluice.Worker.Address
import Sluice.Worker.Failure
import Sluice.Worker.Shuffle
import Sluice.Worker.Signing
import Sluice.Worker.RunTimes
import Sluice.Worker.Heartbeats
import Sluice.Worker.Lifetime
import Sluice.Scheduler.Reconcile
import Sluice.Scheduler.Cron
import Sluice.Scheduler.Occurrences
import Sluice.Scheduler.CronLibrary
import Sluice.Scheduler.CronPass
import Sluice.Scheduler.Edits
import Sluice.Scheduler.NextRuns
import Sluice.Scheduler.Requests
import Sluice.Scheduler.DeadWorkers
import Sluice.Scheduler.Lookahead
import Sluice.Scheduler.PendingPages
import Sluice.Scheduler.Release
import Sluice.Scheduler.Drains
import Sluice.Scheduler.Leadership
import Sluice.Scheduler.Recovery
import Sluice.Api.Handlers
import Sluice.Api.Isolation
import Sluice.Api.Revocation
import Sluice.Api.Service
import Sluice.Api.RateLimit
import Sluice.Api.TenantCache
import Sluice.Api.Writers
import Sluice.Api.RateBound
import Sluice.Api.CacheAge
import Sluice.Api.ClockSteps
import Sluice.Api.Intake
import Sluice.Api.Admin
import Sluice.Api.Operators
import Sluice.Api.Answers
