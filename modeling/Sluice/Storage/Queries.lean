import Mathlib.Data.Prod.Lex
import Mathlib.Data.String.Basic
import Sluice.Foundations.Selection
import Sluice.Storage.Statements

/-
  The queries that the API answers from.

  Rows that a query orders alike come in an arbitrary order
  of the database, `scan`.

  Key definitions include:
    * `getJobForTenant` and `getJobByIdempotencyKey`
    * `listJobs` and `countJobsByState`
    * `listRecentRuns` and `listJobRuns`
    * `listDeadLetter`
    * `getSchedule` and `listSchedules`
-/

------------------------------------------------------------
-- Jobs
------------------------------------------------------------

namespace Sluice

namespace Storage

open Foundations

/- The row of a key, if it is the tenant's. -/
def getJobForTenant
    (id tenantId : Uuid)
    (db : Db) :
    Option Job :=
  (db.job? id).filter (fun j => j.tenantId = tenantId)

def getJobByIdempotencyKey
    (tenantId : Uuid)
    (key : String)
    (scan : Scan)
    (db : Db) :
    Option Job :=
  (db.jobs.select
    (fun j =>
      j.tenantId = tenantId && j.idempotencyKey = some key)
    (fun j => scan j.id)).head?

/- `state` is `nil` for all states. -/
structure ListFilter where
  tenantId : Uuid
  state : Option JobState
  retried : Bool
  limit : Nat
  offset : Nat
deriving DecidableEq, Repr

/- A limit of zero is the default. -/
def listJobs
    (f : ListFilter)
    (scan : Scan)
    (db : Db) :
    List Job :=
  ((db.jobs.select
    (fun j =>
      j.tenantId = f.tenantId &&
        f.state.all (fun state => j.state = state) &&
          (!f.retried || decide (0 < j.attempt)))
    (fun j => toLex (-j.createdAt, scan j.id))).drop
      f.offset).take
        (if f.limit = 0 then 50 else f.limit)

def jobStates : List JobState :=
  [.pending, .scheduled, .claimed, .running, .succeeded,
    .failed, .dead, .cancelled]

/- `GROUP BY state` has no group without rows. -/
def countJobsByState
    (tenantId : Uuid)
    (db : Db) :
    List (JobState × Nat) :=
  (jobStates.map
    (fun state =>
      (state,
        db.jobs.count
          (fun j =>
            j.tenantId = tenantId && j.state = state)))).filter
    (fun group => group.2 ≠ 0)

------------------------------------------------------------
-- Runs, Dead Letters And Schedules
------------------------------------------------------------

/- A row of `job_runs` joined with its job. -/
structure JobRun where
  runId : Uuid
  jobId : Uuid
  tenantId : Uuid
  jobType : String
  attempt : Int
  state : JobState
  durationMs : Option Int
  startedAt : Time
  finishedAt : Option Time
  error : Option String
deriving DecidableEq, Repr

/- `JOIN jobs j ON j.id = jr.job_id`. -/
def joinJob (db : Db) (r : RunRow) : Option JobRun :=
  (db.job? r.jobId).map
    (fun j =>
      { runId := r.id
        jobId := r.jobId
        tenantId := r.tenantId
        jobType := j.type
        attempt := r.attempt
        state := r.state
        durationMs := r.durationMs
        startedAt := r.startedAt
        finishedAt := r.finishedAt
        error := r.error })

def listRecentRuns
    (tenantId : Uuid)
    (limit : Nat)
    (scan : Scan)
    (db : Db) :
    List JobRun :=
  ((db.jobRuns.select
    (fun r => r.tenantId = tenantId)
    (fun r => toLex (-r.startedAt, scan r.id))).filterMap
      (joinJob db)).take limit

def listJobRuns
    (jobId tenantId : Uuid)
    (scan : Scan)
    (db : Db) :
    List JobRun :=
  (db.jobRuns.select
    (fun r => r.jobId = jobId && r.tenantId = tenantId)
    (fun r => toLex (r.startedAt, scan r.id))).filterMap
      (joinJob db)

structure DeadLetterEntry where
  jobId : Uuid
  tenantId : Uuid
  attemptCount : Int
  finalError : Option String
  movedAt : Time
deriving DecidableEq, Repr

def DeadLetter.entry (d : DeadLetter) : DeadLetterEntry where
  jobId := d.jobId
  tenantId := d.tenantId
  attemptCount := d.attemptCount
  finalError := d.finalError
  movedAt := d.movedAt

def listDeadLetter
    (tenantId : Uuid)
    (limit : Nat)
    (scan : Scan)
    (db : Db) :
    List DeadLetterEntry :=
  ((db.deadLetter.select
    (fun d => d.tenantId = tenantId)
    (fun d => toLex (-d.movedAt, scan d.jobId))).take
      limit).map DeadLetter.entry

def getSchedule
    (id tenantId : Uuid)
    (db : Db) :
    Option Schedule :=
  (db.schedules.find? id).filter
    (fun sched => sched.tenantId = tenantId)

def listSchedules
    (tenantId : Uuid)
    (scan : Scan)
    (db : Db) :
    List Schedule :=
  db.schedules.select
    (fun sched => sched.tenantId = tenantId)
    (fun sched => toLex (sched.name, scan sched.id))

end Storage

end Sluice
