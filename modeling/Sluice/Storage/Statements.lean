import Mathlib.Data.List.Sort
import Sluice.Foundations.ReadCommitted
import Sluice.Storage.Schema

/-
  The SQL statements of package `storage` and of the
  command-line tool that write jobs, runs and dead letters.

  A statement maps the database it sees to the row versions
  it writes and the locks it takes. `abort` stands for a
  call that returns without a commit: an SQL error, an error
  result or an exit of the command-line tool.

  Key definitions include:
    * `claimSQL`
    * `completeJob`
    * `failJob`
    * `closeStaleRuns` and `requeueJob`
    * `promoteDueScheduled` and `promoteReadyFailed`
    * `moveToDeadLetter`
    * `replayUpdate` and `replayDelete`
    * `forceFailJob` and `forceFailRuns`
-/

------------------------------------------------------------
-- Rows
------------------------------------------------------------

namespace Sluice

namespace Storage

open Foundations ReadCommitted

/- The parameters of `claimSQL`; `now` and `runId` are new. -/
structure ClaimArgs where
  jobId : Uuid
  workerId : String
  token : Uuid
  deadline : Time
  now : Time
  runId : Uuid
deriving DecidableEq, Repr

/- The range of the column type `INT`. -/
def inInt4 (n : Int) : Bool :=
  -2147483648 ≤ n && n ≤ 2147483647

/-
  `(EXTRACT(EPOCH FROM (finished - started)) * 1000)::INT`:
  milliseconds, rounded half away from zero. The cast fails
  out of range.
-/
def durationMs
    (finished started : Time) :
    Option Int :=
  let d := finished - started
  let ms :=
    if 0 ≤ d then (d + 500) / 1000
    else -((-d + 500) / 1000)
  if inInt4 ms then some ms else none

namespace RunRow

/- The row that a claim opens. -/
def opened
    (a : ClaimArgs)
    (j : Job) :
    RunRow where
  id := a.runId
  jobId := j.id
  tenantId := j.tenantId
  attempt := j.attempt
  startedAt := a.now
  finishedAt := none
  state := .running
  error := none
  durationMs := none

/- The row after a statement that ends the execution. -/
def finish
    (r : RunRow)
    (state : JobState)
    (now : Time)
    (error : Option String) :
    Option RunRow :=
  (Storage.durationMs now r.startedAt).map
    (fun ms =>
      { r with
        state := state
        finishedAt := some now
        error := error
        durationMs := some ms })

end RunRow

end Storage

namespace Job

open Storage

/- The columns that `InsertJob` leaves out are `NULL`. -/
def inserted (j : Job) : Job :=
  { j with
    claimedAt := none
    claimedBy := none
    claimToken := none
    deadline := none
    lastError := none
    completedAt := none }

def claim (j : Job) (a : ClaimArgs) : Job :=
  { j with
    state := .running
    claimedAt := some a.now
    claimedBy := some a.workerId
    claimToken := some a.token
    deadline := some a.deadline }

def extend (j : Job) (deadline : Time) : Job :=
  { j with deadline := some deadline }

def complete (j : Job) (now : Time) : Job :=
  { j with
    state := .succeeded
    completedAt := some now
    claimToken := none
    deadline := none }

def fail
    (j : Job)
    (errMsg : String)
    (nextRunAt : Option Time) :
    Job :=
  { j with
    state :=
      if j.attempt + 1 > j.maxRetries then .dead
      else .failed
    runAt :=
      if j.attempt + 1 > j.maxRetries then j.runAt
      else nextRunAt.getD j.runAt
    attempt := j.attempt + 1
    lastError := some errMsg
    claimToken := none
    deadline := none }

def releaseScheduled (j : Job) : Job :=
  { j with state := .pending }

def releaseFailed (j : Job) (now : Time) : Job :=
  { j with state := .pending, runAt := now }

def requeue (j : Job) : Job :=
  { j with
    state :=
      if j.attempt + 1 > j.maxRetries then .dead
      else .pending
    attempt := j.attempt + 1
    claimToken := none
    claimedAt := none
    claimedBy := none
    deadline := none
    lastError := some "worker heartbeat expired" }

def cancel (j : Job) (now : Time) : Job :=
  { j with state := .cancelled, completedAt := some now }

def replay (j : Job) (now : Time) : Job :=
  { j with
    state := .pending
    attempt := 0
    runAt := now
    lastError := none
    claimToken := none
    claimedAt := none
    claimedBy := none
    deadline := none
    completedAt := none }

def forceFail (j : Job) : Job :=
  { j with
    state := .dead
    lastError := some "force-failed by operator"
    claimToken := none
    deadline := none }

/- `WHERE state IN (...) AND deadline < NOW()`. -/
def stale (now : Time) (j : Job) : Bool :=
  j.inFlight && j.deadline.any (fun d => decide (d < now))

/- `state IN ('pending', 'scheduled', 'failed')`. -/
def cancellable (j : Job) : Bool :=
  j.state = .pending || j.state = .scheduled ||
    j.state = .failed

/-
  `state IN ('claimed', 'running', 'pending', 'scheduled',
  'failed')`.
-/
def forceFailable (j : Job) : Bool :=
  j.inFlight || j.cancellable

end Job

------------------------------------------------------------
-- Single-Job Statements
------------------------------------------------------------

namespace Storage

open Foundations ReadCommitted

abbrev Result := Outcome Write RowKey

/- `SELECT ... FROM jobs WHERE id = jobId AND p`. -/
def matchJob
    (jobId : Uuid)
    (p : Job → Bool)
    (db : Db) :
    Option Job :=
  (db.job? jobId).filter p

/-
  `UPDATE job_runs SET ... WHERE p`, where `f` computes the
  new row and fails as a whole when one row fails.
-/
def updateRuns
    (p : RunRow → Bool)
    (f : RunRow → Option RunRow)
    (db : Db) :
    Option (List RunRow) :=
  (db.jobRuns.rows.filter p).mapM f

/- The result of a statement that wrote these run rows. -/
def runResult (runs : List RunRow) : Result :=
  .proceed (runs.map .updateRun)
    (runs.map (fun r => .run r.id))

/- The result of a statement that wrote one jobs row. -/
def jobResult (j : Job) : Result :=
  .proceed [.updateJob j] [.job j.id]

/- The result of a statement that matched no row. -/
def noRows : Result :=
  .proceed [] []

/-
  The unique constraints are checked against the committed
  rows; the locks make a second insertion of the same key
  wait for the first.
-/
def insertJob (j : Job) (db : Db) : Result :=
  if (db.job? j.id).isSome then .abort
  else
    match j.idempotencyKey with
    | none =>
        .proceed [.insertJob j.inserted] [.job j.id]
    | some key =>
        if
          db.jobs.rows.any
            (fun row =>
              row.tenantId = j.tenantId &&
                row.idempotencyKey = some key)
        then .abort
        else
          .proceed [.insertJob j.inserted]
            [.job j.id, .idempotencyKey j.tenantId key]

/-
  The claimed row and the run it opens. A row that another
  transaction has locked is skipped.
-/
def claimSQL
    (a : ClaimArgs)
    (locked : RowKey → Bool)
    (db : Db) :
    Option (Job × RunRow) :=
  (matchJob a.jobId
    (fun j =>
      j.state = .pending && !locked (.job j.id)) db).map
    (fun j => (j.claim a, RunRow.opened a (j.claim a)))

def claimResult : Job × RunRow → Result
| (j, r) =>
    .proceed [.updateJob j, .insertRun r] [.job j.id]

/- `TryClaim`: a job that is not pending yields no claim. -/
def tryClaim
    (a : ClaimArgs)
    (locked : RowKey → Bool)
    (db : Db) :
    Result :=
  match claimSQL a locked db with
  | none => noRows
  | some claimed => claimResult claimed

/- `SELECT 1 FROM tenants WHERE id = ... FOR UPDATE`. -/
def lockTenant
    (tenantId : Uuid)
    (db : Db) :
    Result :=
  if (db.tenants.find? tenantId).isSome then
    .proceed [] [.tenant tenantId]
  else noRows

/- A tenant's jobs in state `claimed` or `running`. -/
def runningCount (tenantId : Uuid) (db : Db) : Nat :=
  db.jobs.rows.countP
    (fun j => j.tenantId = tenantId && j.inFlight)

/- `ErrConcurrencyLimit` when the tenant is at its limit. -/
def countRunning
    (tenantId : Uuid)
    (limit : Int)
    (db : Db) :
    Result :=
  if (runningCount tenantId db : Int) ≥ limit then .abort
  else noRows

/- The claim of `TryClaimLimited`, which rolls back on nil. -/
def claimLimited
    (a : ClaimArgs)
    (locked : RowKey → Bool)
    (db : Db) :
    Result :=
  match claimSQL a locked db with
  | none => .abort
  | some claimed => claimResult claimed

/- `id = ... AND claim_token = ... AND state IN (...)`. -/
def matchClaim
    (jobId token : Uuid) :
    Db → Option Job :=
  matchJob jobId
    (fun j => j.claimToken = some token && j.inFlight)

def extendDeadline
    (jobId token : Uuid)
    (deadline : Time)
    (db : Db) :
    Result :=
  match matchClaim jobId token db with
  | none => noRows
  | some j => jobResult (j.extend deadline)

/-
  The two updates of a statement that ends a claim: the job,
  and then the run the caller names.
-/
def endClaim
    (jobId runId : Uuid)
    (j : Job)
    (f : RunRow → Option RunRow)
    (db : Db) :
    Result :=
  match
    updateRuns
      (fun r => r.jobId = jobId && r.id = runId) f db
  with
  | none => .abort
  | some runs =>
      .proceed
        (.updateJob j :: runs.map .updateRun)
        (.job j.id :: runs.map (fun r => .run r.id))

def completeJob
    (jobId runId token : Uuid)
    (now : Time)
    (db : Db) :
    Result :=
  match matchClaim jobId token db with
  | none => noRows
  | some j =>
      endClaim jobId runId (j.complete now)
        (fun r => r.finish .succeeded now r.error) db

def failJob
    (jobId runId token : Uuid)
    (errMsg : String)
    (nextRunAt : Option Time)
    (now : Time)
    (db : Db) :
    Result :=
  match matchClaim jobId token db with
  | none => noRows
  | some j =>
      endClaim jobId runId (j.fail errMsg nextRunAt)
        (fun r =>
          r.finish (j.fail errMsg nextRunAt).state now
            (some errMsg))
        db

/- Runs of a job that have not finished. -/
def openRun (jobId : Uuid) (r : RunRow) : Bool :=
  r.jobId = jobId && r.finishedAt = none

/- The first statement of `RequeueStaleJob`. -/
def closeStaleRuns
    (jobId : Uuid)
    (now : Time)
    (db : Db) :
    Result :=
  match
    updateRuns (openRun jobId)
      (fun r =>
        r.finish .failed now
          (some "worker heartbeat expired"))
      db
  with
  | none => .abort
  | some runs => runResult runs

/- The second statement; `start` is `NOW()`. -/
def requeueJob
    (jobId : Uuid)
    (start : Time)
    (db : Db) :
    Result :=
  match matchJob jobId (Job.stale start) db with
  | none => noRows
  | some j => jobResult j.requeue

def cancelJob
    (jobId tenantId : Uuid)
    (start : Time)
    (db : Db) :
    Result :=
  match
    matchJob jobId
      (fun j => j.tenantId = tenantId && j.cancellable) db
  with
  | none => noRows
  | some j => jobResult (j.cancel start)

/- The first statement of `ReplayJob`. -/
def replayUpdate
    (jobId tenantId : Uuid)
    (start : Time)
    (db : Db) :
    Result :=
  match
    matchJob jobId
      (fun j => j.tenantId = tenantId && j.state = .dead) db
  with
  | none => .abort
  | some j => jobResult (j.replay start)

/- The second statement removes the entry it can see. -/
def replayDelete (jobId : Uuid) (db : Db) : Result :=
  match db.deadLetter? jobId with
  | none => noRows
  | some _ =>
      .proceed [.deleteDeadLetter jobId]
        [.deadLetter jobId]

/- The first statement of `cmdForceFail`. -/
def forceFailJob (jobId : Uuid) (db : Db) : Result :=
  match matchJob jobId Job.forceFailable db with
  | none => .abort
  | some j => jobResult j.forceFail

/- The second statement; `start` is `NOW()`. -/
def forceFailRuns
    (jobId : Uuid)
    (start : Time)
    (db : Db) :
    Result :=
  match
    updateRuns (openRun jobId)
      (fun r =>
        r.finish .dead start
          (some "force-failed by operator"))
      db
  with
  | none => .abort
  | some runs => runResult runs

------------------------------------------------------------
-- Batch Statements
------------------------------------------------------------

/-
  The order in which rows are met is up to the database: a
  scan visits them by the position it is given.
-/
abbrev Scan := Uuid → Nat

def scanJobs (scan : Scan) (db : Db) : List Job :=
  db.jobs.rows.insertionSort
    (fun a b => scan a.id ≤ scan b.id)

/- `ORDER BY priority, run_at`. -/
def dueOrder (a b : Job) : Prop :=
  a.priority < b.priority ∨
    (a.priority = b.priority ∧ a.runAt ≤ b.runAt)

instance : DecidableRel dueOrder :=
  fun _ _ => inferInstanceAs (Decidable (_ ∨ _))

/-
  `SELECT ... WHERE state = ... AND run_at <= NOW() ORDER BY
  priority, run_at LIMIT ... FOR UPDATE SKIP LOCKED`.
-/
def dueJobs
    (state : JobState)
    (limit : Nat)
    (start : Time)
    (scan : Scan)
    (locked : RowKey → Bool)
    (db : Db) :
    List Job :=
  (((scanJobs scan db).filter
    (fun j =>
      j.state = state && decide (j.runAt ≤ start) &&
        !locked (.job j.id))).insertionSort
    dueOrder).take limit

def promoted (rows : List Job) : Result :=
  .proceed (rows.map .updateJob)
    (rows.map (fun j => .job j.id))

def promoteDueScheduled
    (limit : Nat)
    (start : Time)
    (scan : Scan)
    (locked : RowKey → Bool)
    (db : Db) :
    Result :=
  promoted
    ((dueJobs .scheduled limit start scan locked db).map
      Job.releaseScheduled)

def promoteReadyFailed
    (limit : Nat)
    (start : Time)
    (scan : Scan)
    (locked : RowKey → Bool)
    (db : Db) :
    Result :=
  promoted
    ((dueJobs .failed limit start scan locked db).map
      (fun j => j.releaseFailed start))

/- The dead-letter row of a dead job. -/
def deadLetterOf (j : Job) (start : Time) : DeadLetter where
  jobId := j.id
  tenantId := j.tenantId
  movedAt := start
  finalError := j.lastError
  attemptCount := j.attempt
  originalJob := j

/- Dead jobs without an entry, at most `limit` of them. -/
def unmovedDeadJobs
    (limit : Nat)
    (scan : Scan)
    (db : Db) :
    List Job :=
  ((scanJobs scan db).filter
    (fun j =>
      j.state = .dead &&
        (db.deadLetter? j.id).isNone)).take limit

def moveToDeadLetter
    (limit : Nat)
    (start : Time)
    (scan : Scan)
    (db : Db) :
    Result :=
  .proceed
    ((unmovedDeadJobs limit scan db).map
      (fun j => .insertDeadLetter (deadLetterOf j start)))
    []

/- `GetStaleClaims`. -/
def getStaleClaims (now : Time) (db : Db) : List Job :=
  db.jobs.rows.filter (Job.stale now)

end Storage

end Sluice
