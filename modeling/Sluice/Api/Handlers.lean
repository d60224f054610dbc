import Sluice.Api.RateLimit
import Sluice.Queue.Redis
import Sluice.Scheduler.Requests
import Sluice.Storage.Links
import Sluice.Storage.Queries

/-
  The handlers under `/v1`.

  A handler is given the tenant that the authentication put
  into the context, and a request whose parameters and body
  have been read: an identifier that is no UUID and a body
  that is no JSON of the right shape are `none`. It runs alone
  on the database and on Redis. The times, the new UUID and
  the failures of single calls come from its environment.

  Key definitions include:
    * `Store` and `Env`
    * `Response`
    * `Request`
    * `handle`
-/

------------------------------------------------------------
-- Requests And Responses
------------------------------------------------------------

namespace Sluice

namespace Api

open Foundations Storage Queue

/- Postgres and Redis. -/
structure Store where
  db : Db
  redis : Redis
  buckets : TokenBuckets

/- The calls that can fail. -/
inductive Op
| allow
| insertJob
| getJobByIdempotencyKey
| enqueue
| getJobForTenant
| getJob
| listJobs
| listJobRuns
| cancelJob
| replayJob
| insertSchedule
| listSchedules
| getSchedule
| deleteSchedule
| updateSchedule
| depths
| countJobsByState
| listRecentRuns
| listDeadLetter
deriving DecidableEq, Repr

/-
  What a handler gets from outside: `time.Now()`, the
  database's `NOW()`, Redis's `TIME`, a new UUID, the order in
  which the database scans, whether there is a rate limiter,
  and which calls fail.
-/
structure Env where
  now : Time
  dbNow : Time
  redisNow : Time
  newId : Uuid
  scan : Scan
  limiter : Bool
  fails : Op → Bool

structure QueueDepth where
  tenantId : Uuid
  tenant : String
  priority : String
  depth : Nat
deriving DecidableEq, Repr

structure StatsSnapshot where
  queues : List QueueDepth
  jobsByState : List (JobState × Nat)
  timestamp : Time
deriving DecidableEq, Repr

/- What is encoded as JSON; lists come with their length. -/
inductive Body
| empty
| error (message : String)
| job (j : Job)
| jobs (jobs : List Job)
| runs (runs : List JobRun)
| entries (entries : List DeadLetterEntry)
| schedule (sched : Schedule)
| schedules (schedules : List Schedule)
| stats (snapshot : StatsSnapshot)
| secret (secret scheme : String)
deriving DecidableEq, Repr

structure Response where
  status : Nat
  retryAfter : Option String
  body : Body
deriving DecidableEq, Repr

def writeJSON (code : Nat) (body : Body) : Response :=
  ⟨code, none, body⟩

def writeError (code : Nat) (message : String) : Response :=
  writeJSON code (.error message)

structure SubmitJobRequest where
  template : Template
  runAt : Option Time
  idempotencyKey : Option String
deriving DecidableEq, Repr

/-
  The query of `GET /v1/jobs`. Empty strings are absent
  parameters; numbers that cannot be read are `none`.
-/
structure ListJobsParams where
  state : String
  retried : String
  limit : Option Int
  offset : Option Int
deriving DecidableEq, Repr

inductive Request
| submitJob
    (body : Option SubmitJobRequest)
    (traceParent : Option String)
| getJob (id : Option Uuid)
| listJobs (params : ListJobsParams)
| listJobRuns (id : Option Uuid)
| cancelJob (id : Option Uuid)
| replayJob (id : Option Uuid)
| webhookSecret
| createSchedule
    (body : Option Scheduler.Cron.CreateScheduleRequest)
| listSchedules
| getSchedule (id : Option Uuid)
| deleteSchedule (id : Option Uuid)
| updateSchedule
    (id : Option Uuid)
    (body : Option Scheduler.Cron.UpdateScheduleRequest)
| stats
| recentRuns (limit : Option Int)
| deadLetter (limit : Option Int)

------------------------------------------------------------
-- Job Handlers
------------------------------------------------------------

def maxIdempotencyKeyLen : Nat := 255

/- The key must have 1 to 255 bytes. -/
def badIdempotencyKey (key : String) : Bool :=
  key = "" || decide (maxIdempotencyKeyLen < key.utf8ByteSize)

/- Without an answer of the limiter, jobs are accepted. -/
def checkLimit
    (env : Env)
    (t : Tenant)
    (s : Store) :
    Bool × Store :=
  if env.limiter && !env.fails .allow then
    let taken :=
      allow t.id t.rateLimit (env.redisNow / 1000) s.buckets
    (taken.1, { s with buckets := taken.2 })
  else (true, s)

/- The original job of an idempotency key, or a conflict. -/
def duplicateResponse
    (env : Env)
    (t : Tenant)
    (key : Option String)
    (s : Store) :
    Response :=
  let found :=
    if env.fails .getJobByIdempotencyKey then none
    else
      key.bind
        (fun key =>
          getJobByIdempotencyKey t.id key env.scan s.db)
  match found with
  | some existing => writeJSON 200 (.job existing)
  | none => writeError 409 "duplicate idempotency key"

/- After `InsertJob`: a duplicate, or a job to enqueue. -/
def afterInsert
    (env : Env)
    (t : Tenant)
    (j : Job)
    (result : Storage.Result)
    (s : Store) :
    Response × Store :=
  match result with
  | .abort =>
      (duplicateResponse env t j.idempotencyKey s, s)
  | .proceed writes _ =>
      (writeJSON 201 (.job j),
        { s with
          db := postgres.performAll s.db writes
          redis :=
            if j.state = .pending ∧
                env.fails .enqueue = false then
              s.redis.enqueue j.tenantId j.id j.priority
            else s.redis })

def storeSubmitted
    (env : Env)
    (t : Tenant)
    (j : Job)
    (s : Store) :
    Response × Store :=
  if env.fails .insertJob then
    (writeError 500 "failed to create job", s)
  else afterInsert env t j (insertJob j s.db) s

def handleSubmitJob
    (P : Scheduler.Cron.RequestParsers)
    (env : Env)
    (t : Tenant)
    (body : Option SubmitJobRequest)
    (traceParent : Option String)
    (s : Store) :
    Response × Store :=
  match body with
  | none => (writeError 400 "invalid request body", s)
  | some req =>
      if req.idempotencyKey.any badIdempotencyKey then
        (writeError 400
          "idempotency_key must be 1-255 characters", s)
      else
        match
          submitJob P.validateWebhookPayload req.template
            t.id env.newId env.now req.runAt
            req.idempotencyKey traceParent
        with
        | .error message => (writeError 400 message, s)
        | .ok j =>
            let limited := checkLimit env t s
            if limited.1 then
              storeSubmitted env t j limited.2
            else
              (⟨429, some "1", .error "rate limit exceeded"⟩,
                limited.2)

def handleGetJob
    (env : Env)
    (t : Tenant)
    (id : Option Uuid)
    (s : Store) :
    Response :=
  match id with
  | none => writeError 400 "invalid job id"
  | some id =>
      if env.fails .getJobForTenant then
        writeError 500 "failed to get job"
      else
        match getJobForTenant id t.id s.db with
        | none => writeError 404 "job not found"
        | some j => writeJSON 200 (.job j)

def handleWebhookSecret (t : Tenant) : Response :=
  writeJSON 200
    (.secret t.webhookSecret "standard-webhooks-v1")

def handleListJobRuns
    (env : Env)
    (t : Tenant)
    (id : Option Uuid)
    (s : Store) :
    Response :=
  match id with
  | none => writeError 400 "invalid job id"
  | some id =>
      if env.fails .getJobForTenant then
        writeError 500 "failed to get job"
      else
        match getJobForTenant id t.id s.db with
        | none => writeError 404 "job not found"
        | some _ =>
            if env.fails .listJobRuns then
              writeError 500 "failed to list runs"
            else
              writeJSON 200
                (.runs (listJobRuns id t.id env.scan s.db))

/- `State.Valid`. -/
def parseState : String → Option JobState
| "pending" => some .pending
| "scheduled" => some .scheduled
| "claimed" => some .claimed
| "running" => some .running
| "succeeded" => some .succeeded
| "failed" => some .failed
| "dead" => some .dead
| "cancelled" => some .cancelled
| _ => none

/- `strconv.ParseBool`. -/
def parseBool (v : String) : Option Bool :=
  if v ∈ ["1", "t", "T", "TRUE", "true", "True"] then
    some true
  else if v ∈ ["0", "f", "F", "FALSE", "false", "False"] then
    some false
  else none

/- A limit from 1 to 500, or 50. -/
def limitParam (limit : Option Int) : Nat :=
  match limit with
  | none => 50
  | some n => if 0 < n ∧ n ≤ 500 then n.toNat else 50

/- The filter of a list request, or why it is refused. -/
def listFilter
    (t : Tenant)
    (params : ListJobsParams) :
    Except String ListFilter :=
  if params.state ≠ "" ∧ parseState params.state = none then
    .error ("unknown state " ++ params.state.quote)
  else if
    params.retried ≠ "" ∧ parseBool params.retried = none
  then
    .error "retried must be true or false"
  else
    .ok
      { tenantId := t.id
        state := parseState params.state
        retried := (parseBool params.retried).getD false
        limit := limitParam params.limit
        offset := (params.offset.getD 0).toNat }

def handleListJobs
    (env : Env)
    (t : Tenant)
    (params : ListJobsParams)
    (s : Store) :
    Response :=
  match listFilter t params with
  | .error message => writeError 400 message
  | .ok filter =>
      if env.fails .listJobs then
        writeError 500 "failed to list jobs"
      else
        writeJSON 200
          (.jobs (listJobs filter env.scan s.db))

/- A statement that wrote no row found no job. -/
def afterCancel
    (result : Storage.Result)
    (s : Store) :
    Response × Store :=
  match result with
  | .abort => (writeError 500 "failed to cancel job", s)
  | .proceed [] _ =>
      (writeError 404 "job not found or not cancellable", s)
  | .proceed writes _ =>
      (writeJSON 204 .empty,
        { s with db := postgres.performAll s.db writes })

def handleCancelJob
    (env : Env)
    (t : Tenant)
    (id : Option Uuid)
    (s : Store) :
    Response × Store :=
  match id with
  | none => (writeError 400 "invalid job id", s)
  | some id =>
      if env.fails .cancelJob then
        (writeError 500 "failed to cancel job", s)
      else
        afterCancel (cancelJob id t.id env.dbNow s.db) s

/- `GetJob` after the transaction goes by identifier alone. -/
def handleReplayJob
    (env : Env)
    (t : Tenant)
    (id : Option Uuid)
    (s : Store) :
    Response × Store :=
  match id with
  | none => (writeError 400 "invalid job id", s)
  | some id =>
      if env.fails .replayJob then
        (writeError 500 "failed to replay job", s)
      else
        match replay id t.id env.dbNow s.db with
        | none =>
            (writeError 404
              "job not found or not in dead state", s)
        | some db =>
            if env.fails .getJob then
              (writeError 500 "failed to replay job",
                { s with db := db })
            else
              match db.job? id with
              | none =>
                  (writeError 404
                    "job not found or not in dead state",
                    { s with db := db })
              | some j =>
                  (writeJSON 200 (.job j),
                    { s with
                      db := db
                      redis :=
                        if env.fails .enqueue then s.redis
                        else
                          s.redis.enqueue t.id id
                            j.priority })

------------------------------------------------------------
-- Schedule Handlers
------------------------------------------------------------

open Scheduler.Cron

def handleCreateSchedule
    (P : RequestParsers)
    (env : Env)
    (t : Tenant)
    (body : Option CreateScheduleRequest)
    (s : Store) :
    Response × Store :=
  match body with
  | none => (writeError 400 "invalid request body", s)
  | some req =>
      match createSchedule P t.id env.newId env.now req with
      | .error message => (writeError 400 message, s)
      | .ok sched =>
          if env.fails .insertSchedule then
            (writeError 500 "failed to create schedule", s)
          else
            match insertSchedule sched s.db with
            | none =>
                (writeError 409
                  "schedule name already exists", s)
            | some db =>
                (writeJSON 201 (.schedule sched),
                  { s with db := db })

def handleListSchedules
    (env : Env)
    (t : Tenant)
    (s : Store) :
    Response :=
  if env.fails .listSchedules then
    writeError 500 "failed to list schedules"
  else
    writeJSON 200
      (.schedules (listSchedules t.id env.scan s.db))

def handleGetSchedule
    (env : Env)
    (t : Tenant)
    (id : Option Uuid)
    (s : Store) :
    Response :=
  match id with
  | none => writeError 400 "invalid schedule id"
  | some id =>
      if env.fails .getSchedule then
        writeError 500 "failed to get schedule"
      else
        match getSchedule id t.id s.db with
        | none => writeError 404 "schedule not found"
        | some sched => writeJSON 200 (.schedule sched)

def handleDeleteSchedule
    (env : Env)
    (t : Tenant)
    (id : Option Uuid)
    (s : Store) :
    Response × Store :=
  match id with
  | none => (writeError 400 "invalid schedule id", s)
  | some id =>
      if env.fails .deleteSchedule then
        (writeError 500 "failed to delete schedule", s)
      else
        match deleteSchedule id t.id s.db with
        | none => (writeError 404 "schedule not found", s)
        | some db =>
            (writeJSON 204 .empty, { s with db := db })

/- Any error of the last statement is an internal error. -/
def handleUpdateSchedule
    (P : RequestParsers)
    (env : Env)
    (t : Tenant)
    (id : Option Uuid)
    (body : Option UpdateScheduleRequest)
    (s : Store) :
    Response × Store :=
  match id, body with
  | none, _ => (writeError 400 "invalid schedule id", s)
  | some _, none =>
      (writeError 400 "invalid request body", s)
  | some id, some req =>
      if env.fails .getSchedule then
        (writeError 500 "failed to update schedule", s)
      else
        match getSchedule id t.id s.db with
        | none => (writeError 404 "schedule not found", s)
        | some sched =>
            match
              editSchedule P.toParsers req env.now sched
            with
            | none =>
                (writeError 400
                  (updateRefusal P req env.now sched), s)
            | some saved =>
                if env.fails .updateSchedule then
                  (writeError 500
                    "failed to update schedule", s)
                else
                  match updateSchedule saved s.db with
                  | none =>
                      (writeError 500
                        "failed to update schedule", s)
                  | some db =>
                      (writeJSON 200 (.schedule saved),
                        { s with db := db })

------------------------------------------------------------
-- Dashboard Handlers
------------------------------------------------------------

def priorityLabel : Bucket → String
| .high => "high"
| .normal => "normal"
| .low => "low"

/- The lengths of the tenant's lanes. -/
def depths (t : Tenant) (redis : Redis) : List QueueDepth :=
  priorityBuckets.map
    (fun bucket =>
      { tenantId := t.id
        tenant := t.name
        priority := priorityLabel bucket
        depth := (redis.lanes ⟨bucket, t.id⟩).length })

def handleStats
    (env : Env)
    (t : Tenant)
    (s : Store) :
    Response :=
  if env.fails .depths || env.fails .countJobsByState then
    writeError 500 "failed to read stats"
  else
    writeJSON 200
      (.stats
        { queues := depths t s.redis
          jobsByState := countJobsByState t.id s.db
          timestamp := env.now })

def handleRecentRuns
    (env : Env)
    (t : Tenant)
    (limit : Option Int)
    (s : Store) :
    Response :=
  if env.fails .listRecentRuns then
    writeError 500 "failed to list runs"
  else
    writeJSON 200
      (.runs
        (listRecentRuns t.id (limitParam limit) env.scan
          s.db))

def handleDeadLetter
    (env : Env)
    (t : Tenant)
    (limit : Option Int)
    (s : Store) :
    Response :=
  if env.fails .listDeadLetter then
    writeError 500 "failed to list dead letter"
  else
    writeJSON 200
      (.entries
        (listDeadLetter t.id (limitParam limit) env.scan
          s.db))

/- The routes under `/v1`, behind the authentication. -/
def handle
    (P : RequestParsers)
    (env : Env)
    (t : Tenant)
    (req : Request)
    (s : Store) :
    Response × Store :=
  match req with
  | .submitJob body traceParent =>
      handleSubmitJob P env t body traceParent s
  | .getJob id => (handleGetJob env t id s, s)
  | .listJobs params => (handleListJobs env t params s, s)
  | .listJobRuns id => (handleListJobRuns env t id s, s)
  | .cancelJob id => handleCancelJob env t id s
  | .replayJob id => handleReplayJob env t id s
  | .webhookSecret => (handleWebhookSecret t, s)
  | .createSchedule body =>
      handleCreateSchedule P env t body s
  | .listSchedules => (handleListSchedules env t s, s)
  | .getSchedule id => (handleGetSchedule env t id s, s)
  | .deleteSchedule id => handleDeleteSchedule env t id s
  | .updateSchedule id body =>
      handleUpdateSchedule P env t id body s
  | .stats => (handleStats env t s, s)
  | .recentRuns limit => (handleRecentRuns env t limit s, s)
  | .deadLetter limit => (handleDeadLetter env t limit s, s)

end Api

end Sluice
