import Sluice.Storage.Statements

/-
  The calls that package `storage` and the command-line tool
  make on jobs, as transactions of a READ COMMITTED
  database.

  A call made by `db.Exec` or `db.QueryRow` is a transaction
  of one statement. Every statement and every commit is a
  step of its own, so calls of any number of workers,
  schedulers and operators interleave freely.

  Key definitions include:
    * `Call`
    * `Call.statement`
    * `Call.admitted`
    * `postgres`
    * `sluice`
    * `Call.whole`
-/

------------------------------------------------------------
-- Calls
------------------------------------------------------------

namespace Sluice

namespace Storage

open Foundations ReadCommitted

/-
  A call and its arguments. Arguments named `now` are the
  caller's `time.Now()`, taken before the call.
-/
inductive Call
| insertJob (j : Job)
| tryClaim (a : ClaimArgs)
| tryClaimLimited
    (a : ClaimArgs) (tenantId : Uuid) (limit : Int)
| extendDeadline (jobId token : Uuid) (deadline : Time)
| completeJob (jobId runId token : Uuid) (now : Time)
| failJob
    (jobId runId token : Uuid) (errMsg : String)
    (nextRunAt : Option Time) (now : Time)
| promoteDueScheduled (limit : Nat)
| promoteReadyFailed (limit : Nat)
| requeueStaleJob (jobId : Uuid) (now : Time)
| moveToDeadLetter (limit : Nat)
| cancelJob (jobId tenantId : Uuid)
| replayJob (jobId tenantId : Uuid)
| forceFail (jobId : Uuid)
deriving DecidableEq, Repr

namespace Call

/- The number of statements before the commit. -/
def length : Call → Nat
| .tryClaimLimited _ _ _ => 3
| .requeueStaleJob _ _ => 2
| .replayJob _ _ => 2
| .forceFail _ => 2
| _ => 1

/- The statement number `pc` of a call. -/
def statement
    (call : Call)
    (pc : Nat)
    (start : Time)
    (scan : Scan)
    (locked : RowKey → Bool)
    (db : Db) :
    Result :=
  match call, pc with
  | .insertJob j, 0 => Storage.insertJob j db
  | .tryClaim a, 0 => Storage.tryClaim a locked db
  | .tryClaimLimited _ tenantId _, 0 =>
      lockTenant tenantId db
  | .tryClaimLimited _ tenantId limit, 1 =>
      countRunning tenantId limit db
  | .tryClaimLimited a _ _, 2 => claimLimited a locked db
  | .extendDeadline jobId token deadline, 0 =>
      Storage.extendDeadline jobId token deadline db
  | .completeJob jobId runId token now, 0 =>
      Storage.completeJob jobId runId token now db
  | .failJob jobId runId token errMsg nextRunAt now, 0 =>
      Storage.failJob jobId runId token errMsg nextRunAt
        now db
  | .promoteDueScheduled limit, 0 =>
      Storage.promoteDueScheduled limit start scan locked db
  | .promoteReadyFailed limit, 0 =>
      Storage.promoteReadyFailed limit start scan locked db
  | .requeueStaleJob jobId now, 0 =>
      closeStaleRuns jobId now db
  | .requeueStaleJob jobId _, 1 =>
      requeueJob jobId start db
  | .moveToDeadLetter limit, 0 =>
      Storage.moveToDeadLetter limit start scan db
  | .cancelJob jobId tenantId, 0 =>
      Storage.cancelJob jobId tenantId start db
  | .replayJob jobId tenantId, 0 =>
      replayUpdate jobId tenantId start db
  | .replayJob jobId _, 1 => replayDelete jobId db
  | .forceFail jobId, 0 => forceFailJob jobId db
  | .forceFail jobId, 1 => forceFailRuns jobId start db
  | _, _ => .abort

/- The arguments of a claim. -/
def claimArgs? : Call → Option ClaimArgs
| .tryClaim a => some a
| .tryClaimLimited a _ _ => some a
| _ => none

/- The claim token that a call brings into the system. -/
def newToken? (call : Call) : Option Uuid :=
  call.claimArgs?.map ClaimArgs.token

/- The run that a call may open. -/
def newRun? (call : Call) : Option Uuid :=
  call.claimArgs?.map ClaimArgs.runId

end Call

end Storage

------------------------------------------------------------
-- Admitted Calls
------------------------------------------------------------

/-
  A job as it is handed to `InsertJob`: never attempted,
  within the limits that `Job.validate` checks, and pending
  by now or scheduled.
-/
def Job.insertable (clock : Time) (j : Job) : Bool :=
  j.attempt = 0 &&
    (decide (priorityHigh ≤ j.priority) &&
      decide (j.priority ≤ priorityLow)) &&
    decide (0 ≤ j.maxRetries) &&
    decide (1 ≤ j.backoffSeconds) &&
    ((j.state = .pending && decide (j.runAt ≤ clock)) ||
      j.state = .scheduled)

namespace Storage

open Foundations ReadCommitted

namespace Call

/-
  The calls that the code makes. Claims bring a new token
  and a new run identifier. A worker records the outcome of
  a claim with the job, run and token of that claim; it may
  do so at any later time and any number of times. All other
  calls are made with arbitrary arguments: a reaper's list,
  for example, may be arbitrarily old.
-/
def admitted
    (clock : Time)
    (calls : List Call) :
    Call → Bool
| .insertJob j => j.insertable clock
| .tryClaim a => fresh a
| .tryClaimLimited a _ _ => fresh a
| .completeJob jobId runId token now =>
    decide (now ≤ clock) && issued jobId runId token
| .failJob jobId runId token _ _ now =>
    decide (now ≤ clock) && issued jobId runId token
| .requeueStaleJob _ now => decide (now ≤ clock)
| _ => true
where
  fresh (a : ClaimArgs) : Bool :=
    decide (a.now ≤ clock) &&
      calls.all
        (fun c =>
          c.newToken? ≠ some a.token &&
            c.newRun? ≠ some a.runId)
  issued (jobId runId token : Uuid) : Bool :=
    calls.any
      (fun c =>
        c.claimArgs?.any
          (fun a =>
            a.jobId = jobId && a.runId = runId &&
              a.token = token))

end Call

/- The database engine. -/
def postgres : Engine Db Write RowKey Call Scan where
  perform := Db.perform
  length := Call.length
  statement := Call.statement
  admits := Call.admitted

/- A database without jobs; tenants and schedules may exist. -/
def Db.initial (db : Db) : Prop :=
  db.jobs = Table.empty ∧ db.jobRuns = Table.empty ∧
    db.deadLetter = Table.empty

theorem Db.initial.job?
    {db : Db}
    (hDb : db.initial)
    (id : Uuid) :
    db.job? id = none := by
  unfold Db.job?
  rw [hDb.1]
  rfl

theorem Db.initial.run?
    {db : Db}
    (hDb : db.initial)
    (id : Uuid) :
    db.run? id = none := by
  unfold Db.run?
  rw [hDb.2.1]
  rfl

theorem Db.initial.deadLetter?
    {db : Db}
    (hDb : db.initial)
    (jobId : Uuid) :
    db.deadLetter? jobId = none := by
  unfold Db.deadLetter?
  rw [hDb.2.2]
  rfl

abbrev Sys := State Db Write RowKey Call

abbrev Sess := Session Write RowKey Call

abbrev Step := Label Call Scan

/- Sluice's use of the database. -/
def sluice : Machine Sys Step :=
  postgres.machine Db.initial

/- The steps of a call that nothing interleaves with. -/
def Call.whole (call : Call) : List Step :=
  .begin call ::
    (List.replicate call.length (.statement 0 (fun k => k)) ++
      [Label.commit 0])

------------------------------------------------------------
-- A Sample System
------------------------------------------------------------

namespace Sample

/- A system with one tenant, at time zero. -/
def start : Sys where
  db :=
    { jobs := Table.empty
      jobRuns := Table.empty
      deadLetter := Table.empty
      schedules := Table.empty
      tenants :=
        Table.empty.insert
          { id := 1
            name := "acme"
            apiKeyHash := ""
            rateLimit := 100
            weight := 100
            status := .active
            webhookSecret := ""
            maxConcurrency := 1 } }
  clock := 0
  sessions := []
  calls := []
  history := []

theorem init_start : sluice.init start :=
  ⟨start.db, start.clock, ⟨rfl, rfl, rfl⟩, rfl⟩

/- A new job of the tenant that may be retried once. -/
def job (id : Uuid) : Job where
  id := id
  tenantId := 1
  type := "webhook"
  payload := ""
  priority := priorityNormal
  state := .pending
  runAt := 0
  claimedAt := none
  claimedBy := none
  claimToken := none
  deadline := none
  attempt := 0
  maxRetries := 1
  backoffSeconds := 30
  idempotencyKey := none
  lastError := none
  createdAt := 0
  completedAt := none
  traceParent := none

/- A claim of a job with token and run number `n`. -/
def claim (jobId n : Uuid) : ClaimArgs where
  jobId := jobId
  workerId := "w"
  token := n
  deadline := 30 * second
  now := 0
  runId := n

end Sample

------------------------------------------------------------
-- Admitted Claims
------------------------------------------------------------

/- An admitted claim is by now, with new identifiers. -/
theorem Call.fresh_of_admitted
    {clock : Time}
    {calls : List Call}
    {call : Call}
    {a : ClaimArgs}
    (hAdmitted : call.admitted clock calls = true)
    (hClaim : call.claimArgs? = some a) :
    a.now ≤ clock ∧
      ∀ other ∈ calls,
        other.newToken? ≠ some a.token ∧
          other.newRun? ≠ some a.runId := by
  have hFresh :
      Call.admitted.fresh clock calls a = true := by
    cases call <;>
      simp_all [Call.claimArgs?, Call.admitted]
  simpa [Call.admitted.fresh] using hFresh

theorem Call.newToken_fresh
    (clock : Int)
    (calls : List Call)
    (call : Call)
    (token : Uuid)
    (hAdmitted : call.admitted clock calls = true)
    (hToken : call.newToken? = some token) :
    ∀ other ∈ calls, other.newToken? ≠ some token := by
  rcases Option.map_eq_some_iff.mp hToken with
    ⟨a, hClaim, rfl⟩
  intro other hOther
  exact
    ((Call.fresh_of_admitted hAdmitted hClaim).2
      other hOther).1

theorem Call.newRun_fresh
    (clock : Int)
    (calls : List Call)
    (call : Call)
    (runId : Uuid)
    (hAdmitted : call.admitted clock calls = true)
    (hRun : call.newRun? = some runId) :
    ∀ other ∈ calls, other.newRun? ≠ some runId := by
  rcases Option.map_eq_some_iff.mp hRun with
    ⟨a, hClaim, rfl⟩
  intro other hOther
  exact
    ((Call.fresh_of_admitted hAdmitted hClaim).2
      other hOther).2

end Storage

end Sluice
