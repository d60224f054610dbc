import Sluice.Foundations.Table
import Sluice.Job.Basic

/-
  The tables of the database.

  Table `job_runs` is partitioned and has no primary key;
  its identifiers come from `uuid.New`, so it is kept by
  identifier like the other tables.

  Key definitions include:
    * `RunRow`
    * `DeadLetter`
    * `Schedule`
    * `Tenant`
    * `Db`
    * `Write`
    * `RowKey`
    * `Db.perform`

  Key theorems include:
    * `Db.job?_perform`
    * `Db.run?_perform`
    * `Db.deadLetter?_perform`
-/

------------------------------------------------------------
-- Rows
------------------------------------------------------------

namespace Sluice

namespace Storage

open Foundations

/- A row of table `job_runs`: one execution of a job. -/
structure RunRow where
  id : Uuid
  jobId : Uuid
  tenantId : Uuid
  attempt : Int
  startedAt : Time
  finishedAt : Option Time
  state : JobState
  error : Option String
  durationMs : Option Int
deriving DecidableEq, Repr

/- A row of table `dead_letter`. -/
structure DeadLetter where
  jobId : Uuid
  tenantId : Uuid
  movedAt : Time
  finalError : Option String
  attemptCount : Int
  originalJob : Job
deriving DecidableEq, Repr

/- A row of table `schedules`. -/
structure Schedule where
  id : Uuid
  tenantId : Uuid
  name : String
  cron : String
  timezone : String
  jobTemplate : String
  enabled : Bool
  lastRunAt : Option Time
  nextRunAt : Time
deriving DecidableEq, Repr

/- The values that `SetTenantStatus` accepts. -/
inductive TenantStatus
| active
| disabled
deriving DecidableEq, Repr

/- A row of table `tenants`. -/
structure Tenant where
  id : Uuid
  name : String
  apiKeyHash : String
  rateLimit : Int
  weight : Int
  status : TenantStatus
  webhookSecret : String
  maxConcurrency : Int
deriving DecidableEq, Repr

instance : Keyed Job Uuid where
  key := Job.id

instance : Keyed RunRow Uuid where
  key := RunRow.id

instance : Keyed DeadLetter Uuid where
  key := DeadLetter.jobId

instance : Keyed Schedule Uuid where
  key := Schedule.id

instance : Keyed Tenant Uuid where
  key := Tenant.id

/- The committed contents of the database. -/
structure Db where
  jobs : Table Job
  jobRuns : Table RunRow
  deadLetter : Table DeadLetter
  schedules : Table Schedule
  tenants : Table Tenant

------------------------------------------------------------
-- Writes And Row Locks
------------------------------------------------------------

/-
  The row versions a transaction leaves at its commit. An
  inserted dead-letter row gives way to an existing one:
  `ON CONFLICT (job_id) DO NOTHING`.
-/
inductive Write
| insertJob : Job → Write
| updateJob : Job → Write
| insertRun : RunRow → Write
| updateRun : RunRow → Write
| insertDeadLetter : DeadLetter → Write
| deleteDeadLetter : Uuid → Write
deriving DecidableEq, Repr

/-
  What a transaction can lock: rows, and the entry of a
  tenant's idempotency key in its unique index.
-/
inductive RowKey
| job : Uuid → RowKey
| run : Uuid → RowKey
| deadLetter : Uuid → RowKey
| tenant : Uuid → RowKey
| idempotencyKey : Uuid → String → RowKey
deriving DecidableEq, Repr

namespace Db

def job? (db : Db) (id : Uuid) : Option Job :=
  db.jobs.find? id

def run? (db : Db) (id : Uuid) : Option RunRow :=
  db.jobRuns.find? id

def deadLetter?
    (db : Db)
    (jobId : Uuid) :
    Option DeadLetter :=
  db.deadLetter.find? jobId

/- The job exists and is the tenant's. -/
def JobOf (db : Db) (jobId tenantId : Uuid) : Prop :=
  ∃ j, db.job? jobId = some j ∧ j.tenantId = tenantId

/- Carry out one write. -/
def perform (db : Db) : Write → Db
| .insertJob row =>
    { db with jobs := db.jobs.insert row }
| .updateJob row =>
    { db with jobs := db.jobs.put row }
| .insertRun row =>
    { db with jobRuns := db.jobRuns.insert row }
| .updateRun row =>
    { db with jobRuns := db.jobRuns.put row }
| .insertDeadLetter row =>
    { db with deadLetter := db.deadLetter.insert row }
| .deleteDeadLetter jobId =>
    { db with deadLetter := db.deadLetter.delete jobId }

end Db

------------------------------------------------------------
-- Lookup After A Write
------------------------------------------------------------

namespace Db

theorem job?_perform
    (db : Db)
    (w : Write)
    (id : Uuid) :
    (db.perform w).job? id =
      match w with
      | .insertJob row =>
          if id = row.id ∧ db.job? id = none then some row
          else db.job? id
      | .updateJob row =>
          if id = row.id then
            (db.job? id).map (fun _ => row)
          else db.job? id
      | _ => db.job? id := by
  cases w with
  | insertJob row => exact Table.find?_insert _ _ _
  | updateJob row => exact Table.find?_put _ _ _
  | insertRun row => rfl
  | updateRun row => rfl
  | insertDeadLetter row => rfl
  | deleteDeadLetter jobId => rfl

theorem run?_perform
    (db : Db)
    (w : Write)
    (id : Uuid) :
    (db.perform w).run? id =
      match w with
      | .insertRun row =>
          if id = row.id ∧ db.run? id = none then some row
          else db.run? id
      | .updateRun row =>
          if id = row.id then
            (db.run? id).map (fun _ => row)
          else db.run? id
      | _ => db.run? id := by
  cases w with
  | insertJob row => rfl
  | updateJob row => rfl
  | insertRun row => exact Table.find?_insert _ _ _
  | updateRun row => exact Table.find?_put _ _ _
  | insertDeadLetter row => rfl
  | deleteDeadLetter jobId => rfl

theorem deadLetter?_perform
    (db : Db)
    (w : Write)
    (jobId : Uuid) :
    (db.perform w).deadLetter? jobId =
      match w with
      | .insertDeadLetter row =>
          if jobId = row.jobId ∧
              db.deadLetter? jobId = none then
            some row
          else db.deadLetter? jobId
      | .deleteDeadLetter gone =>
          if jobId = gone then none
          else db.deadLetter? jobId
      | _ => db.deadLetter? jobId := by
  cases w with
  | insertJob row => rfl
  | updateJob row => rfl
  | insertRun row => rfl
  | updateRun row => rfl
  | insertDeadLetter row => exact Table.find?_insert _ _ _
  | deleteDeadLetter gone => exact Table.find?_delete _ _ _

@[simp] theorem tenants_perform
    (db : Db)
    (w : Write) :
    (db.perform w).tenants = db.tenants := by
  cases w <;> rfl

theorem id_of_job?
    {db : Db}
    {id : Uuid}
    {j : Job}
    (hFind : db.job? id = some j) :
    j.id = id :=
  Table.key_of_find? hFind

theorem id_of_run?
    {db : Db}
    {id : Uuid}
    {r : RunRow}
    (hFind : db.run? id = some r) :
    r.id = id :=
  Table.key_of_find? hFind

end Db

end Storage

end Sluice
