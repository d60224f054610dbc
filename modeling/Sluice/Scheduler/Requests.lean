import Sluice.Scheduler.Cron

/-
  The requests that create, change and delete schedules, up
  to the statement that carries them out.

  Key definitions include:
    * `nextRun`
    * `createSchedule`
    * `insertSchedule` and `deleteSchedule`
    * `updateRefusal`

  Key theorems include:
    * `createSchedule_eq_ok`
    * `insertSchedule_eq_some`
    * `deleteSchedule_eq_some`
-/

------------------------------------------------------------
-- Handlers
------------------------------------------------------------

namespace Sluice

namespace Scheduler

namespace Cron

open Foundations Storage

/-
  `nextError` is the text with which `nextRun` refuses a cron
  expression or a timezone: the library's own message is part
  of it.
-/
structure RequestParsers extends Parsers where
  nextError : String → String → String

/- The next occurrence after now. -/
def nextRun
    (P : RequestParsers)
    (cron timezone : String)
    (now : Time) :
    Except String Time :=
  match P.next cron timezone now with
  | none => .error (P.nextError cron timezone)
  | some next => .ok next

/- The error of `validateTemplate`. -/
def templateError
    (P : Parsers)
    (tenantId : Uuid)
    (now : Time)
    (raw : String) :
    Option String :=
  match P.template raw with
  | none => some "invalid job_template"
  | some t =>
      match
        t.build P.validateWebhookPayload tenantId 0 now
      with
      | .error message =>
          some ("invalid job_template: " ++ message)
      | .ok _ => none

/- The body of `POST /v1/schedules`. -/
structure CreateScheduleRequest where
  name : String
  cron : String
  timezone : String
  jobTemplate : String
deriving DecidableEq, Repr

/- The timezone of a new schedule. -/
def CreateScheduleRequest.location
    (req : CreateScheduleRequest) :
    String :=
  if req.timezone = "" then "UTC" else req.timezone

/-
  The row that `handleCreateSchedule` inserts, or the text of
  its refusal. `id` is the new UUID of the schedule.
-/
def createSchedule
    (P : RequestParsers)
    (tenantId id : Uuid)
    (now : Time)
    (req : CreateScheduleRequest) :
    Except String Schedule :=
  if req.name = "" then .error "name is required"
  else if req.cron = "" then .error "cron is required"
  else if req.jobTemplate = "" then
    .error "job_template is required"
  else
    match
      templateError P.toParsers tenantId now req.jobTemplate
    with
    | some message => .error message
    | none =>
        match nextRun P req.cron req.location now with
        | .error message => .error message
        | .ok next =>
            .ok
              { id := id
                tenantId := tenantId
                name := req.name
                cron := req.cron
                timezone := req.location
                jobTemplate := req.jobTemplate
                enabled := true
                lastRunAt := none
                nextRunAt := next }

/- `ErrDuplicate` if the tenant has a schedule of the name. -/
def insertSchedule
    (sched : Schedule)
    (db : Db) :
    Option Db :=
  if (db.schedules.find? sched.id).isSome then none
  else if
    db.schedules.rows.any
      (fun row =>
        row.tenantId = sched.tenantId &&
          row.name = sched.name)
  then none
  else
    some { db with schedules := db.schedules.insert sched }

/- `ErrNotFound` unless the tenant has the schedule. -/
def deleteSchedule
    (id tenantId : Uuid)
    (db : Db) :
    Option Db :=
  if
    (db.schedules.find? id).any
      (fun row => row.tenantId = tenantId)
  then
    some { db with schedules := db.schedules.delete id }
  else none

/- Why `handleUpdateSchedule` refuses to store a row. -/
def updateRefusal
    (P : RequestParsers)
    (req : UpdateScheduleRequest)
    (now : Time)
    (sched : Schedule) :
    String :=
  match
    req.jobTemplate.bind
      (templateError P.toParsers sched.tenantId now)
  with
  | some message => message
  | none =>
      P.nextError (req.cron.getD sched.cron)
        (req.timezone.getD sched.timezone)

------------------------------------------------------------
-- What They Store
------------------------------------------------------------

theorem createSchedule_eq_ok
    {P : RequestParsers}
    {tenantId id : Uuid}
    {now : Time}
    {req : CreateScheduleRequest}
    {sched : Schedule}
    (hCreate :
      createSchedule P tenantId id now req = .ok sched) :
    sched.id = id ∧ sched.tenantId = tenantId ∧
      sched.cron = req.cron ∧
        sched.timezone = req.location ∧
          P.next req.cron req.location now =
            some sched.nextRunAt := by
  unfold createSchedule at hCreate
  split at hCreate
  · cases hCreate
  split at hCreate
  · cases hCreate
  split at hCreate
  · cases hCreate
  split at hCreate
  · cases hCreate
  unfold nextRun at hCreate
  cases hNext : P.next req.cron req.location now with
  | none =>
      rw [hNext] at hCreate
      cases hCreate
  | some next =>
      rw [hNext] at hCreate
      cases hCreate
      exact ⟨rfl, rfl, rfl, rfl, rfl⟩

theorem insertSchedule_eq_some
    {sched : Schedule}
    {db db' : Db}
    (hInsert : insertSchedule sched db = some db') :
    db.schedules.find? sched.id = none ∧
      db' =
        { db with
          schedules := db.schedules.insert sched } := by
  unfold insertSchedule at hInsert
  split at hInsert
  · cases hInsert
  rename_i hFree
  split at hInsert
  · cases hInsert
  cases hInsert
  exact ⟨Option.not_isSome_iff_eq_none.mp hFree, rfl⟩

theorem deleteSchedule_eq_some
    {id tenantId : Uuid}
    {db db' : Db}
    (hDelete : deleteSchedule id tenantId db = some db') :
    (∃ row, db.schedules.find? id = some row ∧
        row.tenantId = tenantId) ∧
      db' =
        { db with schedules := db.schedules.delete id } := by
  unfold deleteSchedule at hDelete
  split at hDelete
  · rename_i hOwn
    cases hDelete
    refine ⟨?_, rfl⟩
    simpa [Option.any_eq_true] using hOwn
  · cases hDelete

end Cron

end Scheduler

end Sluice
