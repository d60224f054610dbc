import Mathlib.Data.List.Basic
import Sluice.Foundations.Machine
import Sluice.Job.Template
import Sluice.Storage.Statements

/-
  Recurring jobs.

  A leader reads a due schedule, inserts a job for the
  occurrence it has read, and then stores the next run. A
  request may edit the schedule meanwhile: it reads the row,
  and later stores what it has read with its changes. Each of
  these is one step on the database, and both ways of writing
  overwrite `next_run_at` whatever it is by then. Jobs are
  only inserted here; nothing else changes the columns that
  matter.

  Key definitions include:
    * `occurrenceKey`
    * `updateScheduleAfterRun` and `updateSchedule`
    * `editSchedule`
    * `Fire` and `Edit`
    * `State`, `step` and `machine`

  Key theorems include:
    * `editSchedule_cases`
-/

------------------------------------------------------------
-- Schedules
------------------------------------------------------------

namespace Sluice

namespace Scheduler

namespace Cron

open Foundations Storage

/-
  The libraries that read cron expressions and JSON. `next`
  is the first run after a time, for a cron expression and a
  timezone that are both valid.
-/
structure Parsers where
  next : String → String → Time → Option Time
  template : String → Option Template
  validateWebhookPayload : String → Except String Unit

/- `fmt.Sprintf("schedule:%s:%d", id, occurrence.Unix())`. -/
def occurrenceKey
    (scheduleId : Uuid)
    (occurrence : Time) :
    String :=
  "schedule:" ++
    (Nat.repr scheduleId ++
      (":" ++ Int.repr occurrence.unix))

/- `WHERE enabled = TRUE AND next_run_at <= NOW()`. -/
def isDue (now : Time) (sched : Schedule) : Bool :=
  sched.enabled && decide (sched.nextRunAt ≤ now)

/- `UPDATE schedules SET .. WHERE id = $1`. -/
def changeSchedule
    (id : Uuid)
    (change : Schedule → Schedule)
    (db : Db) :
    Db :=
  match db.schedules.find? id with
  | none => db
  | some row =>
      { db with schedules := db.schedules.put (change row) }

def rowAfterRun
    (lastRunAt nextRunAt : Time)
    (row : Schedule) :
    Schedule :=
  { row with
    lastRunAt := some lastRunAt
    nextRunAt := nextRunAt }

def updateScheduleAfterRun
    (id : Uuid)
    (lastRunAt nextRunAt : Time) :
    Db → Db :=
  changeSchedule id (rowAfterRun lastRunAt nextRunAt)

def rowAfterEdit (sched row : Schedule) : Schedule :=
  { row with
    cron := sched.cron
    timezone := sched.timezone
    jobTemplate := sched.jobTemplate
    enabled := sched.enabled
    nextRunAt := sched.nextRunAt }

/- `ErrNotFound` unless the tenant has the schedule. -/
def updateSchedule
    (sched : Schedule)
    (db : Db) :
    Option Db :=
  if
    (db.schedules.find? sched.id).any
      (fun row => row.tenantId = sched.tenantId)
  then
    some (changeSchedule sched.id (rowAfterEdit sched) db)
  else none

/-
  `InsertJob` as a statement of its own. A duplicate leaves
  the database as it is.
-/
def storeJob (j : Job) (db : Db) : Db :=
  match insertJob j db with
  | .abort => db
  | .proceed writes _ => writes.foldl Db.perform db

/- The body of `PATCH /v1/schedules/{id}`. -/
structure UpdateScheduleRequest where
  enabled : Option Bool
  cron : Option String
  timezone : Option String
  jobTemplate : Option String
deriving DecidableEq, Repr

def validateTemplate
    (P : Parsers)
    (tenantId : Uuid)
    (now : Time)
    (raw : String) :
    Bool :=
  match P.template raw with
  | none => false
  | some t =>
      match
        t.build P.validateWebhookPayload tenantId 0 now
      with
      | .error _ => false
      | .ok _ => true

/- Whether the request makes the next run be recomputed. -/
def recomputes
    (req : UpdateScheduleRequest)
    (sched : Schedule) :
    Bool :=
  req.cron.any (· ≠ sched.cron) ||
    req.timezone.any (· ≠ sched.timezone) ||
      (req.enabled = some true && !sched.enabled)

/-
  The row that `handleUpdateSchedule` stores, or `none` if it
  refuses the request.
-/
def editSchedule
    (P : Parsers)
    (req : UpdateScheduleRequest)
    (now : Time)
    (sched : Schedule) :
    Option Schedule :=
  let edited :=
    { sched with
      cron := req.cron.getD sched.cron
      timezone := req.timezone.getD sched.timezone
      enabled := req.enabled.getD sched.enabled
      jobTemplate := req.jobTemplate.getD sched.jobTemplate }
  if
    req.jobTemplate.all
      (validateTemplate P sched.tenantId now)
  then
    if recomputes req sched then
      (P.next edited.cron edited.timezone now).map
        (fun next => { edited with nextRunAt := next })
    else some edited
  else none

/-
  An edit keeps the timetable it read, or computes the next
  run of the timetable that it stores.
-/
theorem editSchedule_cases
    {P : Parsers}
    {req : UpdateScheduleRequest}
    {now : Time}
    {sched saved : Schedule}
    (hEdit : editSchedule P req now sched = some saved) :
    saved.id = sched.id ∧ saved.tenantId = sched.tenantId ∧
      saved.cron = req.cron.getD sched.cron ∧
        saved.timezone = req.timezone.getD sched.timezone ∧
          ((recomputes req sched = true ∧
              P.next saved.cron saved.timezone now =
                some saved.nextRunAt) ∨
            (recomputes req sched = false ∧
              saved.cron = sched.cron ∧
                saved.timezone = sched.timezone ∧
                  saved.nextRunAt = sched.nextRunAt)) := by
  unfold editSchedule at hEdit
  split at hEdit
  · cases hRecompute : recomputes req sched with
    | true =>
        rw [hRecompute, if_pos rfl] at hEdit
        rcases Option.map_eq_some_iff.mp hEdit with
          ⟨next, hNext, hSaved⟩
        subst hSaved
        exact ⟨rfl, rfl, rfl, rfl, .inl ⟨rfl, hNext⟩⟩
    | false =>
        rw [hRecompute, if_neg Bool.false_ne_true] at hEdit
        cases hEdit
        have hKept :
            req.cron.getD sched.cron = sched.cron ∧
              req.timezone.getD sched.timezone =
                sched.timezone := by
          unfold recomputes at hRecompute
          cases hCron : req.cron <;>
            cases hZone : req.timezone <;>
              simp_all
        exact
          ⟨rfl, rfl, rfl, rfl,
            .inr ⟨rfl, hKept.1, hKept.2, rfl⟩⟩
  · cases hEdit

------------------------------------------------------------
-- Leaders And Requests
------------------------------------------------------------

/-
  How far a `fireSchedule` is: it has the row; it has the
  time, the next run and the template; it has inserted the
  job, or found that it exists.
-/
inductive FirePhase
| read
| started (now next : Time) (template : Template)
| inserted (now next : Time)
deriving DecidableEq, Repr

/- An execution of `fireSchedule` for the row it was given. -/
structure Fire where
  sched : Schedule
  phase : FirePhase
deriving DecidableEq, Repr

/-
  A request that has read its schedule. `saves` is the row it
  is about to store, once it is known.
-/
structure Edit where
  req : UpdateScheduleRequest
  sched : Schedule
  saves : Option Schedule
deriving DecidableEq, Repr

/- A job that a tenant submits. -/
structure Submission where
  template : Template
  tenantId : Uuid
  jobId : Uuid
  runAt : Option Time
  idempotencyKey : Option String
  traceParent : Option String
deriving DecidableEq, Repr

/-
  A statement that stored a schedule, with the templates that
  schedules had had by then. `recomputed` tells that it came
  from a request that recomputes the next run.
-/
structure Overwrite where
  scheduleId : Uuid
  recomputed : Bool
  templates : List (Uuid × String)
  before : Db
  after : Db

/-
  `templates` has every template that a schedule has had, and
  `history` every statement that stored a schedule.
-/
structure State where
  db : Db
  clock : Time
  fires : List Fire
  edits : List Edit
  templates : List (Uuid × String)
  history : List Overwrite

/-
  A leader may lose its process, and a request its client, at
  any time: `crash` and `cancel`.
-/
inductive Label
| getDueSchedules (scheduleId : Uuid)
| start (i : Nat)
| insertJob (i : Nat) (jobId : Uuid)
| updateScheduleAfterRun (i : Nat)
| crash (i : Nat)
| getSchedule
    (scheduleId tenantId : Uuid)
    (req : UpdateScheduleRequest)
| edit (i : Nat)
| updateSchedule (i : Nat)
| cancel (i : Nat)
| submit (submission : Submission)
| tick (n : Nat)

namespace Fire

/- `fireSchedule` up to its first statement. -/
def start
    (P : Parsers)
    (now : Time)
    (f : Fire) :
    Option Fire :=
  match f.phase with
  | .read =>
      match
        P.next f.sched.cron f.sched.timezone now,
        P.template f.sched.jobTemplate
      with
      | some next, some t =>
          some { f with phase := .started now next t }
      | _, _ => none
  | _ => none

/- The job of the occurrence. -/
def job
    (P : Parsers)
    (sched : Schedule)
    (t : Template)
    (jobId : Uuid)
    (now : Time) :
    Except String Job :=
  cronJob P.validateWebhookPayload t sched.tenantId jobId now
    (occurrenceKey sched.id sched.nextRunAt)

end Fire

namespace State

variable (P : Parsers)

def getDueSchedules
    (scheduleId : Uuid)
    (s : State) :
    Option State :=
  match s.db.schedules.find? scheduleId with
  | none => none
  | some row =>
      if isDue s.clock row then
        some { s with fires := ⟨row, .read⟩ :: s.fires }
      else none

def start (i : Nat) (s : State) : Option State :=
  match s.fires[i]? with
  | none => none
  | some f =>
      (f.start P s.clock).map
        (fun f' => { s with fires := s.fires.set i f' })

/- An invalid template ends the firing with an error. -/
def insertJob
    (i : Nat)
    (jobId : Uuid)
    (s : State) :
    Option State :=
  match s.fires[i]? with
  | some ⟨sched, .started now next t⟩ =>
      match Fire.job P sched t jobId now with
      | .error _ =>
          some { s with fires := s.fires.eraseIdx i }
      | .ok j =>
          if (s.db.job? jobId).isSome then none
          else
            some
              { s with
                db := storeJob j s.db
                fires :=
                  s.fires.set i
                    ⟨sched, .inserted now next⟩ }
  | _ => none

def updateScheduleAfterRun
    (i : Nat)
    (s : State) :
    Option State :=
  match s.fires[i]? with
  | some ⟨sched, .inserted now next⟩ =>
      some
        { s with
          db :=
            Cron.updateScheduleAfterRun sched.id now next
              s.db
          fires := s.fires.eraseIdx i
          history :=
            { scheduleId := sched.id
              recomputed := false
              templates := s.templates
              before := s.db
              after :=
                Cron.updateScheduleAfterRun sched.id now
                  next s.db } ::
              s.history }
  | _ => none

def getSchedule
    (scheduleId tenantId : Uuid)
    (req : UpdateScheduleRequest)
    (s : State) :
    Option State :=
  match s.db.schedules.find? scheduleId with
  | none => none
  | some row =>
      if row.tenantId = tenantId then
        some { s with edits := ⟨req, row, none⟩ :: s.edits }
      else none

def edit (i : Nat) (s : State) : Option State :=
  match s.edits[i]? with
  | some ⟨req, sched, none⟩ =>
      (editSchedule P req s.clock sched).map
        (fun saved =>
          { s with
            edits :=
              s.edits.set i ⟨req, sched, some saved⟩ })
  | _ => none

def updateSchedule (i : Nat) (s : State) : Option State :=
  match s.edits[i]? with
  | some ⟨req, sched, some saved⟩ =>
      (Cron.updateSchedule saved s.db).map
        (fun db =>
          { s with
            db := db
            edits := s.edits.eraseIdx i
            templates :=
              (saved.id, saved.jobTemplate) :: s.templates
            history :=
              { scheduleId := saved.id
                recomputed := recomputes req sched
                templates := s.templates
                before := s.db
                after := db } ::
                s.history })
  | _ => none

def submit (r : Submission) (s : State) : Option State :=
  match
    submitJob P.validateWebhookPayload r.template r.tenantId
      r.jobId s.clock r.runAt r.idempotencyKey r.traceParent
  with
  | .error _ => none
  | .ok j =>
      if (s.db.job? r.jobId).isSome then none
      else some { s with db := storeJob j s.db }

end State

variable (P : Parsers)

/- One step; new rows get identifiers that are not in use. -/
def step : Label → State → Option State
| .getDueSchedules scheduleId, s =>
    s.getDueSchedules scheduleId
| .start i, s => s.start P i
| .insertJob i jobId, s => s.insertJob P i jobId
| .updateScheduleAfterRun i, s => s.updateScheduleAfterRun i
| .crash i, s =>
    some { s with fires := s.fires.eraseIdx i }
| .getSchedule scheduleId tenantId req, s =>
    s.getSchedule scheduleId tenantId req
| .edit i, s => s.edit P i
| .updateSchedule i, s => s.updateSchedule i
| .cancel i, s =>
    some { s with edits := s.edits.eraseIdx i }
| .submit r, s => s.submit P r
| .tick n, s => some { s with clock := s.clock + n }

/- Schedules exist, but no job does. -/
def init (s : State) : Prop :=
  s.db.jobs = Table.empty ∧ s.fires = [] ∧ s.edits = [] ∧
    s.history = [] ∧
      s.templates =
        s.db.schedules.rows.map
          (fun row => (row.id, row.jobTemplate))

def machine : Machine State Label where
  init := init
  step := step P

end Cron

end Scheduler

end Sluice
