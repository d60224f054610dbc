import Sluice.Queue.Redis
import Sluice.Scheduler.CronLibrary
import Sluice.Scheduler.Occurrences

/-
  A pass of `expandCron` that nothing interferes with.

  The pass reads one batch of due schedules and fires each of
  them. Every call succeeds, nobody else writes, and the
  clock stands still at `now`.

  Key definitions include:
    * `getDueSchedules`
    * `fireSchedule`
    * `expandCron`
    * `NoForeignJob` and `Covered`

  Key theorems include:
    * `fireAll_fires`
    * `fireAll_eq_run`
    * `exists_job_iff_noForeignJob`
    * `every_due_schedule_covered_iff`
-/

------------------------------------------------------------
-- The Pass
------------------------------------------------------------

namespace Sluice

namespace Scheduler

namespace Cron

open Foundations Storage Queue

def cronBatchSize : Nat := 200

/- Postgres and Redis. -/
structure Stores where
  db : Db
  redis : Redis

/-
  The due schedules `ORDER BY next_run_at`. Schedules with
  equal times come in the arbitrary order `scan`.
-/
def dueSchedules
    (now : Time)
    (scan : Scan)
    (db : Db) :
    List Schedule :=
  ((db.schedules.rows.insertionSort
      (fun a b => scan a.id ≤ scan b.id)).filter
    (isDue now)).insertionSort
    (fun a b => a.nextRunAt ≤ b.nextRunAt)

/- The query, with its `LIMIT`. -/
def getDueSchedules
    (limit : Nat)
    (now : Time)
    (scan : Scan)
    (db : Db) :
    List Schedule :=
  (dueSchedules now scan db).take limit

/- `InsertJob`, and `Enqueue` unless it is a duplicate. -/
def insertAndEnqueue (j : Job) (s : Stores) : Stores :=
  match insertJob j s.db with
  | .abort => s
  | .proceed writes _ =>
      { db := writes.foldl Db.perform s.db
        redis :=
          s.redis.enqueue j.tenantId j.id j.priority }

section

variable (P : Parsers)

/-
  `jobId` is the new UUID of the job. Errors leave everything
  as it is.
-/
def fireSchedule
    (now : Time)
    (jobId : Uuid)
    (sched : Schedule)
    (s : Stores) :
    Stores :=
  match
    P.next sched.cron sched.timezone now,
    P.template sched.jobTemplate
  with
  | some next, some t =>
      match Fire.job P sched t jobId now with
      | .error _ => s
      | .ok j =>
          let inserted := insertAndEnqueue j s
          { inserted with
            db :=
              updateScheduleAfterRun sched.id now next
                inserted.db }
  | _, _ => s

/- The loop. The `n`-th new UUID is `ids n`. -/
def fireAll
    (now : Time)
    (ids : Nat → Uuid) :
    Nat → List Schedule → Stores → Stores
| _, [], s => s
| n, sched :: rest, s =>
    fireAll now ids (n + 1) rest
      (fireSchedule P now (ids n) sched s)

def expandCron
    (now : Time)
    (scan : Scan)
    (ids : Nat → Uuid)
    (s : Stores) :
    Stores :=
  fireAll P now ids 0
    (getDueSchedules cronBatchSize now scan s.db) s

end

------------------------------------------------------------
-- What A Pass Should Leave
------------------------------------------------------------

section

variable (P : Parsers)
variable (templates : List (Uuid × String))

/- The row has the key of the occurrence that is due. -/
def HoldsOccurrence (sched : Schedule) : Job → Prop :=
  HoldsKey sched.tenantId
    (occurrenceKey sched.id sched.nextRunAt)

/-
  A job for the occurrence that a schedule's row names: it
  was built for it, whatever has become of it since.
-/
def IsJobOf (sched : Schedule) (j : Job) : Prop :=
  ∃ built,
    BuiltFor P templates sched.id sched.tenantId
        sched.nextRunAt built ∧
      j.submission = built.submission

/- Every job with the key was built for the occurrence. -/
def NoForeignJob (sched : Schedule) (db : Db) : Prop :=
  ∀ j ∈ db.jobs.rows,
    HoldsOccurrence sched j → IsJobOf P templates sched j

/-
  There is exactly one job for the occurrence that was due,
  and the next run is later than `now`.
-/
def Covered
    (now : Time)
    (sched : Schedule)
    (db : Db) :
    Prop :=
  (∃! j, j ∈ db.jobs.rows ∧ IsJobOf P templates sched j) ∧
    ∃ row, db.schedules.find? sched.id = some row ∧
      now < row.nextRunAt

end

/- Cron expression, timezone and template are valid. -/
def ValidSchedule
    (P : Parsers)
    (now : Time)
    (sched : Schedule) :
    Prop :=
  (P.next sched.cron sched.timezone now).isSome = true ∧
    validateTemplate P sched.tenantId now
      sched.jobTemplate = true

/- New UUIDs differ from each other and from those in use. -/
def FreshIds (ids : Nat → Uuid) (db : Db) : Prop :=
  Function.Injective ids ∧ ∀ n, db.job? (ids n) = none

------------------------------------------------------------
-- One Firing
------------------------------------------------------------

section

variable {P : Parsers}
variable {now next : Time}
variable {jobId : Uuid}
variable {sched : Schedule}
variable {t : Template}
variable {s : Stores}

theorem db_insertAndEnqueue
    (j : Job)
    (s : Stores) :
    (insertAndEnqueue j s).db = storeJob j s.db := by
  unfold insertAndEnqueue storeJob
  cases insertJob j s.db <;> rfl

/- The checks on a template do not depend on the new UUID. -/
theorem exists_job_of_valid
    (hValid : ValidSchedule P now sched)
    (jobId : Uuid) :
    ∃ next t j,
      P.next sched.cron sched.timezone now = some next ∧
        P.template sched.jobTemplate = some t ∧
          Fire.job P sched t jobId now = .ok j := by
  rcases Option.isSome_iff_exists.mp hValid.1 with
    ⟨next, hNext⟩
  have hTemplate := hValid.2
  unfold validateTemplate at hTemplate
  cases hParse : P.template sched.jobTemplate with
  | none =>
      rw [hParse] at hTemplate
      cases hTemplate
  | some t =>
      rw [hParse] at hTemplate
      cases hBuild :
          t.build P.validateWebhookPayload sched.tenantId 0
            now with
      | error message =>
          simp only [hBuild] at hTemplate
          cases hTemplate
      | ok built =>
          have hChecks :
              (t.job sched.tenantId jobId now).validate
                  P.validateWebhookPayload =
                .ok () := by
            have hOk := Template.build_eq_ok hBuild
            rw [hOk.1] at hOk
            exact hOk.2
          have hJob :
              Fire.job P sched t jobId now =
                .ok
                  { t.job sched.tenantId jobId now with
                    idempotencyKey :=
                      some
                        (occurrenceKey sched.id
                          sched.nextRunAt) } := by
            unfold Fire.job cronJob Template.build
            rw [hChecks]
            rfl
          exact ⟨next, t, _, hNext, rfl, hJob⟩

variable {templates : List (Uuid × String)}

theorem isJobOf_job
    {j : Job}
    (hTemplate : (sched.id, sched.jobTemplate) ∈ templates)
    (hParse : P.template sched.jobTemplate = some t)
    (hJob : Fire.job P sched t jobId now = .ok j) :
    IsJobOf P templates sched j.inserted :=
  ⟨j.inserted,
    ⟨sched.jobTemplate, t, jobId, now, j, hTemplate, hParse,
      hJob, rfl⟩,
    rfl⟩

theorem BuiltFor.holdsKey
    {scheduleId tenantId : Uuid}
    {occurrence : Time}
    {j : Job}
    (hBuilt :
      BuiltFor P templates scheduleId tenantId occurrence
        j) :
    HoldsKey tenantId (occurrenceKey scheduleId occurrence)
      j := by
  refine ⟨?_, hBuilt.idempotencyKey⟩
  rcases hBuilt with
    ⟨raw, t, jobId, now, built, _, _, hJob, hRow⟩
  rw [hRow, cronJob_eq_ok hJob]
  rfl

theorem IsJobOf.holdsOccurrence
    {j : Job}
    (hOf : IsJobOf P templates sched j) :
    HoldsOccurrence sched j := by
  rcases hOf with ⟨built, hBuilt, hSame⟩
  exact hBuilt.holdsKey.of_submission hSame.symm

/- The key of a job tells whose job it is. -/
theorem IsJobOf.of_holdsOccurrence
    {other : Schedule}
    {j : Job}
    (hOf : IsJobOf P templates other j)
    (hHolds : HoldsOccurrence sched j) :
    IsJobOf P templates sched j := by
  rcases hOf with ⟨built, hBuilt, hSame⟩
  have hKey : HoldsOccurrence sched built :=
    hHolds.of_submission hSame
  have hTenant : other.tenantId = sched.tenantId :=
    hBuilt.holdsKey.1.symm.trans hKey.1
  rw [hTenant] at hBuilt
  exact ⟨built, hBuilt.of_idempotencyKey hKey.2, hSame⟩

/-
  What the firing of a valid schedule does: the key of the
  occurrence is on a job, the only one that may be new is
  built for the occurrence, no job goes, no unique key is
  violated, and only the schedule's own row changes.
-/
structure Fires
    (P : Parsers)
    (templates : List (Uuid × String))
    (now next : Time)
    (jobId : Uuid)
    (sched : Schedule)
    (db db' : Db) :
    Prop where
  job : ∃ j ∈ db'.jobs.rows, HoldsOccurrence sched j
  added :
    ∀ j ∈ db'.jobs.rows,
      j ∈ db.jobs.rows ∨ IsJobOf P templates sched j
  kept : ∀ j ∈ db.jobs.rows, j ∈ db'.jobs.rows
  unique : OneJobPerKey db → OneJobPerKey db'
  unused :
    ∀ id, id ≠ jobId → db.job? id = none →
      db'.job? id = none
  schedules :
    ∀ id,
      db'.schedules.find? id =
        (db.schedules.find? id).map
          (fun row =>
            if id = sched.id then rowAfterRun now next row
            else row)

theorem Fires.storeJob
    {j : Job}
    {db : Db}
    (hOf : IsJobOf P templates sched j.inserted)
    (hFresh : db.job? j.id = none) :
    Fires P templates now next j.id sched db
      (updateScheduleAfterRun sched.id now next
        (storeJob j db)) := by
  have hJobs :
      (updateScheduleAfterRun sched.id now next
          (Cron.storeJob j db)).jobs =
        (Cron.storeJob j db).jobs :=
    jobs_changeSchedule _ _ _
  have hInserted := hOf.holdsOccurrence
  refine ⟨?_, ?_, ?_, ?_, ?_, ?_⟩
  · -- The job of the key may be an earlier one.
    rcases exists_holdsKey_storeJob hFresh hInserted.2 with
      ⟨row, hRow, hTenant, hKey⟩
    rw [hJobs]
    exact ⟨row, hRow, hTenant.trans hInserted.1, hKey⟩
  · intro j' hMem
    rw [hJobs] at hMem
    rcases of_mem_storeJob hFresh hMem with hOld | hNew
    · exact .inl hOld
    · rw [hNew]
      exact .inr hOf
  · intro j' hMem
    rw [hJobs]
    exact mem_storeJob hFresh hMem
  · intro hUnique
    exact (oneJobPerKey_storeJob hUnique hFresh).of_jobs
      hJobs
  · intro id hOther hNone
    unfold Db.job? at hNone ⊢
    rw [hJobs]
    apply Table.find?_eq_none_iff.mpr
    intro j' hMem hId
    rcases of_mem_storeJob hFresh hMem with hOld | hNew
    · exact Table.find?_eq_none_iff.mp hNone j' hOld hId
    · rw [hNew] at hId
      exact hOther hId.symm
  · rw [← schedules_storeJob hFresh]
    exact find?_changeSchedule sched.id
      (rowAfterRun now next) (fun _ => rfl) _

theorem fireSchedule_fires
    (hTemplate : (sched.id, sched.jobTemplate) ∈ templates)
    (hValid : ValidSchedule P now sched)
    (hFresh : s.db.job? jobId = none) :
    ∃ next,
      P.next sched.cron sched.timezone now = some next ∧
        Fires P templates now next jobId sched s.db
          (fireSchedule P now jobId sched s).db := by
  rcases exists_job_of_valid hValid jobId with
    ⟨next, t, j, hNext, hParse, hJob⟩
  have hOf := isJobOf_job hTemplate hParse hJob
  have hId : j.id = jobId := by
    rw [cronJob_eq_ok hJob]
    rfl
  have hDb :
      (fireSchedule P now jobId sched s).db =
        updateScheduleAfterRun sched.id now next
          (storeJob j s.db) := by
    unfold fireSchedule
    rw [hNext, hParse]
    simp only [hJob, db_insertAndEnqueue]
  rw [hDb, ← hId]
  rw [← hId] at hFresh
  exact ⟨next, hNext, .storeJob hOf hFresh⟩

/- The steps of a leader that fires one schedule. -/
def fireLabels (jobId scheduleId : Uuid) : List Label :=
  [.getDueSchedules scheduleId, .start 0,
    .insertJob 0 jobId, .updateScheduleAfterRun 0]

/-
  The firing is what a leader does that no other step
  interrupts.
-/
theorem fireSchedule_eq_run
    {base : State}
    (hDb : base.db = s.db)
    (hRow : base.db.schedules.find? sched.id = some sched)
    (hDue : isDue base.clock sched = true)
    (hValid : ValidSchedule P base.clock sched)
    (hFresh : base.db.job? jobId = none) :
    ∃ base',
      (machine P).run (fireLabels jobId sched.id) base =
          some base' ∧
        base'.db =
          (fireSchedule P base.clock jobId sched s).db ∧
        base'.clock = base.clock := by
  rcases exists_job_of_valid hValid jobId with
    ⟨next, t, j, hNext, hParse, hJob⟩
  have hUnused : (base.db.job? jobId).isSome = false := by
    rw [hFresh]
    rfl
  have hGet :
      (machine P).step (.getDueSchedules sched.id) base =
        some
          { base with
            fires := ⟨sched, .read⟩ :: base.fires } := by
    simp [machine, step, State.getDueSchedules, hRow, hDue]
  have hStart :
      (machine P).step (.start 0)
          { base with
            fires := ⟨sched, .read⟩ :: base.fires } =
        some
          { base with
            fires :=
              ⟨sched, .started base.clock next t⟩ ::
                base.fires } := by
    simp [machine, step, State.start, Fire.start, hNext,
      hParse]
  have hInsert :
      (machine P).step (.insertJob 0 jobId)
          { base with
            fires :=
              ⟨sched, .started base.clock next t⟩ ::
                base.fires } =
        some
          { base with
            db := storeJob j base.db
            fires :=
              ⟨sched, .inserted base.clock next⟩ ::
                base.fires } := by
    simp [machine, step, State.insertJob, hJob, hUnused]
  unfold fireSchedule fireLabels
  simp only [hNext, hParse, hJob, db_insertAndEnqueue]
  rw [Machine.run_cons, hGet, Option.bind_some,
    Machine.run_cons, hStart, Option.bind_some,
    Machine.run_cons, hInsert, ← hDb]
  exact ⟨_, rfl, rfl, rfl⟩

end

------------------------------------------------------------
-- The Loop
------------------------------------------------------------

section

variable {P : Parsers}
variable {templates : List (Uuid × String)}
variable {now : Time}
variable {ids : Nat → Uuid}

/- The same for all the schedules of a batch. -/
structure FiresAll
    (P : Parsers)
    (templates : List (Uuid × String))
    (now : Time)
    (batch : List Schedule)
    (db db' : Db) :
    Prop where
  job :
    ∀ sched ∈ batch,
      ∃ j ∈ db'.jobs.rows, HoldsOccurrence sched j
  added :
    ∀ j ∈ db'.jobs.rows,
      j ∈ db.jobs.rows ∨
        ∃ sched ∈ batch, IsJobOf P templates sched j
  kept : ∀ j ∈ db.jobs.rows, j ∈ db'.jobs.rows
  unique : OneJobPerKey db → OneJobPerKey db'
  fired :
    ∀ sched ∈ batch, ∀ next,
      P.next sched.cron sched.timezone now = some next →
        db'.schedules.find? sched.id =
          (db.schedules.find? sched.id).map
            (rowAfterRun now next)
  others :
    ∀ id, (∀ sched ∈ batch, sched.id ≠ id) →
      db'.schedules.find? id = db.schedules.find? id

namespace FiresAll

theorem nil
    (db : Db) :
    FiresAll P templates now [] db db where
  job := fun _ hMem => absurd hMem List.not_mem_nil
  added := fun _ hMem => .inl hMem
  kept := fun _ hMem => hMem
  unique := fun hUnique => hUnique
  fired := fun _ hMem => absurd hMem List.not_mem_nil
  others := fun _ _ => rfl

theorem cons
    {sched : Schedule}
    {batch : List Schedule}
    {next : Time}
    {jobId : Uuid}
    {db db' db'' : Db}
    (hNext :
      P.next sched.cron sched.timezone now = some next)
    (hFirst : Fires P templates now next jobId sched db db')
    (hRest : FiresAll P templates now batch db' db'')
    (hOnce : ∀ other ∈ batch, other.id ≠ sched.id) :
    FiresAll P templates now (sched :: batch) db db'' where
  job := by
    intro other hMem
    rcases List.mem_cons.mp hMem with hOwn | hOther
    · rcases hFirst.job with ⟨j, hJob, hOf⟩
      rw [hOwn]
      exact ⟨j, hRest.kept j hJob, hOf⟩
    · exact hRest.job other hOther
  added := by
    intro j hMem
    rcases hRest.added j hMem with
      hBefore | ⟨other, hOther, hOf⟩
    · rcases hFirst.added j hBefore with hOld | hOf
      · exact .inl hOld
      · exact .inr ⟨sched, List.mem_cons_self, hOf⟩
    · exact .inr
        ⟨other, List.mem_cons_of_mem _ hOther, hOf⟩
  kept := fun j hMem => hRest.kept j (hFirst.kept j hMem)
  unique := fun hUnique =>
    hRest.unique (hFirst.unique hUnique)
  fired := by
    intro other hMem next' hNext'
    rcases List.mem_cons.mp hMem with hOwn | hOther
    · rw [hOwn] at hNext' ⊢
      have hSame : next' = next :=
        Option.some.inj (hNext'.symm.trans hNext)
      rw [hRest.others sched.id hOnce, hFirst.schedules,
        hSame]
      simp only [if_true]
    · have hNe : other.id ≠ sched.id := hOnce other hOther
      rw [hRest.fired other hOther next' hNext',
        hFirst.schedules]
      simp only [hNe, if_false, Option.map_id_fun', id_eq]
  others := by
    intro id hAll
    have hNe : id ≠ sched.id :=
      fun hSame => hAll sched List.mem_cons_self hSame.symm
    rw [hRest.others id
      (fun other hOther =>
        hAll other (List.mem_cons_of_mem _ hOther)),
      hFirst.schedules]
    simp only [hNe, if_false, Option.map_id_fun', id_eq]

end FiresAll

/- Later identifiers are still new after a firing. -/
theorem Fires.stillUnused
    {next : Time}
    {n : Nat}
    {sched : Schedule}
    {db db' : Db}
    (hFires :
      Fires P templates now next (ids n) sched db db')
    (hInj : Function.Injective ids)
    (hFresh : ∀ m, n ≤ m → db.job? (ids m) = none) :
    ∀ m, n + 1 ≤ m → db'.job? (ids m) = none := by
  intro m hLater
  apply hFires.unused
  · intro hSame
    have hEq : m = n := hInj hSame
    omega
  · exact hFresh m (by omega)

/- By induction on the batch. -/
theorem fireAll_fires
    (hInj : Function.Injective ids)
    (batch : List Schedule) :
    ∀ (n : Nat) (s : Stores),
      (∀ sched ∈ batch,
          (sched.id, sched.jobTemplate) ∈ templates) →
        (∀ sched ∈ batch, ValidSchedule P now sched) →
          (batch.map Schedule.id).Nodup →
            (∀ m, n ≤ m → s.db.job? (ids m) = none) →
              FiresAll P templates now batch s.db
                (fireAll P now ids n batch s).db := by
  induction batch with
  | nil =>
      intro _ s _ _ _ _
      exact .nil s.db
  | cons sched batch ih =>
      intro n s hTemplates hValid hNodup hFresh
      rcases List.nodup_cons.mp hNodup with
        ⟨hNotMem, hNodup'⟩
      have hOnce : ∀ other ∈ batch, other.id ≠ sched.id :=
        fun other hOther hSame =>
          hNotMem
            (hSame ▸ List.mem_map_of_mem hOther)
      rcases
        fireSchedule_fires
          (hTemplates sched List.mem_cons_self)
          (hValid sched List.mem_cons_self)
          (hFresh n (le_refl n)) with
        ⟨next, hNext, hFirst⟩
      have hRest :=
        ih (n + 1) (fireSchedule P now (ids n) sched s)
          (fun other hOther =>
            hTemplates other (List.mem_cons_of_mem _ hOther))
          (fun other hOther =>
            hValid other (List.mem_cons_of_mem _ hOther))
          hNodup' (hFirst.stillUnused hInj hFresh)
      exact .cons hNext hFirst hRest hOnce

/- The steps of a leader that fires one after the other. -/
def passLabels
    (ids : Nat → Uuid) :
    Nat → List Schedule → List Label
| _, [] => []
| n, sched :: rest =>
    fireLabels (ids n) sched.id ++
      passLabels ids (n + 1) rest

/-
  A pass is a run of the leaders' machine, again by induction
  on the batch: a firing leaves the rows of the others alone.
-/
theorem fireAll_eq_run
    (hInj : Function.Injective ids)
    (batch : List Schedule) :
    ∀ (n : Nat) (s : Stores) (base : State),
      base.db = s.db →
        base.clock = now →
          (∀ sched ∈ batch,
              s.db.schedules.find? sched.id = some sched ∧
                isDue now sched = true ∧
                  ValidSchedule P now sched) →
            (batch.map Schedule.id).Nodup →
              (∀ m, n ≤ m → s.db.job? (ids m) = none) →
                ((machine P).run (passLabels ids n batch)
                    base).map State.db =
                  some (fireAll P now ids n batch s).db := by
  induction batch with
  | nil =>
      intro _ s base hDb _ _ _ _
      exact congrArg some hDb
  | cons sched batch ih =>
      intro n s base hDb hClock hBatch hNodup hFresh
      rcases List.nodup_cons.mp hNodup with
        ⟨hNotMem, hNodup'⟩
      rcases hBatch sched List.mem_cons_self with
        ⟨hRow, hDue, hValid⟩
      have hUnused := hFresh n (le_refl n)
      rcases
        fireSchedule_fires (List.mem_singleton_self _)
          hValid hUnused with
        ⟨next, _, hFirst⟩
      rw [← hDb] at hRow hUnused
      rw [← hClock] at hDue hValid
      rcases
        fireSchedule_eq_run hDb hRow hDue hValid
          hUnused with
        ⟨base', hRun, hDb', hClock'⟩
      rw [hClock] at hDb' hClock'
      rw [passLabels, Machine.run_append, hRun,
        Option.bind_some]
      refine ih (n + 1)
        (fireSchedule P now (ids n) sched s) base' hDb'
        hClock' ?_ hNodup' (hFirst.stillUnused hInj hFresh)
      intro other hOther
      rcases hBatch other (List.mem_cons_of_mem _ hOther) with
        ⟨hRow', hRest⟩
      have hNe : other.id ≠ sched.id :=
        fun hSame =>
          hNotMem
            (hSame ▸ List.mem_map_of_mem hOther)
      refine ⟨?_, hRest⟩
      rw [hFirst.schedules, hRow', Option.map_some,
        if_neg hNe]

end

------------------------------------------------------------
-- The Batch
------------------------------------------------------------

section

variable {now : Time}
variable {scan : Scan}
variable {db : Db}

/- The query permutes the due rows. -/
theorem perm_dueSchedules
    (now : Time)
    (scan : Scan)
    (db : Db) :
    (dueSchedules now scan db).Perm
      (db.schedules.rows.filter (isDue now)) :=
  (List.perm_insertionSort _ _).trans
    ((List.perm_insertionSort _ _).filter (isDue now))

theorem mem_dueSchedules
    {sched : Schedule} :
    sched ∈ dueSchedules now scan db ↔
      sched ∈ db.schedules.rows ∧ isDue now sched = true :=
  (perm_dueSchedules now scan db).mem_iff.trans
    List.mem_filter

theorem nodup_dueSchedules
    (now : Time)
    (scan : Scan)
    (db : Db) :
    ((dueSchedules now scan db).map Schedule.id).Nodup := by
  have hPerm :=
    (perm_dueSchedules now scan db).map Schedule.id
  apply hPerm.nodup_iff.mpr
  exact db.schedules.keys_nodup.sublist
    (List.filter_sublist.map Schedule.id)

theorem nodup_getDueSchedules
    (limit : Nat)
    (now : Time)
    (scan : Scan)
    (db : Db) :
    ((getDueSchedules limit now scan db).map
      Schedule.id).Nodup :=
  (nodup_dueSchedules now scan db).sublist
    ((List.take_sublist _ _).map _)

/- A batch that is not full has every due schedule. -/
theorem mem_getDueSchedules_of_le
    {limit : Nat}
    {sched : Schedule}
    (hFew :
      (db.schedules.rows.filter (isDue now)).length ≤ limit)
    (hMem : sched ∈ db.schedules.rows)
    (hDue : isDue now sched = true) :
    sched ∈ getDueSchedules limit now scan db := by
  unfold getDueSchedules
  rw [← (perm_dueSchedules now scan db).length_eq] at hFew
  rw [List.take_of_length_le hFew]
  exact mem_dueSchedules.mpr ⟨hMem, hDue⟩

/- With more than a batch, one due schedule is left out. -/
theorem exists_due_left_out
    {limit : Nat}
    (hMany :
      limit <
        (db.schedules.rows.filter (isDue now)).length) :
    ∃ sched ∈ db.schedules.rows,
      isDue now sched = true ∧
        ∀ other ∈ getDueSchedules limit now scan db,
          other.id ≠ sched.id := by
  rw [← (perm_dueSchedules now scan db).length_eq] at hMany
  have hMem :
      (dueSchedules now scan db)[limit] ∈
        (dueSchedules now scan db).drop limit := by
    rw [List.drop_eq_getElem_cons hMany]
    exact List.mem_cons_self
  have hBoth :=
    mem_dueSchedules.mp (List.mem_of_mem_drop hMem)
  refine ⟨_, hBoth.1, hBoth.2, ?_⟩
  intro other hOther hSame
  have hNodup := nodup_dueSchedules now scan db
  rw [← List.take_append_drop limit
    (dueSchedules now scan db), List.map_append] at hNodup
  exact List.disjoint_of_nodup_append hNodup
    (List.mem_map_of_mem hOther)
    (hSame ▸ List.mem_map_of_mem hMem)

end

------------------------------------------------------------
-- Which Passes Cover Every Due Schedule
------------------------------------------------------------

variable {L : CronLibrary}
variable {templates : List (Uuid × String)}
variable {s : Stores}
variable {now : Time}
variable {scan : Scan}
variable {ids : Nat → Uuid}

theorem expandCron_fires
    (scan : Scan)
    (hTemplates :
      ∀ sched ∈ s.db.schedules.rows,
        (sched.id, sched.jobTemplate) ∈ templates)
    (hValid :
      ∀ sched ∈ s.db.schedules.rows,
        isDue now sched = true →
          ValidSchedule L.toParsers now sched)
    (hFresh : FreshIds ids s.db) :
    FiresAll L.toParsers templates now
      (getDueSchedules cronBatchSize now scan s.db) s.db
      (expandCron L.toParsers now scan ids s).db := by
  apply fireAll_fires hFresh.1
  · intro sched hMem
    exact hTemplates sched
      (mem_dueSchedules.mp (List.mem_of_mem_take hMem)).1
  · intro sched hMem
    have hDue :=
      mem_dueSchedules.mp (List.mem_of_mem_take hMem)
    exact hValid sched hDue.1 hDue.2
  · exact nodup_getDueSchedules _ now scan s.db
  · exact fun m _ => hFresh.2 m

/- Some steps of a leader do what a pass does. -/
theorem expandCron_eq_run
    (scan : Scan)
    (hValid :
      ∀ sched ∈ s.db.schedules.rows,
        isDue now sched = true →
          ValidSchedule L.toParsers now sched)
    (hFresh : FreshIds ids s.db) :
    ∃ labels, ∀ base : State,
      base.db = s.db → base.clock = now →
        ((machine L.toParsers).run labels base).map
            State.db =
          some
            (expandCron L.toParsers now scan ids s).db := by
  refine
    ⟨passLabels ids 0
      (getDueSchedules cronBatchSize now scan s.db), ?_⟩
  intro base hDb hClock
  apply fireAll_eq_run hFresh.1 _ 0 s base hDb hClock
  · intro sched hMem
    have hDue :=
      mem_dueSchedules.mp (List.mem_of_mem_take hMem)
    exact
      ⟨Table.find?_of_mem hDue.1, hDue.2,
        hValid sched hDue.1 hDue.2⟩
  · exact nodup_getDueSchedules _ now scan s.db
  · exact fun m _ => hFresh.2 m

variable {batch : List Schedule}
variable {sched : Schedule}
variable {db db' : Db}

/- A schedule outside of the batch stays due. -/
theorem not_covered_of_left_out
    (hFires :
      FiresAll L.toParsers templates now batch db db')
    (hMem : sched ∈ db.schedules.rows)
    (hDue : isDue now sched = true)
    (hOut : ∀ other ∈ batch, other.id ≠ sched.id) :
    ¬Covered L.toParsers templates now sched db' := by
  intro hCovered
  rcases hCovered.2 with ⟨row, hRow, hLater⟩
  have hFound : db.schedules.find? sched.id = some sched :=
    Table.find?_of_mem hMem
  rw [hFires.others sched.id hOut, hFound] at hRow
  rw [← Option.some.inj hRow] at hLater
  have hPast : sched.nextRunAt ≤ now := by
    have hBoth :
        sched.enabled = true ∧ sched.nextRunAt ≤ now := by
      simpa [isDue] using hDue
    exact hBoth.2
  exact absurd hLater (not_lt.mpr hPast)

/-
  The job that a firing leaves under the key is the
  occurrence's, just if no foreign job was there before it.
-/
theorem exists_job_iff_noForeignJob
    (hFires :
      FiresAll L.toParsers templates now batch db db')
    (hUnique : OneJobPerKey db)
    (hBatch : sched ∈ batch) :
    (∃! j, j ∈ db'.jobs.rows ∧
        IsJobOf L.toParsers templates sched j) ↔
      NoForeignJob L.toParsers templates sched db := by
  have hSame :
      ∀ j ∈ db'.jobs.rows, ∀ j' ∈ db'.jobs.rows,
        HoldsOccurrence sched j →
          HoldsOccurrence sched j' → j = j' :=
    fun j hJob j' hJob' hHolds hHolds' =>
      (hFires.unique hUnique).eq_of_mem hJob hJob' hHolds
        hHolds'
  constructor
  · rintro ⟨j, ⟨hJob, hOf⟩, _⟩ j' hJob' hHolds'
    have hEq : j' = j :=
      hSame j' (hFires.kept j' hJob') j hJob hHolds'
        hOf.holdsOccurrence
    rw [hEq]
    exact hOf
  · intro hNone
    rcases hFires.job sched hBatch with ⟨j, hJob, hHolds⟩
    have hOf : IsJobOf L.toParsers templates sched j := by
      rcases hFires.added j hJob with
        hOld | ⟨other, _, hOther⟩
      · exact hNone j hOld hHolds
      · exact hOther.of_holdsOccurrence hHolds
    refine ⟨j, ⟨hJob, hOf⟩, ?_⟩
    rintro j' ⟨hJob', hOf'⟩
    exact hSame j' hJob' j hJob hOf'.holdsOccurrence hHolds

/-
  A schedule of the batch is covered if it recurs and its key
  was not taken.
-/
theorem covered_iff_recurs
    (hFires :
      FiresAll L.toParsers templates now batch db db')
    (hUnique : OneJobPerKey db)
    (hMem : sched ∈ db.schedules.rows)
    (hBatch : sched ∈ batch)
    (hValid : ValidSchedule L.toParsers now sched) :
    Covered L.toParsers templates now sched db' ↔
      NoForeignJob L.toParsers templates sched db ∧
        (L.Recurs sched.cron sched.timezone now ∨
          now < zeroTime) := by
  rcases Option.isSome_iff_exists.mp hValid.1 with
    ⟨next, hNext⟩
  have hFound : db.schedules.find? sched.id = some sched :=
    Table.find?_of_mem hMem
  have hRow :
      db'.schedules.find? sched.id =
        some (rowAfterRun now next sched) := by
    rw [hFires.fired sched hBatch next hNext, hFound]
    rfl
  have hLater :
      (∃ row, db'.schedules.find? sched.id = some row ∧
          now < row.nextRunAt) ↔
        now < next := by
    rw [hRow]
    constructor
    · rintro ⟨row, hSame, hLater⟩
      rw [← Option.some.inj hSame] at hLater
      exact hLater
    · exact fun hLater => ⟨_, rfl, hLater⟩
  rw [← CronLibrary.lt_next_iff hNext, ← hLater,
    ← exists_job_iff_noForeignJob hFires hUnique hBatch]
  rfl

/-
  A pass is a run of steps of one leader. It covers every due
  schedule just if they fit in one batch, each of their
  expressions matches again within five years, and no job
  that was not built for a due occurrence has its key.
  `templates` are those that schedules have had.
-/
theorem every_due_schedule_covered_iff
    (L : CronLibrary)
    (templates : List (Uuid × String))
    (s : Stores)
    (now : Time)
    (scan : Scan)
    (ids : Nat → Uuid)
    (hTemplates :
      ∀ sched ∈ s.db.schedules.rows,
        (sched.id, sched.jobTemplate) ∈ templates)
    (hValid :
      ∀ sched ∈ s.db.schedules.rows,
        isDue now sched = true →
          ValidSchedule L.toParsers now sched)
    (hUnique : OneJobPerKey s.db)
    (hFresh : FreshIds ids s.db) :
    (∃ labels, ∀ base : State,
      base.db = s.db → base.clock = now →
        ((machine L.toParsers).run labels base).map
            State.db =
          some
            (expandCron L.toParsers now scan ids s).db) ∧
      ((∀ sched ∈ s.db.schedules.rows,
          isDue now sched = true →
            Covered L.toParsers templates now sched
              (expandCron L.toParsers now scan ids s).db) ↔
        (s.db.schedules.rows.filter (isDue now)).length ≤
            cronBatchSize ∧
          ∀ sched ∈ s.db.schedules.rows,
            isDue now sched = true →
              NoForeignJob L.toParsers templates sched
                  s.db ∧
                (L.Recurs sched.cron sched.timezone now ∨
                  now < zeroTime)) := by
  have hFires :
      FiresAll L.toParsers templates now
        (getDueSchedules cronBatchSize now scan s.db) s.db
        (expandCron L.toParsers now scan ids s).db :=
    expandCron_fires scan hTemplates hValid hFresh
  refine ⟨expandCron_eq_run scan hValid hFresh, ?_⟩
  have hEach :
      (s.db.schedules.rows.filter (isDue now)).length ≤
          cronBatchSize →
        ∀ sched ∈ s.db.schedules.rows,
          isDue now sched = true →
            (Covered L.toParsers templates now sched
                (expandCron L.toParsers now scan ids s).db ↔
              NoForeignJob L.toParsers templates sched
                  s.db ∧
                (L.Recurs sched.cron sched.timezone now ∨
                  now < zeroTime)) := by
    intro hFew sched hMem hDue
    exact covered_iff_recurs hFires hUnique hMem
      (mem_getDueSchedules_of_le hFew hMem hDue)
      (hValid sched hMem hDue)
  constructor
  · intro hAll
    have hFew :
        (s.db.schedules.rows.filter (isDue now)).length ≤
          cronBatchSize := by
      by_contra hMany
      rcases exists_due_left_out (not_le.mp hMany) with
        ⟨sched, hMem, hDue, hOut⟩
      exact not_covered_of_left_out hFires hMem hDue hOut
        (hAll sched hMem hDue)
    refine ⟨hFew, ?_⟩
    intro sched hMem hDue
    exact (hEach hFew sched hMem hDue).mp
      (hAll sched hMem hDue)
  · rintro ⟨hFew, hRest⟩ sched hMem hDue
    exact (hEach hFew sched hMem hDue).mpr
      (hRest sched hMem hDue)

namespace SampleLibrary

theorem map_key_everyMinute
    (n : Nat) :
    ((List.range n).map everyMinute).map Keyed.key =
      List.range n := by
  rw [List.map_map]
  exact List.map_id _

/- So many schedules that all run every minute. -/
def crowd (n : Nat) : Db where
  jobs := Table.empty
  jobRuns := Table.empty
  deadLetter := Table.empty
  schedules :=
    { rows := (List.range n).map everyMinute
      keys_nodup := by
        rw [map_key_everyMinute]
        exact List.nodup_range }
  tenants := Table.empty

/- They are all due at time zero, valid, and run again. -/
theorem crowd_due
    {n : Nat}
    {sched : Schedule}
    (hMem : sched ∈ (crowd n).schedules.rows) :
    isDue 0 sched = true ∧
      ValidSchedule library.toParsers 0 sched ∧
        library.Recurs sched.cron sched.timezone 0 := by
  rcases List.mem_map.mp hMem with ⟨_, _, hSched⟩
  rw [← hSched]
  exact ⟨rfl, ⟨rfl, rfl⟩, recurs_everyMinute _ _⟩

theorem length_due_crowd
    (n : Nat) :
    ((crowd n).schedules.rows.filter (isDue 0)).length =
      n := by
  have hAll :
      (crowd n).schedules.rows.filter (isDue 0) =
        (crowd n).schedules.rows :=
    List.filter_eq_self.mpr (fun _ hMem => (crowd_due hMem).1)
  rw [hAll]
  unfold crowd
  rw [List.length_map, List.length_range]

theorem freshIds_crowd
    (n : Nat) :
    FreshIds (fun k => k) (crowd n) :=
  ⟨fun _ _ hSame => hSame, fun _ => rfl⟩

theorem oneJobPerKey_crowd
    (n : Nat) :
    OneJobPerKey (crowd n) := by
  intro _ _ _ _ _ _ hRow
  cases hRow

theorem noForeignJob_crowd
    {templates : List (Uuid × String)}
    {n : Nat}
    (sched : Schedule) :
    NoForeignJob library.toParsers templates sched
      (crowd n) :=
  fun _ hMem => absurd hMem List.not_mem_nil

/- The templates that the crowd has. -/
def crowdTemplates (n : Nat) : List (Uuid × String) :=
  (crowd n).schedules.rows.map
    (fun sched => (sched.id, sched.jobTemplate))

theorem mem_crowdTemplates
    {n : Nat}
    {sched : Schedule}
    (hMem : sched ∈ (crowd n).schedules.rows) :
    (sched.id, sched.jobTemplate) ∈ crowdTemplates n :=
  List.mem_map_of_mem hMem

end SampleLibrary

open SampleLibrary

/- A batch of two hundred schedules is covered. -/
theorem full_batch_covered :
    ((crowd 200).schedules.rows.filter (isDue 0)).length =
        200 ∧
      ∀ sched ∈ (crowd 200).schedules.rows,
        isDue 0 sched = true →
          Covered library.toParsers (crowdTemplates 200) 0
            sched
            (expandCron library.toParsers 0 (fun k => k)
              (fun k => k) ⟨crowd 200, Redis.empty⟩).db :=
  ⟨length_due_crowd 200,
    (every_due_schedule_covered_iff library
      (crowdTemplates 200) ⟨crowd 200, Redis.empty⟩ 0
      (fun k => k) (fun k => k)
      (fun _ hMem => mem_crowdTemplates hMem)
      (fun _ hMem _ => (crowd_due hMem).2.1)
      (oneJobPerKey_crowd 200) (freshIds_crowd 200)).2.mpr
      ⟨(length_due_crowd 200).le,
        fun sched hMem _ =>
          ⟨noForeignJob_crowd sched,
            .inl (crowd_due hMem).2.2⟩⟩⟩

/- Of one schedule more, one stays due. -/
theorem one_more_schedule_stays_due :
    (∀ sched ∈ (crowd 201).schedules.rows,
        isDue 0 sched = true ∧
          ValidSchedule library.toParsers 0 sched ∧
            library.Recurs sched.cron sched.timezone 0) ∧
      ¬∀ sched ∈ (crowd 201).schedules.rows,
        isDue 0 sched = true →
          Covered library.toParsers (crowdTemplates 201) 0
            sched
            (expandCron library.toParsers 0 (fun k => k)
              (fun k => k) ⟨crowd 201, Redis.empty⟩).db := by
  refine ⟨fun _ hMem => crowd_due hMem, ?_⟩
  intro hAll
  have hFires :=
    expandCron_fires (L := library)
      (s := ⟨crowd 201, Redis.empty⟩) (fun k => k)
      (fun _ hMem => mem_crowdTemplates hMem)
      (fun _ hMem _ => (crowd_due hMem).2.1)
      (freshIds_crowd 201)
  have hMany :
      cronBatchSize <
        ((crowd 201).schedules.rows.filter
          (isDue 0)).length := by
    rw [length_due_crowd]
    decide
  rcases exists_due_left_out hMany with
    ⟨sched, hMem, hDue, hOut⟩
  exact not_covered_of_left_out hFires hMem hDue hOut
    (hAll sched hMem hDue)

end Cron

end Scheduler

end Sluice
