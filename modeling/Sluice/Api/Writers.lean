import Sluice.Api.Isolation
import Sluice.Storage.Insertion

/-
  Tenants cannot see or change each other's things.

  Every handler under `/v1` is put together from the
  tenant's own reads and writes. A replay deletes the dead
  letter of its job by identifier alone; by `Owned` it is
  the tenant's.

  Key theorems include:
    * `checkLimit_isolated`
    * `submitJob_isolated`
    * `replayJob_isolated`
    * `handle_isolated`
-/

------------------------------------------------------------
-- Writing Handlers
------------------------------------------------------------

namespace Sluice

namespace Api

open Foundations Storage Queue Scheduler.Cron

variable {P : RequestParsers}
variable {env : Env}
variable {t : Tenant}
variable {j : Job}
variable {id : Uuid}
variable {sched : Schedule}

/- The job of a submission is the tenant's, with the new id. -/
theorem submitJob_ids
    {validateWebhookPayload : String → Except String Unit}
    {template : Template}
    {tenantId id : Uuid}
    {now : Time}
    {runAt : Option Time}
    {key traceParent : Option String}
    (hSubmit :
      submitJob validateWebhookPayload template tenantId id
          now runAt key traceParent =
        .ok j) :
    j.id = id ∧ j.tenantId = tenantId := by
  rcases submitJob_eq_ok hSubmit with
    ⟨built, hBuild, hJob | ⟨later, _, hJob⟩⟩ <;>
  · rw [hJob, (Template.build_eq_ok hBuild).1]
    exact ⟨rfl, rfl⟩

theorem afterInsert_isolated
    (hScan : Function.Injective env.scan)
    (hId : j.id = env.newId)
    (hTenant : j.tenantId = t.id)
    (result : Storage.Result) :
    Isolated tenantViews
      (fun s =>
        Sound env.newId s ∧ insertJob j s.db = result)
      t.id (afterInsert env t j result) := by
  cases result with
  | abort => exact .read (reads_duplicateResponse hScan _)
  | proceed writes locks =>
      have hInsert :
          Writes tenantViews
            (fun s =>
              Sound env.newId s ∧
                insertJob j s.db = .proceed writes locks)
            t.id
            (fun s =>
              { s with
                db :=
                  { s.db with
                    jobs := s.db.jobs.insert j.inserted } }) := by
        refine writes_insertJob ?_ hTenant
        rintro s ⟨hSound, _⟩
        change s.db.job? j.id = none ∧ s.redis.marked j.id = _
        rw [hId]
        exact ⟨hSound.job, hSound.marker⟩
      by_cases hEnqueue :
          j.state = .pending ∧ env.fails .enqueue = false
      · have hRest :
            Isolated tenantViews
              (fun s => s.db.job? j.id = some j.inserted)
              t.id
              (fun s =>
                (writeJSON 201 (.job j),
                  { s with
                    redis :=
                      s.redis.enqueue t.id j.id
                        j.priority })) :=
          .write
            (writes_enqueue
              (fun s hRow => ⟨j.inserted, hRow, hTenant⟩)) _
        have hOk :
            ∀ s : Store,
              (Sound env.newId s ∧
                insertJob j s.db = .proceed writes locks) →
              (s.db.jobs.insert j.inserted).find? j.id =
                some j.inserted := by
          rintro s ⟨hSound, _⟩
          have hNone : s.db.jobs.find? j.id = none := by
            rw [hId]
            exact hSound.job
          rw [Table.find?_insert, if_pos ⟨rfl, hNone⟩]
        apply (Isolated.after hInsert hOk hRest).congr
        rintro s ⟨_, hResult⟩
        unfold afterInsert
        rw [(insertJob_proceeds hResult).1, if_pos hEnqueue,
          hTenant]
        rfl
      · apply (Isolated.write hInsert
          (writeJSON 201 (.job j))).congr
        rintro s ⟨_, hResult⟩
        unfold afterInsert
        rw [(insertJob_proceeds hResult).1, if_neg hEnqueue]
        rfl

theorem storeSubmitted_isolated
    (hScan : Function.Injective env.scan)
    (hId : j.id = env.newId)
    (hTenant : j.tenantId = t.id) :
    Isolated tenantViews (Sound env.newId) t.id
      (storeSubmitted env t j) := by
  unfold storeSubmitted
  cases env.fails .insertJob with
  | true => exact .answer _
  | false =>
      refine Isolated.observe (fun s => insertJob j s.db)
        ?_ ?_
      · intro s s' hSound hSound' hSame
        change SameFor t.id s s' at hSame
        rw [← hTenant] at hSame
        apply hSame.insertJob_eq
        · rw [hId]
          exact hSound.job
        · rw [hId]
          exact hSound'.job
      · intro result
        apply (afterInsert_isolated hScan hId hTenant
          result).congr
        rintro s ⟨_, hResult⟩
        rw [hResult]
        rfl

/- The limiter sees and changes the tenant's bucket only. -/
theorem checkLimit_isolated :
    Isolated tenantViews (Sound env.newId) t.id
      (checkLimit env t) := by
  by_cases hAsked : env.limiter && !env.fails .allow
  · by_cases hFree : t.rateLimit ≤ 0
    · apply (Isolated.answer true).congr
      intro s _
      unfold checkLimit allow
      rw [if_pos hAsked, if_pos hFree]
    · apply Isolated.observe (fun s => s.buckets t.id)
      · exact fun _ _ _ _ hSame => SameFor.bucket hSame
      · intro bucket
        have hTake :
            Isolated tenantViews
              (fun s =>
                Sound env.newId s ∧ s.buckets t.id = bucket)
              t.id _ :=
          .write
            (writes_bucket
              (takeScript t.rateLimit (env.redisNow / 1000)
                bucket).2)
            (takeScript t.rateLimit (env.redisNow / 1000)
              bucket).1
        apply hTake.congr
        rintro s ⟨_, hBucket⟩
        unfold checkLimit allow
        rw [if_pos hAsked, if_neg hFree, hBucket]
  · apply (Isolated.answer true).congr
    intro s _
    unfold checkLimit
    rw [if_neg hAsked]

theorem sound_checkLimit
    {s : Store}
    (hSound : Sound env.newId s) :
    Sound env.newId (checkLimit env t s).2 := by
  unfold checkLimit
  split
  · exact ⟨hSound.owned, hSound.unused⟩
  · exact hSound

theorem submitJob_isolated
    (hScan : Function.Injective env.scan)
    (body : Option SubmitJobRequest)
    (traceParent : Option String) :
    Isolated tenantViews (Sound env.newId) t.id
      (handleSubmitJob P env t body traceParent) := by
  unfold handleSubmitJob
  cases body with
  | none => exact .answer _
  | some req =>
      by_cases hKey :
          req.idempotencyKey.any badIdempotencyKey
      · simp only [hKey, if_true]
        exact .answer _
      · simp only [hKey]
        cases hSubmit :
            submitJob P.validateWebhookPayload req.template
              t.id env.newId env.now req.runAt
              req.idempotencyKey traceParent with
        | error message => exact .answer _
        | ok j =>
            have hIds := submitJob_ids hSubmit
            have hRest :
                ∀ taken : Bool,
                  Isolated tenantViews (Sound env.newId) t.id
                    (fun s =>
                      if taken then storeSubmitted env t j s
                      else
                        (⟨429, some "1",
                          .error "rate limit exceeded"⟩,
                          s)) := by
              intro taken
              cases taken with
              | true =>
                  exact storeSubmitted_isolated hScan
                    hIds.1 hIds.2
              | false => exact .answer _
            exact Isolated.bind checkLimit_isolated
              (fun s hSound => sound_checkLimit hSound) hRest

/- The job that a statement of the tenant finds. -/
def ownJob
    (t : Tenant)
    (id : Uuid)
    (p : Job → Bool)
    (s : Store) :
    Option Job :=
  matchJob id (fun j => j.tenantId = t.id && p j) s.db

theorem reads_ownJob
    {ok : Store → Prop}
    (id : Uuid)
    (p : Job → Bool) :
    Reads tenantViews ok t.id (ownJob t id p) := by
  intro s s' _ _ hSame
  apply SameFor.matchJob_eq hSame
  intro j hj
  simp only [Bool.and_eq_true, decide_eq_true_eq] at hj
  exact hj.1

theorem ownJob_eq_some
    {p : Job → Bool}
    {s : Store}
    (hFound : ownJob t id p s = some j) :
    s.db.job? j.id = some j ∧ j.tenantId = t.id ∧
      j.id = id := by
  rcases matchJob_eq_some_iff.mp hFound with ⟨hJob, hGuard⟩
  have hId : j.id = id := Db.id_of_job? hJob
  simp only [Bool.and_eq_true, decide_eq_true_eq] at hGuard
  rw [hId]
  exact ⟨hJob, hGuard.1, rfl⟩

theorem cancelJob_isolated
    (id : Option Uuid) :
    Isolated tenantViews (Sound env.newId) t.id
      (handleCancelJob env t id) := by
  unfold handleCancelJob
  cases id with
  | none => exact .answer _
  | some id =>
      cases env.fails .cancelJob with
      | true => exact .answer _
      | false =>
          refine Isolated.observe _
            (reads_ownJob id Job.cancellable) ?_
          intro found
          cases found with
          | none =>
              apply (Isolated.answer
                (writeError 404
                  "job not found or not cancellable")).congr
              rintro s ⟨_, hFound⟩
              unfold ownJob at hFound
              simp only [cancelJob, hFound]
              rfl
          | some j =>
              have hWrites :
                  Writes tenantViews
                    (fun s =>
                      Sound env.newId s ∧
                        ownJob t id Job.cancellable s =
                          some j)
                    t.id _ :=
                writes_putJob (j.cancel env.dbNow)
                  (fun s hOk =>
                    have hFound := ownJob_eq_some hOk.2
                    ⟨hFound.1, hFound.2.1⟩)
                  rfl
              apply (Isolated.write hWrites
                (writeJSON 204 .empty)).congr
              rintro s ⟨_, hFound⟩
              unfold ownJob at hFound
              simp only [cancelJob, hFound]
              rfl

/- The end of a replay, with the job that it left. -/
def finishReplay
    (env : Env)
    (t : Tenant)
    (j : Job)
    (s : Store) :
    Response × Store :=
  if env.fails .getJob then
    (writeError 500 "failed to replay job", s)
  else
    (writeJSON 200 (.job j),
      { s with
        redis :=
          if env.fails .enqueue then s.redis
          else s.redis.enqueue t.id j.id j.priority })

theorem find?_put_replay
    {db : Db}
    {now : Time}
    (hJob : db.job? j.id = some j) :
    (db.jobs.put (j.replay now)).find? j.id =
      some (j.replay now) := by
  have hKey : j.id = Keyed.key (j.replay now) := rfl
  have hRow : db.jobs.find? j.id = some j := hJob
  rw [Table.find?_put, if_pos hKey, hRow]
  rfl

theorem finishReplay_isolated
    (env : Env)
    (j : Job) :
    Isolated tenantViews
      (fun s =>
        s.db.job? j.id = some j ∧ j.tenantId = t.id)
      t.id (finishReplay env t j) := by
  unfold finishReplay
  cases env.fails .getJob with
  | true => exact .answer _
  | false =>
      cases env.fails .enqueue with
      | true => exact .answer _
      | false =>
          exact .write
            (writes_enqueue (fun s hOwn => ⟨j, hOwn⟩)) _

/- The dead letter, then the job, then the lane. -/
theorem replayDead_isolated
    (j : Job) :
    Isolated tenantViews
      (fun s =>
        Sound env.newId s ∧
          s.db.job? j.id = some j ∧ j.tenantId = t.id)
      t.id
      (fun s =>
        finishReplay env t (j.replay env.dbNow)
          { s with
            db :=
              { s.db with
                jobs := s.db.jobs.put (j.replay env.dbNow)
                deadLetter :=
                  s.db.deadLetter.delete j.id } }) := by
  have hDelete :
      Writes tenantViews
        (fun s =>
          Sound env.newId s ∧
            s.db.job? j.id = some j ∧ j.tenantId = t.id)
        t.id _ :=
    writes_deleteDeadLetter
      (fun s ⟨hSound, hJob, hTenant⟩ d hEntry =>
        (hSound.owned.deadLetters _ d j hEntry
          hJob).symm.trans hTenant)
  have hPut :
      Writes tenantViews
        (fun s =>
          s.db.job? j.id = some j ∧ j.tenantId = t.id)
        t.id _ :=
    writes_putJob (j.replay env.dbNow)
      (fun s hOwn => hOwn) rfl
  have hRest :=
    Isolated.after hPut
      (fun s hOwn => ⟨find?_put_replay hOwn.1, hOwn.2⟩)
      (finishReplay_isolated env (j.replay env.dbNow))
  have hAll :=
    Isolated.after hDelete (fun s hOk => hOk.2) hRest
  exact hAll

theorem replayJob_isolated
    (id : Option Uuid) :
    Isolated tenantViews (Sound env.newId) t.id
      (handleReplayJob env t id) := by
  unfold handleReplayJob
  cases id with
  | none => exact .answer _
  | some id =>
      cases env.fails .replayJob with
      | true => exact .answer _
      | false =>
          refine Isolated.observe _
            (reads_ownJob id (fun j => j.state = .dead)) ?_
          intro found
          cases found with
          | none =>
              apply (Isolated.answer
                (writeError 404
                  "job not found or not in dead state")).congr
              rintro s ⟨_, hFound⟩
              unfold ownJob at hFound
              simp only [replay_eq_map, hFound]
              rfl
          | some j =>
              have hReplay :=
                (replayDead_isolated j).mono
                  (fun s
                    (hOk :
                      Sound env.newId s ∧
                        ownJob t id (fun j => j.state = .dead)
                            s =
                          some j) =>
                    ⟨hOk.1, (ownJob_eq_some hOk.2).1,
                      (ownJob_eq_some hOk.2).2.1⟩)
              apply hReplay.congr
              rintro s ⟨_, hFound⟩
              rcases ownJob_eq_some hFound with
                ⟨hJob, _, hId⟩
              subst hId
              unfold ownJob at hFound
              simp only [replay_eq_map, hFound, Db.job?,
                Option.map_some, find?_put_replay hJob]
              rfl

------------------------------------------------------------
-- Schedules And All Handlers
------------------------------------------------------------

/- A name is taken by a schedule of the tenant only. -/
theorem storeSchedule_isolated
    (hId : sched.id = env.newId)
    (hTenant : sched.tenantId = t.id) :
    Isolated tenantViews (Sound env.newId) t.id
      (fun s =>
        match insertSchedule sched s.db with
        | none =>
            (writeError 409 "schedule name already exists", s)
        | some db =>
            (writeJSON 201 (.schedule sched),
              { s with db := db })) := by
  have hNone :
      ∀ s, Sound env.newId s →
        s.db.schedules.find? sched.id = none := by
    intro s hSound
    rw [hId]
    exact hSound.schedule
  apply Isolated.observe
    (fun s : Store =>
      s.db.schedules.rows.any
        (fun row =>
          row.tenantId = sched.tenantId &&
            row.name = sched.name))
  · intro s s' _ _ hSame
    apply (SameFor.schedules hSame).any_eq
    intro row hRow
    simp only [Bool.and_eq_true, decide_eq_true_eq] at hRow
    exact hRow.1.trans hTenant
  · intro taken
    cases taken with
    | true =>
        apply (Isolated.answer
          (writeError 409
            "schedule name already exists")).congr
        rintro s ⟨hSound, hTaken⟩
        simp only [insertSchedule, hNone s hSound, hTaken]
        rfl
    | false =>
        apply (Isolated.write
          (writes_insertSchedule
            (fun s hOk => hNone s hOk.1) hTenant)
          (writeJSON 201 (.schedule sched))).congr
        rintro s ⟨hSound, hTaken⟩
        simp only [insertSchedule, hNone s hSound, hTaken]
        rfl

theorem createSchedule_isolated
    (body : Option CreateScheduleRequest) :
    Isolated tenantViews (Sound env.newId) t.id
      (handleCreateSchedule P env t body) := by
  unfold handleCreateSchedule
  cases body with
  | none => exact .answer _
  | some req =>
      cases hCreate :
          createSchedule P t.id env.newId env.now req with
      | error message =>
          simp only [hCreate]
          exact .answer _
      | ok sched =>
          rcases createSchedule_eq_ok hCreate with
            ⟨hId, hTenant, _⟩
          simp only [hCreate]
          cases env.fails .insertSchedule with
          | true => exact .answer _
          | false =>
              exact storeSchedule_isolated hId hTenant

theorem getSchedule_eq_some
    {id tenantId : Uuid}
    {db : Db}
    (hFound : getSchedule id tenantId db = some sched) :
    db.schedules.find? id = some sched ∧
      sched.tenantId = tenantId ∧ sched.id = id := by
  rcases Option.filter_eq_some_iff.mp hFound with
    ⟨hRow, hOwn⟩
  exact ⟨hRow, of_decide_eq_true hOwn,
    Table.key_of_find? hRow⟩

theorem deleteSchedule_eq_map
    (id tenantId : Uuid)
    (db : Db) :
    deleteSchedule id tenantId db =
      (getSchedule id tenantId db).map
        (fun _ =>
          { db with
            schedules := db.schedules.delete id }) := by
  unfold deleteSchedule getSchedule
  cases db.schedules.find? id with
  | none => rfl
  | some row =>
      by_cases hOwn : row.tenantId = tenantId <;>
        simp [Option.filter, hOwn]

theorem updateSchedule_eq_map
    (sched : Schedule)
    (db : Db) :
    updateSchedule sched db =
      (getSchedule sched.id sched.tenantId db).map
        (fun row =>
          { db with
            schedules :=
              db.schedules.put (rowAfterEdit sched row) }) := by
  unfold updateSchedule getSchedule changeSchedule
  cases db.schedules.find? sched.id with
  | none => rfl
  | some row =>
      by_cases hOwn : row.tenantId = sched.tenantId <;>
        simp [Option.filter, hOwn]

theorem reads_ownSchedule
    {ok : Store → Prop}
    (id : Uuid) :
    Reads tenantViews ok t.id
      (fun s => getSchedule id t.id s.db) := by
  intro s s' _ _ hSame
  exact SameFor.getSchedule_eq hSame id

theorem deleteSchedule_isolated
    (id : Option Uuid) :
    Isolated tenantViews (Sound env.newId) t.id
      (handleDeleteSchedule env t id) := by
  unfold handleDeleteSchedule
  cases id with
  | none => exact .answer _
  | some id =>
      cases env.fails .deleteSchedule with
      | true => exact .answer _
      | false =>
          refine Isolated.observe _ (reads_ownSchedule id) ?_
          intro found
          cases found with
          | none =>
              apply (Isolated.answer
                (writeError 404 "schedule not found")).congr
              rintro s ⟨_, hFound⟩
              simp only [deleteSchedule_eq_map, hFound]
              rfl
          | some sched =>
              have hWrites :
                  Writes tenantViews
                    (fun s =>
                      Sound env.newId s ∧
                        getSchedule id t.id s.db =
                          some sched)
                    t.id _ :=
                writes_deleteSchedule
                  (fun s hOk row hRow => by
                    rcases getSchedule_eq_some hOk.2 with
                      ⟨hSched, hOwn, _⟩
                    rw [hRow] at hSched
                    cases hSched
                    exact hOwn)
              apply (Isolated.write hWrites
                (writeJSON 204 .empty)).congr
              rintro s ⟨_, hFound⟩
              simp only [deleteSchedule_eq_map, hFound]
              rfl

/- The edit is computed from the row that was read. -/
theorem storeEdit_isolated
    {sched saved : Schedule}
    (hId : saved.id = sched.id)
    (hTenant : saved.tenantId = sched.tenantId) :
    Isolated tenantViews
      (fun s =>
        Sound env.newId s ∧
          getSchedule id t.id s.db = some sched)
      t.id
      (fun s =>
        match updateSchedule saved s.db with
        | none =>
            (writeError 500 "failed to update schedule", s)
        | some db =>
            (writeJSON 200 (.schedule saved),
              { s with db := db })) := by
  have hWrites :
      Writes tenantViews
        (fun s =>
          Sound env.newId s ∧
            getSchedule id t.id s.db = some sched)
        t.id _ :=
    writes_putSchedule (rowAfterEdit saved sched)
      (fun s hOk => by
        rcases getSchedule_eq_some hOk.2 with
          ⟨hRow, hOwn, hKey⟩
        rw [← hKey] at hRow
        exact ⟨hRow, hOwn⟩)
      (rfl : _ = sched.tenantId)
  apply (Isolated.write hWrites
    (writeJSON 200 (.schedule saved))).congr
  rintro s ⟨_, hFound⟩
  rcases getSchedule_eq_some hFound with ⟨_, hOwn, hKey⟩
  rw [← hKey, ← hOwn, ← hId, ← hTenant] at hFound
  simp only [updateSchedule_eq_map, hFound]
  rfl

theorem editFound_isolated
    (req : UpdateScheduleRequest) :
    Isolated tenantViews
      (fun s =>
        Sound env.newId s ∧
          getSchedule id t.id s.db = some sched)
      t.id
      (fun s =>
        match editSchedule P.toParsers req env.now sched with
        | none =>
            (writeError 400
              (updateRefusal P req env.now sched), s)
        | some saved =>
            if env.fails .updateSchedule then
              (writeError 500 "failed to update schedule", s)
            else
              match updateSchedule saved s.db with
              | none =>
                  (writeError 500
                    "failed to update schedule", s)
              | some db =>
                  (writeJSON 200 (.schedule saved),
                    { s with db := db })) := by
  cases hEdit :
      editSchedule P.toParsers req env.now sched with
  | none => exact .answer _
  | some saved =>
      rcases editSchedule_cases hEdit with ⟨hId, hTenant, _⟩
      cases env.fails .updateSchedule with
      | true => exact .answer _
      | false => exact storeEdit_isolated hId hTenant

theorem updateSchedule_isolated
    (id : Option Uuid)
    (body : Option UpdateScheduleRequest) :
    Isolated tenantViews (Sound env.newId) t.id
      (handleUpdateSchedule P env t id body) := by
  unfold handleUpdateSchedule
  cases id with
  | none => exact .answer _
  | some id =>
      cases body with
      | none => exact .answer _
      | some req =>
          cases env.fails .getSchedule with
          | true => exact .answer _
          | false =>
              refine Isolated.observe _
                (reads_ownSchedule id) ?_
              intro found
              cases found with
              | none =>
                  apply (Isolated.answer
                    (writeError 404
                      "schedule not found")).congr
                  rintro s ⟨_, hFound⟩
                  simp only [hFound]
                  rfl
              | some sched =>
                  apply (editFound_isolated req).congr
                  rintro s ⟨_, hFound⟩
                  simp only [hFound]
                  rfl

theorem handle_isolated
    (hScan : Function.Injective env.scan)
    (req : Request) :
    Isolated tenantViews (Sound env.newId) t.id
      (handle P env t req) := by
  cases req with
  | submitJob body traceParent =>
      exact submitJob_isolated hScan body traceParent
  | getJob id => exact .read (reads_getJob id)
  | listJobs params =>
      exact .read (reads_listJobs hScan params)
  | listJobRuns id => exact .read (reads_listJobRuns hScan id)
  | cancelJob id => exact cancelJob_isolated id
  | replayJob id => exact replayJob_isolated id
  | webhookSecret => exact .answer _
  | createSchedule body => exact createSchedule_isolated body
  | listSchedules => exact .read (reads_listSchedules hScan)
  | getSchedule id => exact .read (reads_getSchedule id)
  | deleteSchedule id => exact deleteSchedule_isolated id
  | updateSchedule id body =>
      exact updateSchedule_isolated id body
  | stats => exact .read reads_stats
  | recentRuns limit =>
      exact .read (reads_recentRuns hScan limit)
  | deadLetter limit =>
      exact .read (reads_deadLetter hScan limit)

end Api

end Sluice
