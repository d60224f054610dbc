import Sluice.Api.Writers
import Sluice.Storage.Tenants

/-
  Requests among everything else that goes on.

  Handlers of all tenants run on the same stores as the
  statements of schedulers, workers and operators. Every
  statement is a step of its own, also those of a replay.
  Nothing is assumed of Redis: it may change in any way
  between two steps.

  Key definitions include:
    * `Service.Label`
    * `service`

  Key theorems include:
    * `owned_handle`
    * `owned_of_reachable`
    * `tenants_are_isolated`
-/

------------------------------------------------------------
-- The Service
------------------------------------------------------------

namespace Sluice

namespace Api

open Foundations Storage Queue Scheduler.Cron

namespace Service

inductive Label
| request (env : Env) (t : Tenant) (req : Request)
| call
    (call : Call) (pc : Nat) (start : Time) (scan : Scan)
    (locked : RowKey → Bool)
| promoteFailedToPending (jobId : Uuid) (start : Time)
| pruneFinishedJobs
    (cutoff : Time) (limit : Nat) (scan : Scan)
| pruneDeadLetter
    (cutoff : Time) (limit : Nat) (scan : Scan)
| dropRuns (keep : RunRow → Bool)
| updateScheduleAfterRun
    (id : Uuid) (lastRunAt nextRunAt : Time)
| changeTenant (change : TenantChange)
| changeRedis (redis : Redis) (buckets : TokenBuckets)

/- New rows are stored under unused identifiers. -/
def step
    (P : RequestParsers)
    (label : Label)
    (s : Store) :
    Option Store :=
  match label with
  | .request env t req =>
      if unused env.newId s then
        some (handle P env t req s).2
      else none
  | .call c pc start scan locked =>
      if c.newJob?.all (fun id => unused id s) then
        (s.db.apply
          (c.statement pc start scan locked s.db)).map
            (fun db => { s with db := db })
      else none
  | .promoteFailedToPending jobId start =>
      (s.db.apply
        (Storage.promoteFailedToPending jobId start s.db)).map
          (fun db => { s with db := db })
  | .pruneFinishedJobs cutoff limit scan =>
      some
        { s with
          db :=
            (Storage.pruneFinishedJobs cutoff limit scan
              s.db).1 }
  | .pruneDeadLetter cutoff limit scan =>
      some
        { s with
          db :=
            (Storage.pruneDeadLetter cutoff limit scan
              s.db).1 }
  | .dropRuns keep =>
      some
        { s with
          db :=
            { s.db with
              jobRuns := s.db.jobRuns.retain keep } }
  | .updateScheduleAfterRun id lastRunAt nextRunAt =>
      some
        { s with
          db :=
            Scheduler.Cron.updateScheduleAfterRun id
              lastRunAt nextRunAt s.db }
  | .changeTenant change =>
      (change.perform s.db.tenants).map
        (fun tenants =>
          { s with db := { s.db with tenants := tenants } })
  | .changeRedis redis buckets =>
      some { s with redis := redis, buckets := buckets }

end Service

/- Stores without jobs; tenants and schedules may exist. -/
def Store.initial (s : Store) : Prop :=
  s.db.initial ∧ s.redis = Redis.empty ∧
    s.buckets = fun _ => none

def service
    (P : RequestParsers) :
    Machine Store Service.Label where
  init := Store.initial
  step := Service.step P

------------------------------------------------------------
-- Rows Are Owned
------------------------------------------------------------

section

variable {P : RequestParsers}
variable {env : Env}
variable {t : Tenant}
variable {s s' : Store}

theorem deadLetter?_of_unused
    {id : Uuid}
    (hUnused : unused id s = true) :
    s.db.deadLetter? id = none := by
  simp only [unused, Bool.and_eq_true,
    Option.isNone_iff_eq_none] at hUnused
  exact hUnused.1.1.2

theorem owned_storeSubmitted
    {j : Job}
    (hOwned : Owned s.db)
    (hNone : s.db.deadLetter? j.id = none) :
    Owned (storeSubmitted env t j s).2.db := by
  unfold storeSubmitted
  split
  · exact hOwned
  · cases hInsert : insertJob j s.db with
    | abort => exact hOwned
    | proceed writes locks =>
        have hApply :
            s.db.apply (insertJob j s.db) =
              some (postgres.performAll s.db writes) := by
          rw [hInsert]
          rfl
        apply hOwned.statement (.insertJob j) 0 env.dbNow
          env.scan (fun _ => false) _ hApply
        intro id hNew
        cases hNew
        exact hNone

theorem owned_submitJob
    {body : Option SubmitJobRequest}
    {traceParent : Option String}
    (hOwned : Owned s.db)
    (hUnused : unused env.newId s = true) :
    Owned
      (handleSubmitJob P env t body traceParent s).2.db := by
  have hDb : (checkLimit env t s).2.db = s.db := by
    unfold checkLimit
    split <;> rfl
  unfold handleSubmitJob
  split
  · exact hOwned
  split
  · exact hOwned
  split
  · exact hOwned
  · rename_i j hSubmit
    dsimp only
    split
    · apply owned_storeSubmitted
      · rw [hDb]
        exact hOwned
      · rw [hDb, (submitJob_ids hSubmit).1]
        exact deadLetter?_of_unused hUnused
    · change Owned (checkLimit env t s).2.db
      rw [hDb]
      exact hOwned

theorem owned_cancelJob
    {id : Option Uuid}
    (hOwned : Owned s.db) :
    Owned (handleCancelJob env t id s).2.db := by
  cases id with
  | none => exact hOwned
  | some id =>
      unfold handleCancelJob
      dsimp only
      split
      · exact hOwned
      · unfold afterCancel
        split
        · exact hOwned
        · exact hOwned
        · rename_i writes locks _ hCancel
          have hApply :
              s.db.apply (cancelJob id t.id env.dbNow s.db) =
                some (postgres.performAll s.db writes) := by
            rw [hCancel]
            rfl
          apply hOwned.statement (.cancelJob id t.id) 0
            env.dbNow env.scan (fun _ => false) _ hApply
          intro id hNew
          cases hNew

theorem owned_replayJob
    {id : Option Uuid}
    (hOwned : Owned s.db) :
    Owned (handleReplayJob env t id s).2.db := by
  cases id with
  | none => exact hOwned
  | some id =>
      unfold handleReplayJob
      dsimp only
      split
      · exact hOwned
      split
      · exact hOwned
      · rename_i db hReplay
        have hDb : Owned db := hOwned.replay hReplay
        split
        · exact hDb
        · split
          · exact hDb
          · exact hDb

theorem owned_handle
    {req : Request}
    (hOwned : Owned s.db)
    (hUnused : unused env.newId s = true) :
    Owned (handle P env t req s).2.db := by
  cases req with
  | submitJob body traceParent =>
      exact owned_submitJob hOwned hUnused
  | cancelJob id => exact owned_cancelJob hOwned
  | replayJob id => exact owned_replayJob hOwned
  | createSchedule body =>
      change Owned (handleCreateSchedule P env t body s).2.db
      unfold handleCreateSchedule
      split
      · exact hOwned
      split
      · exact hOwned
      split
      · exact hOwned
      split
      · exact hOwned
      · rename_i db hInsert
        rw [(insertSchedule_eq_some hInsert).2]
        exact hOwned.congr rfl rfl rfl
  | deleteSchedule id =>
      change Owned (handleDeleteSchedule env t id s).2.db
      unfold handleDeleteSchedule
      split
      · exact hOwned
      split
      · exact hOwned
      split
      · exact hOwned
      · rename_i db hDelete
        rw [(deleteSchedule_eq_some hDelete).2]
        exact hOwned.congr rfl rfl rfl
  | updateSchedule id body =>
      change Owned (handleUpdateSchedule P env t id body s).2.db
      unfold handleUpdateSchedule
      split
      · exact hOwned
      · exact hOwned
      split
      · exact hOwned
      split
      · exact hOwned
      split
      · exact hOwned
      split
      · exact hOwned
      split
      · exact hOwned
      · rename_i db hUpdate
        rw [updateSchedule_eq_map] at hUpdate
        rcases Option.map_eq_some_iff.mp hUpdate with
          ⟨row, _, hDb⟩
        rw [← hDb]
        exact hOwned.congr rfl rfl rfl
  | _ => exact hOwned

theorem owned_of_reachable
    (hReach : (service P).Reachable s) :
    Owned s.db := by
  apply hReach.invariant (I := fun s => Owned s.db)
  · intro s hInit
    exact hInit.1.owned
  · intro s label s' _ hOwned _ hStep
    cases label with
    | request env t req =>
        change (if unused env.newId s then _ else _) = _ at hStep
        split at hStep
        · rename_i hUnused
          cases hStep
          exact owned_handle hOwned hUnused
        · cases hStep
    | call c pc start scan locked =>
        change
          (if c.newJob?.all (fun id => unused id s) then _
            else _) = _ at hStep
        split at hStep
        · rename_i hNew
          rcases Option.map_eq_some_iff.mp hStep with
            ⟨db, hApply, rfl⟩
          apply hOwned.statement c pc start scan locked _
            hApply
          intro id hId
          rw [hId] at hNew
          exact deadLetter?_of_unused hNew
        · cases hStep
    | promoteFailedToPending jobId start =>
        rcases Option.map_eq_some_iff.mp hStep with
          ⟨db, hApply, rfl⟩
        exact hOwned.promote_failed hApply
    | pruneFinishedJobs cutoff limit scan =>
        cases hStep
        exact hOwned.prune_finished
    | pruneDeadLetter cutoff limit scan =>
        cases hStep
        exact hOwned.prune_dead
    | dropRuns keep =>
        cases hStep
        exact hOwned.retain_runs keep
    | updateScheduleAfterRun id lastRunAt nextRunAt =>
        cases hStep
        change Owned (changeSchedule id _ s.db)
        unfold changeSchedule
        split
        · exact hOwned
        · exact hOwned.congr rfl rfl rfl
    | changeTenant change =>
        rcases Option.map_eq_some_iff.mp hStep with
          ⟨tenants, _, rfl⟩
        exact hOwned.congr rfl rfl rfl
    | changeRedis redis buckets =>
        cases hStep
        exact hOwned

end

------------------------------------------------------------
-- Isolation
------------------------------------------------------------

/-
  Two states that agree on all that belongs to the tenant of
  a request give it the same response and agree on it again,
  and nothing that belongs to another tenant changes.
-/
theorem tenants_are_isolated
    (P : RequestParsers)
    (env : Env)
    (t : Tenant)
    (req : Request)
    (s s' : Store)
    (hReach : (service P).Reachable s)
    (hReach' : (service P).Reachable s')
    (hScan : Function.Injective env.scan)
    (hUnused : unused env.newId s = true)
    (hUnused' : unused env.newId s' = true)
    (hSame : SameFor t.id s s') :
    (handle P env t req s).1 = (handle P env t req s').1 ∧
      SameFor t.id (handle P env t req s).2
        (handle P env t req s').2 ∧
      ∀ other, other ≠ t.id →
        SameFor other s (handle P env t req s).2 ∧
          SameFor other s' (handle P env t req s').2 := by
  have hSound : Sound env.newId s :=
    ⟨owned_of_reachable hReach, hUnused⟩
  have hSound' : Sound env.newId s' :=
    ⟨owned_of_reachable hReach', hUnused'⟩
  have hIsolated :
      Isolated tenantViews (Sound env.newId) t.id
        (handle P env t req) :=
    handle_isolated hScan req
  refine ⟨hIsolated.response s s' hSound hSound' hSame,
    hIsolated.view s s' hSound hSound' hSame, ?_⟩
  intro other hOther
  exact ⟨hIsolated.others s hSound other hOther,
    hIsolated.others s' hSound' other hOther⟩

namespace Sample

/- A library that knows no cron expression. -/
def parsers : RequestParsers where
  next := fun _ _ _ => none
  template := fun _ => none
  validateWebhookPayload := fun _ => .ok ()
  nextError := fun _ _ => "invalid cron expression"

def env (newId : Uuid) : Env where
  now := 0
  dbNow := 0
  redisNow := 0
  newId := newId
  scan := fun id => id
  limiter := false
  fails := fun _ => false

def tenant (id : Uuid) : Tenant where
  id := id
  name := Nat.repr id
  apiKeyHash := ""
  rateLimit := 100
  weight := 100
  status := .active
  webhookSecret := ""
  maxConcurrency := 1

/- No tenant has a job. -/
def quiet : Store where
  db := ⟨.empty, .empty, .empty, .empty, .empty⟩
  redis := Redis.empty
  buckets := fun _ => none

def submission : Request :=
  .submitJob
    (some ⟨⟨"webhook", "", none, none, none⟩, none, none⟩)
    none

/- The second tenant has submitted a job. -/
def busy : Store :=
  (handle parsers (env 7) (tenant 2) submission quiet).2

theorem reachable_quiet :
    (service parsers).Reachable quiet :=
  .start ⟨⟨rfl, rfl, rfl⟩, rfl, rfl⟩

theorem reachable_busy :
    (service parsers).Reachable busy :=
  reachable_quiet.next
    (.request (env 7) (tenant 2) submission) trivial rfl

end Sample

/- The first tenant does not see the job of the second. -/
theorem neighbours_job_is_invisible :
    Sample.busy.db.jobs.rows.map Job.tenantId = [2] ∧
      (handle Sample.parsers (Sample.env 8) (Sample.tenant 1)
          .stats Sample.quiet).1 =
        (handle Sample.parsers (Sample.env 8)
          (Sample.tenant 1) .stats Sample.busy).1 := by
  have hScan :
      ∀ id, Function.Injective (Sample.env id).scan :=
    fun _ _ _ hSame => hSame
  have hSubmit :=
    tenants_are_isolated Sample.parsers (Sample.env 7)
      (Sample.tenant 2) Sample.submission Sample.quiet
      Sample.quiet Sample.reachable_quiet
      Sample.reachable_quiet (hScan 7) rfl rfl
      (SameFor.refl 2 Sample.quiet)
  have hSame : SameFor 1 Sample.quiet Sample.busy :=
    (hSubmit.2.2 1 (by decide)).1
  have hStats :=
    tenants_are_isolated Sample.parsers (Sample.env 8)
      (Sample.tenant 1) .stats Sample.quiet Sample.busy
      Sample.reachable_quiet Sample.reachable_busy (hScan 8)
      rfl (by decide +kernel) hSame
  exact ⟨by decide +kernel, hStats.1⟩

end Api

end Sluice
