import Sluice.Api.Handlers
import Sluice.Foundations.Noninterference
import Sluice.Storage.Owners

/-
  What a tenant can see, and what it can change.

  To a tenant belong its row, its jobs, runs, dead letters
  and schedules, its lanes, the markers of its jobs and its
  token bucket. The queries of the handlers find nothing
  else, and single writes of its things change nothing else.
  The runs are joined with their jobs by identifier alone;
  that these are the tenant's own is part of `Owned`.

  Key definitions include:
    * `SameFor`
    * `tenantViews`
    * `Sound`

  Key theorems include:
    * `SameFor.runs_eq`
    * `reads_listJobRuns`
    * `writes_enqueue`
-/

------------------------------------------------------------
-- What Belongs To A Tenant
------------------------------------------------------------

namespace Sluice

namespace Api

open Foundations Storage Queue

/- The states agree on all rows and keys of a tenant. -/
structure SameFor (v : Uuid) (s s' : Store) : Prop where
  tenants :
    s.db.tenants.AgreeOn (fun r => r.id = v) s'.db.tenants
  jobs :
    s.db.jobs.AgreeOn (fun r => r.tenantId = v) s'.db.jobs
  jobRuns :
    s.db.jobRuns.AgreeOn (fun r => r.tenantId = v)
      s'.db.jobRuns
  deadLetter :
    s.db.deadLetter.AgreeOn (fun r => r.tenantId = v)
      s'.db.deadLetter
  schedules :
    s.db.schedules.AgreeOn (fun r => r.tenantId = v)
      s'.db.schedules
  lanes :
    ∀ bucket,
      s.redis.lanes ⟨bucket, v⟩ = s'.redis.lanes ⟨bucket, v⟩
  markers :
    ∀ j ∈ s.db.jobs.rows, j.tenantId = v →
      s.redis.marked j.id = s'.redis.marked j.id
  bucket : s.buckets v = s'.buckets v

namespace SameFor

theorem refl
    (v : Uuid)
    (s : Store) :
    SameFor v s s where
  tenants := .refl _ _
  jobs := .refl _ _
  jobRuns := .refl _ _
  deadLetter := .refl _ _
  schedules := .refl _ _
  lanes := fun _ => rfl
  markers := fun _ _ _ => rfl
  bucket := rfl

theorem trans
    {v : Uuid}
    {s s' s'' : Store}
    (hSame : SameFor v s s')
    (hSame' : SameFor v s' s'') :
    SameFor v s s'' where
  tenants := hSame.tenants.trans hSame'.tenants
  jobs := hSame.jobs.trans hSame'.jobs
  jobRuns := hSame.jobRuns.trans hSame'.jobRuns
  deadLetter := hSame.deadLetter.trans hSame'.deadLetter
  schedules := hSame.schedules.trans hSame'.schedules
  lanes := fun bucket =>
    (hSame.lanes bucket).trans (hSame'.lanes bucket)
  markers := fun j hj hOwn =>
    (hSame.markers j hj hOwn).trans
      (hSame'.markers j ((hSame.jobs j hOwn).mp hj) hOwn)
  bucket := hSame.bucket.trans hSame'.bucket

end SameFor

/- Tenants as parties that share the stores. -/
def tenantViews : Views Store Uuid where
  same := SameFor
  refl := SameFor.refl
  trans := fun _ _ _ _ => SameFor.trans

/- The UUID is that of no row and of no marker. -/
def unused (id : Uuid) (s : Store) : Bool :=
  (s.db.job? id).isNone && (s.db.deadLetter? id).isNone &&
    (s.db.schedules.find? id).isNone && !s.redis.marked id

/-
  Runs and dead letters carry the tenant of their job, and
  the new UUID is not in use.
-/
structure Sound (newId : Uuid) (s : Store) : Prop where
  owned : Owned s.db
  unused : unused newId s = true

namespace Sound

variable {newId : Uuid}
variable {s : Store}

theorem job
    (hSound : Sound newId s) :
    s.db.job? newId = none := by
  have hUnused := hSound.unused
  simp only [Api.unused, Bool.and_eq_true,
    Option.isNone_iff_eq_none] at hUnused
  exact hUnused.1.1.1

theorem schedule
    (hSound : Sound newId s) :
    s.db.schedules.find? newId = none := by
  have hUnused := hSound.unused
  simp only [Api.unused, Bool.and_eq_true,
    Option.isNone_iff_eq_none] at hUnused
  exact hUnused.1.2

theorem marker
    (hSound : Sound newId s) :
    s.redis.marked newId = false := by
  have hUnused := hSound.unused
  simp only [Api.unused, Bool.and_eq_true,
    Bool.not_eq_true'] at hUnused
  exact hUnused.2

end Sound

------------------------------------------------------------
-- Queries
------------------------------------------------------------

namespace SameFor

variable {v : Uuid}
variable {s s' : Store}
variable {scan : Scan}

theorem matchJob_eq
    {p : Job → Bool}
    (hSame : SameFor v s s')
    (hOnly : ∀ j, p j = true → j.tenantId = v)
    (id : Uuid) :
    matchJob id p s.db = matchJob id p s'.db :=
  hSame.jobs.find?_filter hOnly id

theorem getJobForTenant_eq
    (hSame : SameFor v s s')
    (id : Uuid) :
    getJobForTenant id v s.db = getJobForTenant id v s'.db :=
  hSame.matchJob_eq (fun _ hOwn => of_decide_eq_true hOwn) id

theorem getSchedule_eq
    (hSame : SameFor v s s')
    (id : Uuid) :
    getSchedule id v s.db = getSchedule id v s'.db :=
  hSame.schedules.find?_filter
    (fun _ hOwn => of_decide_eq_true hOwn) id

theorem insertJob_eq
    {j : Job}
    (hSame : SameFor j.tenantId s s')
    (hFresh : s.db.job? j.id = none)
    (hFresh' : s'.db.job? j.id = none) :
    insertJob j s.db = insertJob j s'.db := by
  unfold insertJob
  rw [hFresh, hFresh']
  cases j.idempotencyKey with
  | none => rfl
  | some key =>
      have hAny :
          s.db.jobs.rows.any
              (fun row =>
                row.tenantId = j.tenantId &&
                  row.idempotencyKey = some key) =
            s'.db.jobs.rows.any
              (fun row =>
                row.tenantId = j.tenantId &&
                  row.idempotencyKey = some key) := by
        apply hSame.jobs.any_eq
        intro row hRow
        simp only [Bool.and_eq_true,
          decide_eq_true_eq] at hRow
        exact hRow.1
      simp only [hAny]

theorem getJobByIdempotencyKey_eq
    (hSame : SameFor v s s')
    (hScan : Function.Injective scan)
    (key : String) :
    getJobByIdempotencyKey v key scan s.db =
      getJobByIdempotencyKey v key scan s'.db := by
  unfold getJobByIdempotencyKey
  rw [hSame.jobs.select_eq]
  · intro j hj
    simp only [Bool.and_eq_true, decide_eq_true_eq] at hj
    exact hj.1
  · exact fun j j' hRank => hScan hRank

theorem listJobs_eq
    {f : ListFilter}
    (hSame : SameFor f.tenantId s s')
    (hScan : Function.Injective scan) :
    listJobs f scan s.db = listJobs f scan s'.db := by
  unfold listJobs
  rw [hSame.jobs.select_eq]
  · intro j hj
    simp only [Bool.and_eq_true, decide_eq_true_eq] at hj
    exact hj.1.1
  · intro j j' hRank
    exact hScan (Prod.mk.inj (toLex.injective hRank)).2

theorem countJobsByState_eq
    (hSame : SameFor v s s') :
    countJobsByState v s.db = countJobsByState v s'.db := by
  have hCount :
      ∀ state : JobState,
        s.db.jobs.count
            (fun j => j.tenantId = v && j.state = state) =
          s'.db.jobs.count
            (fun j => j.tenantId = v && j.state = state) := by
    intro state
    apply hSame.jobs.count_eq
    intro j hj
    simp only [Bool.and_eq_true, decide_eq_true_eq] at hj
    exact hj.1
  unfold countJobsByState
  simp only [hCount]

/- A run of the tenant is joined with a job of the tenant. -/
theorem joinJob_eq
    {r : RunRow}
    (hSame : SameFor v s s')
    (hOwned : Owned s.db)
    (hRun : r ∈ s.db.jobRuns.rows)
    (hOwn : r.tenantId = v) :
    joinJob s.db r = joinJob s'.db r := by
  rcases hOwned.runs r.id r (Table.find?_of_mem hRun) with
    ⟨j, hJob, hTenant⟩
  have hJob' : s'.db.job? r.jobId = some j :=
    hSame.jobs.find? hJob (hTenant.trans hOwn)
  unfold joinJob
  rw [hJob, hJob']

theorem runs_eq
    {α : Type}
    [LinearOrder α]
    {p : RunRow → Bool}
    {rank : RunRow → α}
    (hSame : SameFor v s s')
    (hOwned : Owned s.db)
    (hOnly : ∀ r, p r = true → r.tenantId = v)
    (hRank : ∀ r r', rank r = rank r' → r.id = r'.id) :
    (s.db.jobRuns.select p rank).filterMap (joinJob s.db) =
      (s'.db.jobRuns.select p rank).filterMap
        (joinJob s'.db) := by
  rw [← hSame.jobRuns.select_eq hOnly hRank]
  apply List.filterMap_congr
  intro r hr
  rcases
    List.mem_filter.mp ((List.mem_insertionSort _).mp hr)
  with ⟨hRun, hMeets⟩
  exact hSame.joinJob_eq hOwned hRun (hOnly r hMeets)

theorem listRecentRuns_eq
    (hSame : SameFor v s s')
    (hOwned : Owned s.db)
    (hScan : Function.Injective scan)
    (limit : Nat) :
    listRecentRuns v limit scan s.db =
      listRecentRuns v limit scan s'.db := by
  unfold listRecentRuns
  rw [hSame.runs_eq hOwned]
  · exact fun r hr => of_decide_eq_true hr
  · intro r r' hRank
    exact hScan (Prod.mk.inj (toLex.injective hRank)).2

theorem listJobRuns_eq
    (hSame : SameFor v s s')
    (hOwned : Owned s.db)
    (hScan : Function.Injective scan)
    (jobId : Uuid) :
    listJobRuns jobId v scan s.db =
      listJobRuns jobId v scan s'.db := by
  unfold listJobRuns
  apply hSame.runs_eq hOwned
  · intro r hr
    simp only [Bool.and_eq_true, decide_eq_true_eq] at hr
    exact hr.2
  · intro r r' hRank
    exact hScan (Prod.mk.inj (toLex.injective hRank)).2

theorem listDeadLetter_eq
    (hSame : SameFor v s s')
    (hScan : Function.Injective scan)
    (limit : Nat) :
    listDeadLetter v limit scan s.db =
      listDeadLetter v limit scan s'.db := by
  unfold listDeadLetter
  rw [hSame.deadLetter.select_eq]
  · exact fun d hd => of_decide_eq_true hd
  · intro d d' hRank
    exact hScan (Prod.mk.inj (toLex.injective hRank)).2

theorem listSchedules_eq
    (hSame : SameFor v s s')
    (hScan : Function.Injective scan) :
    listSchedules v scan s.db = listSchedules v scan s'.db := by
  unfold listSchedules
  apply hSame.schedules.select_eq
  · exact fun sched hOwn => of_decide_eq_true hOwn
  · intro sched sched' hRank
    exact hScan (Prod.mk.inj (toLex.injective hRank)).2

theorem depths_eq
    {t : Tenant}
    (hSame : SameFor t.id s s') :
    depths t s.redis = depths t s'.redis := by
  unfold depths
  simp only [hSame.lanes]

end SameFor

------------------------------------------------------------
-- Reading Handlers
------------------------------------------------------------

section

variable {env : Env}
variable {t : Tenant}

theorem reads_getJob
    (id : Option Uuid) :
    Reads tenantViews (Sound env.newId) t.id
      (handleGetJob env t id) := by
  intro s s' _ _ hSame
  unfold handleGetJob
  cases id with
  | none => rfl
  | some id =>
      simp only [SameFor.getJobForTenant_eq hSame]

theorem reads_listJobRuns
    (hScan : Function.Injective env.scan)
    (id : Option Uuid) :
    Reads tenantViews (Sound env.newId) t.id
      (handleListJobRuns env t id) := by
  intro s s' hSound _ hSame
  unfold handleListJobRuns
  cases id with
  | none => rfl
  | some id =>
      simp only [SameFor.getJobForTenant_eq hSame,
        SameFor.listJobRuns_eq hSame hSound.owned hScan]

theorem reads_listJobs
    (hScan : Function.Injective env.scan)
    (params : ListJobsParams) :
    Reads tenantViews (Sound env.newId) t.id
      (handleListJobs env t params) := by
  intro s s' _ _ hSame
  unfold handleListJobs
  cases hFilter : listFilter t params with
  | error message => rfl
  | ok filter =>
      have hTenant : filter.tenantId = t.id := by
        unfold listFilter at hFilter
        split at hFilter
        · cases hFilter
        · split at hFilter
          · cases hFilter
          · cases hFilter
            rfl
      change SameFor t.id s s' at hSame
      rw [← hTenant] at hSame
      simp only [hSame.listJobs_eq hScan]

theorem reads_listSchedules
    (hScan : Function.Injective env.scan) :
    Reads tenantViews (Sound env.newId) t.id
      (handleListSchedules env t) := by
  intro s s' _ _ hSame
  unfold handleListSchedules
  rw [SameFor.listSchedules_eq hSame hScan]

theorem reads_getSchedule
    (id : Option Uuid) :
    Reads tenantViews (Sound env.newId) t.id
      (handleGetSchedule env t id) := by
  intro s s' _ _ hSame
  unfold handleGetSchedule
  cases id with
  | none => rfl
  | some id =>
      simp only [SameFor.getSchedule_eq hSame]

theorem reads_stats :
    Reads tenantViews (Sound env.newId) t.id
      (handleStats env t) := by
  intro s s' _ _ hSame
  unfold handleStats
  rw [SameFor.depths_eq hSame,
    SameFor.countJobsByState_eq hSame]

theorem reads_recentRuns
    (hScan : Function.Injective env.scan)
    (limit : Option Int) :
    Reads tenantViews (Sound env.newId) t.id
      (handleRecentRuns env t limit) := by
  intro s s' hSound _ hSame
  unfold handleRecentRuns
  rw [SameFor.listRecentRuns_eq hSame hSound.owned hScan]

theorem reads_deadLetter
    (hScan : Function.Injective env.scan)
    (limit : Option Int) :
    Reads tenantViews (Sound env.newId) t.id
      (handleDeadLetter env t limit) := by
  intro s s' _ _ hSame
  unfold handleDeadLetter
  rw [SameFor.listDeadLetter_eq hSame hScan]

theorem reads_duplicateResponse
    {ok : Store → Prop}
    (hScan : Function.Injective env.scan)
    (key : Option String) :
    Reads tenantViews ok t.id
      (duplicateResponse env t key) := by
  intro s s' _ _ hSame
  unfold duplicateResponse
  simp only [SameFor.getJobByIdempotencyKey_eq hSame hScan]

end

------------------------------------------------------------
-- Writes
------------------------------------------------------------

variable {ok : Store → Prop}
variable {v : Uuid}

/- Replace a job of the tenant. -/
theorem writes_putJob
    {old : Job}
    (new : Job)
    (hOld :
      ∀ s, ok s →
        s.db.job? new.id = some old ∧ old.tenantId = v)
    (hNew : new.tenantId = old.tenantId) :
    Writes tenantViews ok v
      (fun s =>
        { s with
          db := { s.db with jobs := s.db.jobs.put new } }) where
  view := by
    intro s s' hOk _ hSame
    change SameFor v s s' at hSame
    rcases hOld s hOk with ⟨hRow, hOwn⟩
    have hMem : old ∈ s.db.jobs.rows := Table.mem_of_find? hRow
    have hKey : old.id = new.id := Table.key_of_find? hRow
    refine
      { tenants := hSame.tenants
        jobs := hSame.jobs.put hMem hKey hOwn
        jobRuns := hSame.jobRuns
        deadLetter := hSame.deadLetter
        schedules := hSame.schedules
        lanes := hSame.lanes
        markers := ?_
        bucket := hSame.bucket }
    intro j hj hTenant
    rcases Table.mem_put_iff.mp hj with hBefore | hPut
    · exact hSame.markers j hBefore.1 hTenant
    · rw [hPut.1, ← hKey]
      exact hSame.markers old hMem hOwn
  others := by
    intro s hOk u hOther
    rcases hOld s hOk with ⟨hRow, hOwn⟩
    exact
      { SameFor.refl u s with
        jobs :=
          Table.AgreeOn.of_put (Table.mem_of_find? hRow)
            (Table.key_of_find? hRow)
            (fun hSame => hOther (hSame.symm.trans hOwn))
            (fun hSame =>
              hOther
                (hSame.symm.trans (hNew.trans hOwn))) }

/- Add a job of the tenant under an identifier not in use. -/
theorem writes_insertJob
    {new : Job}
    (hFresh :
      ∀ s, ok s →
        s.db.job? new.id = none ∧
          s.redis.marked new.id = false)
    (hNew : new.tenantId = v) :
    Writes tenantViews ok v
      (fun s =>
        { s with
          db :=
            { s.db with jobs := s.db.jobs.insert new } }) where
  view := by
    intro s s' hOk hOk' hSame
    change SameFor v s s' at hSame
    refine
      { tenants := hSame.tenants
        jobs :=
          hSame.jobs.insert (hFresh s hOk).1
            (hFresh s' hOk').1
        jobRuns := hSame.jobRuns
        deadLetter := hSame.deadLetter
        schedules := hSame.schedules
        lanes := hSame.lanes
        markers := ?_
        bucket := hSame.bucket }
    intro j hj hTenant
    rcases (Table.mem_insert_iff (hFresh s hOk).1).mp hj with
      hBefore | hAdded
    · exact hSame.markers j hBefore hTenant
    · rw [hAdded]
      exact (hFresh s hOk).2.trans (hFresh s' hOk').2.symm
  others := by
    intro s hOk u hOther
    exact
      { SameFor.refl u s with
        jobs :=
          Table.AgreeOn.of_insert (hFresh s hOk).1
            (fun hSame => hOther (hSame.symm.trans hNew)) }

/- Enqueue a job of the tenant in one of its lanes. -/
theorem writes_enqueue
    {id : Uuid}
    {priority : Int}
    (hJob :
      ∀ s, ok s →
        ∃ j, s.db.job? id = some j ∧ j.tenantId = v) :
    Writes tenantViews ok v
      (fun s =>
        { s with redis := s.redis.enqueue v id priority }) where
  view := by
    intro s s' hOk _ hSame
    change SameFor v s s' at hSame
    rcases hJob s hOk with ⟨j, hRow, hOwn⟩
    have hId : j.id = id := Table.key_of_find? hRow
    have hMarker : s.redis.marked id = s'.redis.marked id := by
      rw [← hId]
      exact hSame.markers j (Table.mem_of_find? hRow) hOwn
    refine
      { tenants := hSame.tenants
        jobs := hSame.jobs
        jobRuns := hSame.jobRuns
        deadLetter := hSame.deadLetter
        schedules := hSame.schedules
        lanes := ?_
        markers := ?_
        bucket := hSame.bucket }
    · intro bucket
      change
        (s.redis.enqueueScript _ id).lanes _ =
          (s'.redis.enqueueScript _ id).lanes _
      unfold Redis.enqueueScript
      rw [hMarker]
      split
      · exact hSame.lanes bucket
      · simp only [Function.update_apply, hSame.lanes]
    · intro j' hj' hTenant
      change
        (s.redis.enqueueScript _ id).marked _ =
          (s'.redis.enqueueScript _ id).marked _
      rw [Redis.marked_enqueueScript,
        Redis.marked_enqueueScript,
        hSame.markers j' hj' hTenant]
  others := by
    intro s hOk u hOther
    rcases hJob s hOk with ⟨j, hRow, hOwn⟩
    refine
      { SameFor.refl u s with
        lanes := ?_
        markers := ?_ }
    · intro bucket
      change _ = (s.redis.enqueueScript _ id).lanes _
      unfold Redis.enqueueScript
      split
      · rfl
      · symm
        apply Function.update_of_ne
        intro hLane
        exact hOther (congrArg Lane.tenantId hLane)
    · intro j' hj' hTenant
      change _ = (s.redis.enqueueScript _ id).marked _
      rw [Redis.marked_enqueueScript]
      have hNe : j'.id ≠ id := by
        intro hSame
        have hEq : j' = j :=
          s.db.jobs.eq_of_key_eq hj' (Table.mem_of_find? hRow)
            (hSame.trans (Table.key_of_find? hRow).symm)
        rw [hEq] at hTenant
        exact hOther (hTenant.symm.trans hOwn)
      simp [hNe]

/- Delete the dead letter of a job of the tenant. -/
theorem writes_deleteDeadLetter
    {jobId : Uuid}
    (hOwn :
      ∀ s, ok s → ∀ d, s.db.deadLetter? jobId = some d →
        d.tenantId = v) :
    Writes tenantViews ok v
      (fun s =>
        { s with
          db :=
            { s.db with
              deadLetter :=
                s.db.deadLetter.delete jobId } }) where
  view := by
    intro s s' _ _ hSame
    change SameFor v s s' at hSame
    exact
      { hSame with
        deadLetter := hSame.deadLetter.delete jobId }
  others := by
    intro s hOk u hOther
    refine
      { SameFor.refl u s with
        deadLetter := Table.AgreeOn.of_delete ?_ }
    intro d hRow hSame
    exact hOther (hSame.symm.trans (hOwn s hOk d hRow))

/- Change the schedules of the tenant. -/
theorem writes_insertSchedule
    {new : Schedule}
    (hFresh :
      ∀ s, ok s → s.db.schedules.find? new.id = none)
    (hNew : new.tenantId = v) :
    Writes tenantViews ok v
      (fun s =>
        { s with
          db :=
            { s.db with
              schedules := s.db.schedules.insert new } }) where
  view := by
    intro s s' hOk hOk' hSame
    change SameFor v s s' at hSame
    exact
      { hSame with
        schedules :=
          hSame.schedules.insert (hFresh s hOk)
            (hFresh s' hOk') }
  others := by
    intro s hOk u hOther
    exact
      { SameFor.refl u s with
        schedules :=
          Table.AgreeOn.of_insert (hFresh s hOk)
            (fun hSame => hOther (hSame.symm.trans hNew)) }

theorem writes_putSchedule
    {old : Schedule}
    (new : Schedule)
    (hOld :
      ∀ s, ok s →
        s.db.schedules.find? new.id = some old ∧
          old.tenantId = v)
    (hNew : new.tenantId = old.tenantId) :
    Writes tenantViews ok v
      (fun s =>
        { s with
          db :=
            { s.db with
              schedules := s.db.schedules.put new } }) where
  view := by
    intro s s' hOk _ hSame
    change SameFor v s s' at hSame
    rcases hOld s hOk with ⟨hRow, hOwn⟩
    exact
      { hSame with
        schedules :=
          hSame.schedules.put (Table.mem_of_find? hRow)
            (Table.key_of_find? hRow) hOwn }
  others := by
    intro s hOk u hOther
    rcases hOld s hOk with ⟨hRow, hOwn⟩
    exact
      { SameFor.refl u s with
        schedules :=
          Table.AgreeOn.of_put (Table.mem_of_find? hRow)
            (Table.key_of_find? hRow)
            (fun hSame => hOther (hSame.symm.trans hOwn))
            (fun hSame =>
              hOther
                (hSame.symm.trans (hNew.trans hOwn))) }

theorem writes_deleteSchedule
    {id : Uuid}
    (hOwn :
      ∀ s, ok s → ∀ row, s.db.schedules.find? id = some row →
        row.tenantId = v) :
    Writes tenantViews ok v
      (fun s =>
        { s with
          db :=
            { s.db with
              schedules := s.db.schedules.delete id } }) where
  view := by
    intro s s' _ _ hSame
    change SameFor v s s' at hSame
    exact
      { hSame with schedules := hSame.schedules.delete id }
  others := by
    intro s hOk u hOther
    refine
      { SameFor.refl u s with
        schedules := Table.AgreeOn.of_delete ?_ }
    intro row hRow hSame
    exact hOther (hSame.symm.trans (hOwn s hOk row hRow))

/- Store the tenant's token bucket. -/
theorem writes_bucket
    (bucket : TokenBucket) :
    Writes tenantViews ok v
      (fun s =>
        { s with
          buckets :=
            Function.update s.buckets v (some bucket) }) where
  view := by
    intro s s' _ _ hSame
    change SameFor v s s' at hSame
    refine { hSame with bucket := ?_ }
    simp only [Function.update_self]
  others := by
    intro s _ u hOther
    refine { SameFor.refl u s with bucket := ?_ }
    simp only [Function.update_of_ne hOther]

end Api

end Sluice
