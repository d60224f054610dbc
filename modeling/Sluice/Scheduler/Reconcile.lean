import Mathlib.Data.Prod.Lex
import Sluice.Foundations.Paging
import Sluice.Queue.Redis
import Sluice.Storage.Sessions

/-
  Repair of the queues after Redis has lost them.

  `reconcilePending` pages through the pending jobs that have
  been due for a while and queues each of them again. Every
  pass starts at the beginning and ends after 5000 jobs. So a
  job is reached only if fewer than 5000 others come before
  it, however many passes are made.

  Main declarations:
    * `getPendingJobs`
    * `reconcilePending`
    * `Stranded` and `Repaired`
    * `repaired_iff_few_precede`
    * `backlog_hides_other_tenant`
-/

------------------------------------------------------------
-- The Reconciler
------------------------------------------------------------

namespace Sluice

namespace Scheduler

open Foundations Storage Queue

/- 30 seconds. -/
def pendingReconcileAge : Time := 30 * second

def pendingReconcileMaxPerPass : Nat := 5000

def pendingReconcileBatchSize : Nat := 500

/- A cursor is a triple `(priority, created_at, id)`. -/
abbrev PendingCursor := Int ×ₗ Int ×ₗ Nat

/-
  The zero value: its time is the first instant of year 1.
-/
def PendingCursor.zero : PendingCursor :=
  toLex (0, toLex (-62135596800 * second, 0))

def pendingKey (j : Job) : PendingCursor :=
  toLex (j.priority, toLex (j.createdAt, j.id))

/- What one query sees: the database, and `time.Now()`. -/
structure View where
  db : Db
  now : Time

/- `WHERE state = 'pending' AND run_at <= ...`. -/
def pendingSince
    (v : View)
    (olderThan : Time) :
    List Job :=
  v.db.jobs.rows.filter
    (fun j =>
      j.state = .pending &&
        decide (j.runAt ≤ v.now - olderThan))

def getPendingJobs
    (v : View)
    (olderThan : Time)
    (after : PendingCursor)
    (limit : Nat) :
    List Job × PendingCursor :=
  let jobs :=
    Paging.page pendingKey (pendingSince v olderThan) after
      limit
  (jobs, Paging.nextCursor pendingKey jobs after)

/- One `Enqueue` for each job. -/
def enqueueAll (jobs : List Job) (r : Redis) : Redis :=
  jobs.foldl
    (fun r j => r.enqueue j.tenantId j.id j.priority) r

/-
  The loop of `reconcilePending`, from its query number `n`
  on.
-/
def reconcileFrom
    (view : Nat → View)
    (n : Nat)
    (cursor : PendingCursor)
    (checked : Nat)
    (r : Redis) :
    Redis :=
  if checked < pendingReconcileMaxPerPass then
    let found :=
      getPendingJobs (view n) pendingReconcileAge cursor
        pendingReconcileBatchSize
    if found.1.length < pendingReconcileBatchSize then
      enqueueAll found.1 r
    else
      reconcileFrom view (n + 1) found.2
        (checked + found.1.length) (enqueueAll found.1 r)
  else r
termination_by pendingReconcileMaxPerPass - checked
decreasing_by
  rename_i hFull
  change ¬found.1.length < 500 at hFull
  change _ - (checked + found.1.length) < _
  omega

def reconcilePending
    (view : Nat → View)
    (r : Redis) :
    Redis :=
  reconcileFrom view 0 .zero 0 r

/-
  Redis after a number of passes that started with empty
  queues. Pass `p` makes its query number `n` on the view
  `views p n`; the markers `expired p` expire before it.
-/
def passes
    (views : Nat → Nat → View)
    (expired : Nat → List Uuid) :
    Nat → Redis
| 0 => Redis.empty
| p + 1 =>
    reconcilePending (views p)
      ((expired p).foldl (fun r id => r.dropMarker id)
        (passes views expired p))

------------------------------------------------------------
-- The Property
------------------------------------------------------------

/- The lane of the job's tenant and priority. -/
def laneOf (j : Job) : Lane where
  bucket := bucketForPriority j.priority
  tenantId := j.tenantId

/-
  Jobs that stay pending and were due long enough before the
  first query. Every stored job has a valid priority.
-/
structure Stranded
    (S : Finset Job)
    (views : Nat → Nat → View) : Prop where
  row : ∀ p n, ∀ s ∈ S,
    (views p n).db.job? s.id = some s
  pending : ∀ s ∈ S, s.state = .pending
  due : ∀ p n, ∀ s ∈ S,
    s.runAt ≤ (views p n).now - pendingReconcileAge
  priority : ∀ p n, ∀ j ∈ (views p n).db.jobs.rows,
    priorityHigh ≤ j.priority

/- Every one of the jobs is in its lane. -/
def Repaired (S : Finset Job) (r : Redis) : Prop :=
  ∀ s ∈ S, s.id ∈ r.lanes (laneOf s)

/-
  The jobs before `s`, in the order of the reconciler, that
  one of the queries of a pass can find.
-/
def jobsBefore
    (view : Nat → View)
    (s : Job) :
    Set Job :=
  Paging.preceding pendingKey
    (fun n => pendingSince (view n) pendingReconcileAge)
    (pendingKey s)

------------------------------------------------------------
-- What A Pass Visits
------------------------------------------------------------

theorem batchSize_pos : 0 < pendingReconcileBatchSize := by
  decide

/- The jobs that a pass queues, from its query `n` on. -/
def visitedFrom
    (view : Nat → View)
    (n : Nat)
    (cursor : PendingCursor)
    (checked : Nat) :
    List Job :=
  Paging.sweep pendingKey pendingReconcileMaxPerPass
    batchSize_pos
    (fun n => pendingSince (view n) pendingReconcileAge) n
    cursor checked

def visited (view : Nat → View) : List Job :=
  visitedFrom view 0 .zero 0

theorem enqueueAll_append
    (jobs jobs' : List Job)
    (r : Redis) :
    enqueueAll (jobs ++ jobs') r =
      enqueueAll jobs' (enqueueAll jobs r) :=
  List.foldl_append

/- The loop is a sweep, with an `Enqueue` for each job. -/
theorem reconcileFrom_eq
    (view : Nat → View)
    (n : Nat)
    (cursor : PendingCursor)
    (checked : Nat)
    (r : Redis) :
    reconcileFrom view n cursor checked r =
      enqueueAll (visitedFrom view n cursor checked) r := by
  fun_induction reconcileFrom view n cursor checked r with
  | case1 n cursor checked r hBelow found hShort =>
      rw [visitedFrom, Paging.sweep_of_short hBelow hShort]
      rfl
  | case2 n cursor checked r hBelow found hFull ih =>
      have hPages :
          visitedFrom view n cursor checked =
            found.1 ++
              visitedFrom view (n + 1) found.2
                (checked + found.1.length) := by
        rw [visitedFrom, Paging.sweep_of_full hBelow]
        · rfl
        · exact hFull
      rw [ih, hPages, enqueueAll_append]
  | case3 n cursor checked r hCap =>
      rw [visitedFrom, Paging.sweep_of_capped hCap]
      rfl

theorem reconcilePending_eq
    (view : Nat → View)
    (r : Redis) :
    reconcilePending view r =
      enqueueAll (visited view) r :=
  reconcileFrom_eq view 0 .zero 0 r

/- Jobs of one view have different keys. -/
theorem pendingKeys_nodup
    (v : View)
    (olderThan : Time) :
    ((pendingSince v olderThan).map pendingKey).Nodup := by
  apply List.Nodup.of_map (fun k => (ofLex (ofLex k).2).2)
  rw [List.map_map]
  exact v.db.jobs.keys_nodup.sublist
    (List.filter_sublist.map Job.id)

section

variable {S : Finset Job}
variable {views : Nat → Nat → View}
variable {s : Job}

theorem Stranded.found
    (hStranded : Stranded S views)
    (hs : s ∈ S)
    (p n : Nat) :
    s ∈ pendingSince (views p n) pendingReconcileAge := by
  have hMem := Table.mem_of_find?
    (hStranded.row p n s hs)
  refine List.mem_filter.mpr ⟨hMem, ?_⟩
  simp [hStranded.pending s hs, hStranded.due p n s hs]

/- The zero cursor is before every job. -/
theorem Stranded.after_zero
    (hStranded : Stranded S views)
    {p n : Nat}
    {j : Job}
    (hj : j ∈
      pendingSince (views p n) pendingReconcileAge) :
    PendingCursor.zero < pendingKey j := by
  have hPriority := hStranded.priority p n j
    (List.mem_of_mem_filter hj)
  refine Prod.Lex.toLex_lt_toLex.mpr (.inl ?_)
  change 0 < j.priority
  unfold priorityHigh at hPriority
  omega

/- A row with the identifier of a stranded job is that job. -/
theorem Stranded.eq_of_id
    (hStranded : Stranded S views)
    (hs : s ∈ S)
    {p : Nat}
    {j : Job}
    (hj : j ∈ visited (views p))
    (hId : j.id = s.id) :
    j = s := by
  rcases (Paging.mem_of_mem_sweep hj).1 with ⟨n, hFound⟩
  have hFind : (views p n).db.job? j.id = some j :=
    Table.find?_of_mem (List.mem_of_mem_filter hFound)
  rw [hId, hStranded.row p n s hs] at hFind
  exact (Option.some.inj hFind).symm

end

------------------------------------------------------------
-- What A Pass Queues
------------------------------------------------------------

section

variable {r : Redis}
variable {s : Job}

/- A job that is marked is in its lane. -/
def MarkedQueued (s : Job) (r : Redis) : Prop :=
  r.marked s.id = true → s.id ∈ r.lanes (laneOf s)

/- Queueing adds jobs to their own lanes only. -/
theorem mem_lanes_enqueueAll
    {jobs : List Job}
    {lane : Lane}
    {id : Uuid}
    (hMem : id ∈ (enqueueAll jobs r).lanes lane) :
    id ∈ r.lanes lane ∨
      ∃ j ∈ jobs, j.id = id ∧ laneOf j = lane := by
  induction jobs generalizing r with
  | nil => exact .inl hMem
  | cons j jobs ih =>
      rcases ih hMem with hOld | ⟨j', hj', hSame⟩
      · rcases Redis.mem_lanes_enqueueScript_iff.mp hOld with
          hBefore | ⟨_, hId, hLane⟩
        · exact .inl hBefore
        · exact .inr ⟨j, List.mem_cons_self, hId.symm,
            hLane.symm⟩
      · exact .inr
          ⟨j', List.mem_cons_of_mem _ hj', hSame⟩

theorem lanes_subset_enqueueAll
    (jobs : List Job)
    {lane : Lane}
    {id : Uuid}
    (hMem : id ∈ r.lanes lane) :
    id ∈ (enqueueAll jobs r).lanes lane := by
  induction jobs generalizing r with
  | nil => exact hMem
  | cons j jobs ih =>
      exact ih
        (Redis.mem_lanes_enqueueScript_iff.mpr (.inl hMem))

/- One `Enqueue` keeps markers and lanes together. -/
theorem MarkedQueued.enqueue
    (hQueued : MarkedQueued s r)
    {j : Job}
    (hOwn : j.id = s.id → j = s) :
    MarkedQueued s
      (r.enqueue j.tenantId j.id j.priority) := by
  intro hMarked
  rw [Redis.enqueue, Redis.marked_enqueueScript] at hMarked
  apply Redis.mem_lanes_enqueueScript_iff.mpr
  cases hOld : r.marked s.id with
  | true => exact .inl (hQueued hOld)
  | false =>
      simp only [hOld, Bool.false_or, decide_eq_true_eq]
        at hMarked
      have hSame := hOwn hMarked.symm
      subst hSame
      exact .inr ⟨hOld, rfl, rfl⟩

theorem MarkedQueued.enqueueAll
    {jobs : List Job}
    (hQueued : MarkedQueued s r)
    (hOwn : ∀ j ∈ jobs, j.id = s.id → j = s) :
    MarkedQueued s (enqueueAll jobs r) := by
  induction jobs generalizing r with
  | nil => exact hQueued
  | cons j jobs ih =>
      exact ih
        (hQueued.enqueue (hOwn j List.mem_cons_self))
        (fun j' hj' =>
          hOwn j' (List.mem_cons_of_mem _ hj'))

/- A job that is queued by a pass ends up in its lane. -/
theorem mem_lane_enqueueAll
    {jobs : List Job}
    (hQueued : MarkedQueued s r)
    (hOwn : ∀ j ∈ jobs, j.id = s.id → j = s)
    (hs : s ∈ jobs) :
    s.id ∈ (enqueueAll jobs r).lanes (laneOf s) := by
  induction jobs generalizing r with
  | nil => cases hs
  | cons j jobs ih =>
      have hKept :=
        hQueued.enqueue (hOwn j List.mem_cons_self)
      have hRest : ∀ j' ∈ jobs, j'.id = s.id → j' = s :=
        fun j' hj' => hOwn j' (List.mem_cons_of_mem _ hj')
      rcases List.mem_cons.mp hs with hFirst | hLater
      · subst hFirst
        have hFirst := hKept
          (by simp [Redis.enqueue, Redis.marked_enqueueScript])
        exact lanes_subset_enqueueAll jobs hFirst
      · exact ih hKept hRest hLater

/- The expiry of markers leaves the lanes. -/
theorem lanes_expired
    (ids : List Uuid)
    (r : Redis) :
    (ids.foldl (fun r id => r.dropMarker id) r).lanes =
      r.lanes := by
  induction ids generalizing r with
  | nil => rfl
  | cons id ids ih => exact ih (r.dropMarker id)

theorem MarkedQueued.expired
    (hQueued : MarkedQueued s r)
    (ids : List Uuid) :
    MarkedQueued s
      (ids.foldl (fun r id => r.dropMarker id) r) := by
  induction ids generalizing r with
  | nil => exact hQueued
  | cons id ids ih =>
      apply ih
      intro hMarked
      apply hQueued
      by_cases hSame : s.id = id
      · subst hSame
        simp [Redis.dropMarker] at hMarked
      · simpa [Redis.dropMarker,
          Function.update_of_ne hSame] using hMarked

end

section

variable {S : Finset Job}
variable {views : Nat → Nat → View}
variable {s : Job}

/- Across a run of passes markers and lanes agree. -/
theorem Stranded.markedQueued
    (hStranded : Stranded S views)
    (hs : s ∈ S)
    (expired : Nat → List Uuid)
    (n : Nat) :
    MarkedQueued s (passes views expired n) := by
  induction n with
  | zero =>
      intro hMarked
      cases hMarked
  | succ p ih =>
      rw [passes, reconcilePending_eq]
      exact (ih.expired _).enqueueAll
        (fun _ hj => hStranded.eq_of_id hs hj)

/- A job is in its lane once a pass has visited it. -/
theorem Stranded.mem_lane_iff
    (hStranded : Stranded S views)
    (hs : s ∈ S)
    (expired : Nat → List Uuid)
    (n : Nat) :
    s.id ∈ (passes views expired n).lanes (laneOf s) ↔
      ∃ p < n, s ∈ visited (views p) := by
  induction n with
  | zero =>
      constructor
      · intro hMem
        cases hMem
      · rintro ⟨p, hp, _⟩
        cases hp
  | succ n ih =>
      rw [passes, reconcilePending_eq]
      constructor
      · intro hMem
        rcases mem_lanes_enqueueAll hMem with
          hOld | ⟨j, hj, hId, _⟩
        · rw [lanes_expired] at hOld
          rcases ih.mp hOld with ⟨p, hp, hVisited⟩
          exact ⟨p, Nat.lt_succ_of_lt hp, hVisited⟩
        · have hSame := hStranded.eq_of_id hs hj hId
          subst hSame
          exact ⟨n, Nat.lt_succ_self n, hj⟩
      · rintro ⟨p, hp, hVisited⟩
        rcases Nat.lt_succ_iff_lt_or_eq.mp hp with
          hEarlier | hLast
        · apply lanes_subset_enqueueAll _
          rw [lanes_expired]
          exact ih.mpr ⟨p, hEarlier, hVisited⟩
        · subst hLast
          exact mem_lane_enqueueAll
            ((hStranded.markedQueued hs expired p).expired _)
            (fun _ hj => hStranded.eq_of_id hs hj) hVisited

/- A pass visits a job that few others come before. -/
theorem Stranded.visited_of_few
    (hStranded : Stranded S views)
    (hs : s ∈ S)
    {p : Nat}
    (hFew :
      (jobsBefore (views p) s).encard <
        pendingReconcileMaxPerPass) :
    s ∈ visited (views p) :=
  Paging.mem_sweep_of_few
    (fun _ => pendingKeys_nodup _ _)
    (fun n => hStranded.found hs p n)
    (hStranded.after_zero (hStranded.found hs p 0)) hFew

/-
  While every query finds the same jobs, a pass visits the
  first 5000 of them and no others.
-/
theorem Stranded.visited_iff
    (hStranded : Stranded S views)
    (hs : s ∈ S)
    (p : Nat)
    (hSame :
      ∀ n j,
        j ∈ pendingSince (views p n) pendingReconcileAge ↔
          j ∈ pendingSince (views p 0)
            pendingReconcileAge) :
    s ∈ visited (views p) ↔
      (jobsBefore (views p) s).encard <
        pendingReconcileMaxPerPass :=
  Paging.mem_sweep_iff
    (fun _ => pendingKeys_nodup _ _) hSame
    (fun _ hj => hStranded.after_zero hj) (by decide)
    (hStranded.found hs p 0)

theorem jobsBefore_congr
    {view view' : Nat → View}
    (hSame :
      ∀ n j,
        j ∈ pendingSince (view n) pendingReconcileAge ↔
          j ∈ pendingSince (view' n) pendingReconcileAge)
    (s : Job) :
    jobsBefore view s = jobsBefore view' s := by
  ext j
  simp only [jobsBefore, Paging.preceding,
    Set.mem_ofPred_eq, hSame]

/-
  A pass that finds fewer than 5000 jobs before a job of the
  set repairs that job. If all queries find the same jobs,
  then enough passes repair the set exactly if fewer than
  5000 of these jobs come before each job of it.
-/
theorem repaired_iff_few_precede
    (hStranded : Stranded S views)
    (expired : Nat → List Uuid)
    {n : Nat}
    (hPasses : S.card ≤ n * pendingReconcileMaxPerPass) :
    ((∀ s ∈ S, ∃ p < n,
        (jobsBefore (views p) s).encard <
          pendingReconcileMaxPerPass) →
        Repaired S (passes views expired n)) ∧
      ((∀ p m j,
          j ∈ pendingSince (views p m)
              pendingReconcileAge ↔
            j ∈ pendingSince (views 0 0)
              pendingReconcileAge) →
        (Repaired S (passes views expired n) ↔
          ∀ s ∈ S,
            (jobsBefore (views 0) s).encard <
              pendingReconcileMaxPerPass)) := by
  refine ⟨?_, ?_⟩
  · intro hFew s hs
    rcases hFew s hs with ⟨p, hp, hBefore⟩
    exact (hStranded.mem_lane_iff hs expired n).mpr
      ⟨p, hp, hStranded.visited_of_few hs hBefore⟩
  · intro hSame
    have hVisited : ∀ s ∈ S, ∀ p,
        s ∈ visited (views p) ↔
          (jobsBefore (views 0) s).encard <
            pendingReconcileMaxPerPass := by
      intro s hs p
      have hBefore :
          jobsBefore (views p) s = jobsBefore (views 0) s :=
        jobsBefore_congr
          (fun m j =>
            (hSame p m j).trans (hSame 0 m j).symm) s
      rw [← hBefore]
      exact hStranded.visited_iff hs p
        (fun m j => (hSame p m j).trans (hSame p 0 j).symm)
    constructor
    · intro hRepaired s hs
      rcases (hStranded.mem_lane_iff hs expired n).mp
        (hRepaired s hs) with ⟨p, _, hSeen⟩
      exact (hVisited s hs p).mp hSeen
    · intro hFew s hs
      have hSome : 0 < S.card := Finset.card_pos.mpr ⟨s, hs⟩
      have hPass : 0 < n := by
        rcases Nat.eq_zero_or_pos n with hZero | hPos
        · subst hZero
          omega
        · exact hPos
      exact (hStranded.mem_lane_iff hs expired n).mpr
        ⟨0, hPass, (hVisited s hs 0).mpr (hFew s hs)⟩

end

------------------------------------------------------------
-- A Sample Backlog
------------------------------------------------------------

namespace Sample

/-
  Jobs of one priority that were created at one time. The
  first 5000 are of one tenant, the others of another.
-/
def job (i : Nat) : Job :=
  { Storage.Sample.job (i + 1) with
    tenantId := if i < 5000 then 1 else 2 }

theorem job_injective : Function.Injective job := by
  intro i k hSame
  have hId := congrArg Job.id hSame
  exact Nat.succ.inj hId

def jobs (n : Nat) : Table Job where
  rows := (List.range n).map job
  keys_nodup := by
    rw [List.map_map]
    refine List.Nodup.map ?_ List.nodup_range
    intro i k hSame
    exact Nat.succ.inj hSame

/- The first `n` jobs, one minute after they were due. -/
def view (n : Nat) : View where
  db := { Storage.Sample.start.db with jobs := jobs n }
  now := 60 * second

def backlog (n : Nat) : Finset Job :=
  (Finset.range n).image job

theorem card_backlog (n : Nat) : (backlog n).card = n := by
  rw [backlog, Finset.card_image_of_injective _
    job_injective, Finset.card_range]

theorem mem_backlog_iff
    {n : Nat}
    {j : Job} :
    j ∈ backlog n ↔ ∃ i < n, job i = j := by
  simp [backlog]

theorem mem_pendingSince_iff
    {n : Nat}
    {j : Job} :
    j ∈ pendingSince (view n) pendingReconcileAge ↔
      ∃ i < n, job i = j := by
  constructor
  · intro hMem
    rcases List.mem_map.mp (List.mem_of_mem_filter hMem) with
      ⟨i, hi, hJob⟩
    exact ⟨i, List.mem_range.mp hi, hJob⟩
  · rintro ⟨i, hi, rfl⟩
    refine List.mem_filter.mpr ⟨?_, ?_⟩
    · exact List.mem_map.mpr ⟨i, List.mem_range.mpr hi, rfl⟩
    · rfl

theorem stranded (n : Nat) :
    Stranded (backlog n) (fun _ _ => view n) := by
  constructor
  · intro _ _ s hs
    rcases mem_backlog_iff.mp hs with ⟨i, hi, rfl⟩
    exact Table.find?_of_mem
      (List.mem_map.mpr ⟨i, List.mem_range.mpr hi, rfl⟩)
  · intro s hs
    rcases mem_backlog_iff.mp hs with ⟨i, _, rfl⟩
    rfl
  · intro _ _ s hs
    rcases mem_backlog_iff.mp hs with ⟨i, _, rfl⟩
    change (0 : Int) ≤ 60 * second - pendingReconcileAge
    decide
  · intro _ _ j hj
    rcases List.mem_map.mp hj with ⟨i, _, rfl⟩
    change priorityHigh ≤ priorityNormal
    decide

/- Earlier jobs come before later ones. -/
theorem encard_jobsBefore
    {i n : Nat}
    (hi : i < n) :
    (jobsBefore (fun _ => view n) (job i)).encard = i := by
  have hJobs :
      jobsBefore (fun _ => view n) (job i) =
        job '' (Finset.range i : Set Nat) := by
    ext j
    simp only [jobsBefore, Paging.preceding,
      Set.mem_ofPred_eq, mem_pendingSince_iff, Set.mem_image,
      Finset.coe_range, Set.mem_Iio]
    constructor
    · rintro ⟨⟨_, k, _, rfl⟩, hLess⟩
      refine ⟨k, ?_, rfl⟩
      simpa [pendingKey, job, Storage.Sample.job,
        Prod.Lex.toLex_lt_toLex] using hLess
    · rintro ⟨k, hk, rfl⟩
      refine ⟨⟨0, k, Nat.lt_trans hk hi, rfl⟩, ?_⟩
      simpa [pendingKey, job, Storage.Sample.job,
        Prod.Lex.toLex_lt_toLex] using hk
  rw [hJobs, job_injective.encard_image,
    Set.encard_coe_eq_coe_finsetCard, Finset.card_range]

end Sample

/- One pass repairs a backlog of 5000 jobs. -/
theorem repaired_full_pass :
    Stranded (Sample.backlog 5000)
        (fun _ _ => Sample.view 5000) ∧
      (Sample.backlog 5000).card ≤
          1 * pendingReconcileMaxPerPass ∧
        Repaired (Sample.backlog 5000)
          (passes (fun _ _ => Sample.view 5000)
            (fun _ => []) 1) := by
  have hCard :
      (Sample.backlog 5000).card ≤
        1 * pendingReconcileMaxPerPass :=
    (Sample.card_backlog 5000).le
  refine ⟨Sample.stranded 5000, hCard, ?_⟩
  apply (repaired_iff_few_precede (Sample.stranded 5000)
    (fun _ => []) hCard).1
  intro s hs
  rcases Sample.mem_backlog_iff.mp hs with ⟨i, hi, rfl⟩
  refine ⟨0, Nat.one_pos, ?_⟩
  rw [Sample.encard_jobsBefore hi]
  exact Nat.cast_lt.mpr hi

/-
  Behind 5000 jobs of one tenant that stay pending, the job
  of another tenant is not queued by any number of passes.
-/
theorem backlog_hides_other_tenant :
    ∃ S views, Stranded S views ∧ S.card = 5001 ∧
      (∃ s ∈ S,
        (∀ j ∈ S, j ≠ s → j.tenantId ≠ s.tenantId) ∧
          ∀ expired n,
            s.id ∉
              (passes views expired n).lanes (laneOf s)) ∧
        ∀ expired n,
          ¬Repaired S (passes views expired n) := by
  have hLast : Sample.job 5000 ∈ Sample.backlog 5001 :=
    Sample.mem_backlog_iff.mpr ⟨5000, by decide, rfl⟩
  have hStranded := Sample.stranded 5001
  have hLost : ∀ expired n,
      (Sample.job 5000).id ∉
        (passes (fun _ _ => Sample.view 5001) expired
          n).lanes (laneOf (Sample.job 5000)) := by
    intro expired n hMem
    rcases (hStranded.mem_lane_iff hLast expired n).mp hMem
      with ⟨p, _, hVisited⟩
    have hFew := (hStranded.visited_iff hLast p
      (fun _ _ => Iff.rfl)).mp hVisited
    rw [Sample.encard_jobsBefore (by decide)] at hFew
    exact lt_irrefl _ hFew
  refine ⟨Sample.backlog 5001, fun _ _ => Sample.view 5001,
    hStranded, Sample.card_backlog 5001,
    ⟨Sample.job 5000, hLast, ?_, hLost⟩, ?_⟩
  · intro j hj hOther
    rcases Sample.mem_backlog_iff.mp hj with ⟨i, hi, rfl⟩
    have hFirst : i < 5000 := by
      rcases Nat.lt_succ_iff_lt_or_eq.mp hi with hLt | hEq
      · exact hLt
      · exact absurd (congrArg Sample.job hEq) hOther
    simp [Sample.job, hFirst]
  · intro expired n hRepaired
    exact hLost expired n (hRepaired _ hLast)

end Scheduler

end Sluice
