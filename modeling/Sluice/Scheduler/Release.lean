import Sluice.Foundations.Batches
import Sluice.Queue.Traffic
import Sluice.Scheduler.Reconcile
import Sluice.Storage.History

/-
  Releasing due jobs: `release`, the two promotions it is
  called with, and `EnqueueMany`.

  A release takes batches until one is short. What it cannot
  know in advance is given by a `Round` for each batch: the
  time at which the statement runs, the rows that others have
  locked, the orders in which Postgres meets and returns
  rows, and the calls that fail.

  Key definitions include:
    * `Promotion`
    * `Round`
    * `promote` and `Redis.enqueueMany`
    * `release`

  Key theorems include:
    * `releaseLoop_drains`
    * `promoted_apart`
    * `release_clears_backlog`
-/

------------------------------------------------------------
-- Promotions
------------------------------------------------------------

namespace Sluice

namespace Storage

open Foundations ReadCommitted

/- `PromoteDueScheduled` and `PromoteReadyFailed`. -/
inductive Promotion
| dueScheduled
| readyFailed
deriving DecidableEq, Repr

namespace Promotion

def call (limit : Nat) : Promotion → Call
| .dueScheduled => .promoteDueScheduled limit
| .readyFailed => .promoteReadyFailed limit

/- The state of the jobs it looks for. -/
def state : Promotion → JobState
| .dueScheduled => .scheduled
| .readyFailed => .failed

/- The row it leaves. -/
def released (start : Time) (j : Job) : Promotion → Job
| .dueScheduled => j.releaseScheduled
| .readyFailed => j.releaseFailed start

/- `WHERE state = ... AND run_at <= NOW()`. -/
def due (p : Promotion) (now : Time) (j : Job) : Bool :=
  j.state = p.state && decide (j.runAt ≤ now)

end Promotion

/- A job the scheduler moved to pending. -/
structure Released where
  id : Uuid
  tenantId : Uuid
  priority : Int
deriving DecidableEq, Repr

/- How a statement that is its own transaction is answered. -/
inductive Reply
| rows
| lost
| unanswered
deriving DecidableEq, Repr

end Storage

namespace Job

/- The columns that a promotion returns of a row. -/
def toReleased (j : Job) : Storage.Released where
  id := j.id
  tenantId := j.tenantId
  priority := j.priority

end Job

namespace Storage

open Foundations ReadCommitted

/- The committed rows after a statement. -/
def Db.afterStatement (db : Db) : Result → Db
| .abort => db
| .proceed writes _ => postgres.performAll db writes

/- The due rows of a promotion. -/
def Db.due
    (db : Db)
    (p : Promotion)
    (now : Time) :
    List Job :=
  db.jobs.rows.filter (p.due now)

end Storage

------------------------------------------------------------
-- Release
------------------------------------------------------------

namespace Queue

/-
  `EnqueueMany`: the scripts of the pipeline, one after the
  other.
-/
def Redis.enqueueMany
    (entries : List Traffic.Entry)
    (r : Redis) :
    Redis :=
  entries.foldl
    (fun r e => r.enqueue e.tenantId e.jobId e.priority) r

end Queue

namespace Storage

/- The entry that `release` makes of a returned row. -/
def Released.entry (j : Released) : Queue.Traffic.Entry where
  jobId := j.id
  tenantId := j.tenantId
  priority := j.priority

end Storage

namespace Scheduler

open Foundations ReadCommitted Storage Queue

def releaseBatchSize : Nat := 1000

def releaseMaxBatches : Nat := 20

/-
  The circumstances of one batch. `scan` is the order in
  which rows are met and `returned` the order in which the
  update returns them. `broken` tells how many scripts of the
  pipeline still ran before its connection failed.
-/
structure Round where
  start : Time
  locked : RowKey → Bool
  scan : Scan
  returned : Scan
  reply : Reply
  broken : Option Nat

/-
  The rows that the update returns, in the order of the last
  `SELECT`. It sorts by the time at which a job was due, not
  by the new `run_at`.
-/
def moved
    (p : Promotion)
    (limit : Nat)
    (t : Round)
    (db : Db) :
    List Job :=
  let rows :=
    (dueJobs p.state limit t.start t.scan t.locked
      db).insertionSort
      (fun a b => t.returned a.id ≤ t.returned b.id)
  rows.insertionSort dueOrder

/- The answer of a promotion, `none` for an error. -/
def promote
    (p : Promotion)
    (limit : Nat)
    (t : Round)
    (db : Db) :
    Option (List Released) × Db :=
  let after :=
    db.afterStatement
      ((p.call limit).statement 0 t.start t.scan t.locked db)
  match t.reply with
  | .rows =>
      (some ((moved p limit t db).map Job.toReleased), after)
  | .lost => (none, db)
  | .unanswered => (none, after)

/- Whether `EnqueueMany` succeeds, and what it leaves. -/
def enqueueMany
    (t : Round)
    (entries : List Traffic.Entry)
    (r : Redis) :
    Bool × Redis :=
  if entries = [] then (true, r)
  else
    match t.broken with
    | none => (true, r.enqueueMany entries)
    | some n => (false, r.enqueueMany (entries.take n))

/- The loop of `release`, with one round for each batch. -/
def releaseLoop
    (p : Promotion) :
    List Round → Db → Redis → Db × Redis
| [], db, r => (db, r)
| t :: rounds, db, r =>
    match promote p releaseBatchSize t db with
    | (none, db') => (db', r)
    | (some jobs, db') =>
        match enqueueMany t (jobs.map Released.entry) r with
        | (false, r') => (db', r')
        | (true, r') =>
            if jobs.length < releaseBatchSize then (db', r')
            else releaseLoop p rounds db' r'

def release
    (p : Promotion)
    (rounds : Nat → Round)
    (db : Db)
    (r : Redis) :
    Db × Redis :=
  releaseLoop p
    ((List.range releaseMaxBatches).map rounds) db r

/-
  Nothing fails, nobody else holds a row, and the clock
  stands at `now`.
-/
structure Round.Calm (now : Time) (t : Round) : Prop where
  start : t.start = now
  locked : ∀ key, t.locked key = false
  reply : t.reply = .rows
  broken : t.broken = none

end Scheduler

namespace Storage

open Foundations ReadCommitted

instance : Std.Total dueOrder where
  total a b := by
    unfold dueOrder
    rcases lt_trichotomy a.priority b.priority with
      hLess | hSame | hMore
    · exact .inl (.inl hLess)
    · rcases le_total a.runAt b.runAt with hLe | hGe
      · exact .inl (.inr ⟨hSame, hLe⟩)
      · exact .inr (.inr ⟨hSame.symm, hGe⟩)
    · exact .inr (.inl hMore)

instance : IsTrans Job dueOrder where
  trans a b c := by
    rintro (hLess | ⟨hSame, hLe⟩) (hLess' | ⟨hSame', hLe'⟩)
    · exact .inl (lt_trans hLess hLess')
    · exact .inl (lt_of_lt_of_eq hLess hSame')
    · exact .inl (lt_of_eq_of_lt hSame hLess')
    · exact .inr
        ⟨hSame.trans hSame', le_trans hLe hLe'⟩

------------------------------------------------------------
-- What A Batch Leaves
------------------------------------------------------------

variable {p : Promotion}
variable {now : Time}
variable {db db' db'' : Db}
variable {f : Job → Job}
variable {batch out : List Job}

namespace Promotion

theorem id_released
    (p : Promotion)
    (now : Time)
    (j : Job) :
    (p.released now j).id = j.id := by
  cases p <;> rfl

theorem state_released
    (p : Promotion)
    (now : Time)
    (j : Job) :
    (p.released now j).state = .pending := by
  cases p <;> rfl

/- A released job is no longer due. -/
theorem due_released
    (p : Promotion)
    (now now' : Time)
    (j : Job) :
    p.due now (p.released now' j) = false := by
  unfold due
  rw [p.state_released]
  cases p <;> rfl

theorem statement_call
    (p : Promotion)
    (limit : Nat)
    (start : Time)
    (scan : Scan)
    (locked : RowKey → Bool)
    (db : Db) :
    (p.call limit).statement 0 start scan locked db =
      promoted
        ((dueJobs p.state limit start scan locked db).map
          (p.released start)) := by
  cases p <;> rfl

end Promotion

/- The rows of `out` were given their new versions. -/
structure Gives
    (f : Job → Job)
    (out : List Job)
    (db db' : Db) :
    Prop where
  rows :
    db'.jobs.rows =
      db.jobs.rows.map (fun j => if j ∈ out then f j else j)
  others : db' = { db with jobs := db'.jobs }

namespace Gives

theorem refl (f : Job → Job) (db : Db) : Gives f [] db db where
  rows := by simp
  others := rfl

theorem trans
    (hFirst : Gives f batch db db')
    (hThen : Gives f out db' db'')
    (hOnce : ∀ j ∈ batch, f j ∉ out) :
    Gives f (batch ++ out) db db'' where
  rows := by
    rw [hThen.rows, hFirst.rows, List.map_map]
    apply List.map_congr_left
    intro j _
    by_cases hBatch : j ∈ batch
    · simp [hBatch, hOnce j hBatch]
    · simp [hBatch]
  others := by
    rw [hThen.others, hFirst.others]

/- A batch does not depend on the order of its rows. -/
theorem perm
    (hGives : Gives f batch db db')
    (hPerm : batch.Perm out) :
    Gives f out db db' where
  rows := by
    rw [hGives.rows]
    apply List.map_congr_left
    intro j _
    simp only [hPerm.mem_iff]
  others := hGives.others

/- What is due after the rows of `out` were released. -/
theorem due_eq
    (hGives : Gives (p.released now) out db db') :
    db'.due p now =
      (db.due p now).filter (fun j => decide (j ∉ out)) := by
  unfold Db.due
  rw [hGives.rows]
  induction db.jobs.rows with
  | nil => rfl
  | cons j rows ih =>
      rw [List.map_cons, List.filter_cons, List.filter_cons,
        ih]
      by_cases hOut : j ∈ out
      · rw [if_pos hOut, p.due_released]
        by_cases hDue : p.due now j = true
        · simp [hDue, hOut]
        · simp [hDue]
      · rw [if_neg hOut]
        by_cases hDue : p.due now j = true
        · simp [hDue, hOut]
        · simp [hDue]

/- One job after the rows of `out` were given new versions. -/
theorem job?_eq
    (hGives : Gives f out db db')
    (hId : ∀ j, (f j).id = j.id)
    (id : Uuid) :
    db'.job? id =
      (db.job? id).map
        (fun j => if j ∈ out then f j else j) := by
  have hSame :
      ∀ j, (if j ∈ out then f j else j).id = j.id := by
    intro j
    split
    · exact hId j
    · rfl
  unfold Db.job? Table.find?
  rw [hGives.rows, List.find?_map]
  congr 2
  funext j
  simp only [Function.comp_apply]
  exact congrArg (fun k => decide (k = id)) (hSame j)

end Gives

/- The updates of one statement. -/
theorem performAll_updates
    (db : Db)
    (f : Job → Job)
    (batch : List Job) :
    postgres.performAll db
        ((batch.map f).map Write.updateJob) =
      { db with
        jobs :=
          batch.foldl (fun t j => t.put (f j)) db.jobs } := by
  induction batch generalizing db with
  | nil => rfl
  | cons j batch ih =>
      simp only [List.map_cons, Engine.performAll_cons,
        List.foldl_cons]
      exact ih (postgres.perform db (.updateJob (f j)))

theorem gives_updates
    (hId : ∀ j, (f j).id = j.id)
    (hRows : ∀ j ∈ batch, j ∈ db.jobs.rows)
    (hNodup : batch.Nodup) :
    Gives f batch db
      (postgres.performAll db
        ((batch.map f).map Write.updateJob)) := by
  have hKeys : (batch.map Keyed.key).Nodup := by
    refine hNodup.map_on ?_
    intro a ha b hb hKey
    exact db.jobs.eq_of_key_eq (hRows a ha) (hRows b hb) hKey
  constructor
  · rw [performAll_updates]
    exact db.jobs.rows_foldl_put f hId hRows hKeys
  · rw [performAll_updates]

end Storage

------------------------------------------------------------
-- Rounds
------------------------------------------------------------

namespace Scheduler

open Foundations ReadCommitted Storage Queue

variable {p : Promotion}
variable {now : Time}
variable {t : Round}

/- The due rows in the order in which a scan meets them. -/
theorem scanned_due_perm
    (p : Promotion)
    (hCalm : t.Calm now)
    (db : Db) :
    ((scanJobs t.scan db).filter
      (fun j =>
        j.state = p.state && decide (j.runAt ≤ t.start) &&
          !t.locked (.job j.id))).Perm (db.due p now) := by
  have hGuard :
      (fun j : Job =>
        j.state = p.state && decide (j.runAt ≤ t.start) &&
          !t.locked (.job j.id)) = p.due now := by
    funext j
    simp [Promotion.due, hCalm.start, hCalm.locked]
  rw [hGuard]
  exact (List.perm_insertionSort _ db.jobs.rows).filter _

/-
  A calm round takes the first due jobs, returns them in
  order and leaves the other due jobs as they are.
-/
theorem promote_calm
    (p : Promotion)
    (limit : Nat)
    (hCalm : t.Calm now)
    (db : Db) :
    ∃ batch db',
      promote p limit t db =
          (some (batch.map Job.toReleased), db') ∧
        FirstBatch dueOrder limit (db.due p now) batch
            (db'.due p now) ∧
          Gives (p.released now) batch db db' := by
  have hScanned := scanned_due_perm p hCalm db
  have hRowsNodup : db.jobs.rows.Nodup :=
    List.Nodup.of_map _ db.jobs.keys_nodup
  have hNodup : (db.due p now).Nodup := hRowsNodup.filter _
  have hMoved :
      (moved p limit t db).Perm
        (dueJobs p.state limit t.start t.scan t.locked db) :=
    (List.perm_insertionSort _ _).trans
      (List.perm_insertionSort _ _)
  have hFirst :
      FirstBatch dueOrder limit (db.due p now)
        (moved p limit t db)
        ((db.due p now).filter
          (fun j => decide (j ∉ moved p limit t db))) :=
    (FirstBatch.of_sort
      (List.perm_insertionSort _ _)).rest_filter hScanned
        hNodup
  have hBatchNodup :
      (dueJobs p.state limit t.start t.scan t.locked
        db).Nodup := by
    have hParts := hFirst.perm.nodup_iff.mpr hNodup
    exact hMoved.nodup_iff.mp (List.nodup_append.mp hParts).1
  have hGives :
      Gives (p.released now) (moved p limit t db) db
        (postgres.performAll db
          (((dueJobs p.state limit t.start t.scan t.locked
            db).map (p.released now)).map
              Write.updateJob)) := by
    refine (gives_updates (p.id_released now) ?_
      hBatchNodup).perm hMoved.symm
    intro j hj
    exact Table.mem_of_find? (mem_dueJobs hj).1
  refine ⟨moved p limit t db, _, ?_, ?_, hGives⟩
  · simp only [promote, hCalm.reply, Promotion.statement_call,
      promoted, Db.afterStatement, hCalm.start]
  · rw [hGives.due_eq]
    exact hFirst

theorem enqueueMany_calm
    (hCalm : t.Calm now)
    (entries : List Traffic.Entry)
    (r : Redis) :
    enqueueMany t entries r =
      (true, r.enqueueMany entries) := by
  unfold enqueueMany
  split
  · rename_i hNone
    subst hNone
    rfl
  · rw [hCalm.broken]

/-
  A calm release takes batches of due jobs, gives the taken
  rows their new versions, and enqueues them in the order in
  which they were taken.
-/
theorem releaseLoop_drains
    (p : Promotion)
    {rounds : List Round}
    (hCalm : ∀ t ∈ rounds, t.Calm now)
    (db : Db)
    (r : Redis) :
    ∃ out db',
      releaseLoop p rounds db r =
          (db',
            r.enqueueMany
              (out.map (fun j => j.toReleased.entry))) ∧
        Drained dueOrder releaseBatchSize rounds.length
            (db.due p now) out (db'.due p now) ∧
          Gives (p.released now) out db db' := by
  induction rounds generalizing db r with
  | nil => exact ⟨[], db, rfl, .stopped, Gives.refl _ _⟩
  | cons t rounds ih =>
      have hRound := hCalm t List.mem_cons_self
      rcases promote_calm p releaseBatchSize hRound db with
        ⟨batch, db', hPromote, hFirst, hGives⟩
      have hLoop :
          releaseLoop p (t :: rounds) db r =
            if batch.length < releaseBatchSize then
              (db',
                r.enqueueMany
                  (batch.map (fun j => j.toReleased.entry)))
            else
              releaseLoop p rounds db'
                (r.enqueueMany
                  (batch.map
                    (fun j => j.toReleased.entry))) := by
        simp only [releaseLoop, hPromote,
          enqueueMany_calm hRound, List.length_map,
          List.map_map]
        rfl
      by_cases hShort : batch.length < releaseBatchSize
      · rw [hLoop, if_pos hShort]
        exact ⟨batch, db', rfl, .last hFirst hShort, hGives⟩
      · rw [hLoop, if_neg hShort]
        rcases ih
            (fun t ht => hCalm t (List.mem_cons_of_mem _ ht))
            db' (r.enqueueMany
              (batch.map (fun j => j.toReleased.entry))) with
          ⟨out, db'', hRest, hDrained, hGives'⟩
        refine ⟨batch ++ out, db'', ?_,
          .more hFirst hShort hDrained, ?_⟩
        · rw [hRest]
          simp only [Redis.enqueueMany, List.map_append,
            List.foldl_append]
        · -- A released row is not due, so it is not taken again.
          refine hGives.trans hGives' ?_
          intro j _ hAgain
          have hDue := List.mem_filter.mp
            (hDrained.subset hAgain)
          rw [p.due_released] at hDue
          exact Bool.false_ne_true hDue.2

end Scheduler

------------------------------------------------------------
-- Entries In Their Lanes
------------------------------------------------------------

namespace Queue

namespace Redis

variable {r : Redis}

/- An unmarked job is pushed to its lane. -/
theorem lanes_enqueue_of_unmarked
    {e : Traffic.Entry}
    (hFree : r.marked e.jobId = false)
    (lane : Lane) :
    (r.enqueue e.tenantId e.jobId e.priority).lanes lane =
      if ⟨bucketForPriority e.priority, e.tenantId⟩ = lane
      then e.jobId :: r.lanes lane
      else r.lanes lane := by
  unfold enqueue enqueueScript
  rw [if_neg (by simp [hFree])]
  split
  · rename_i hLane
    subst hLane
    exact Function.update_self _ _ _
  · rename_i hLane
    exact Function.update_of_ne (Ne.symm hLane) _ _

/-
  Entries of distinct, unmarked jobs are pushed to their
  lanes one by one, the first of them deepest.
-/
theorem lanes_enqueueMany
    {entries : List Traffic.Entry}
    (hNodup : (entries.map Traffic.Entry.jobId).Nodup)
    (hFree : ∀ e ∈ entries, r.marked e.jobId = false)
    (lane : Lane) :
    (r.enqueueMany entries).lanes lane =
      ((entries.filter
          (fun e =>
            (⟨bucketForPriority e.priority, e.tenantId⟩ :
              Lane) = lane)).map
          Traffic.Entry.jobId).reverse ++
        r.lanes lane := by
  induction entries generalizing r with
  | nil => rfl
  | cons e entries ih =>
      rcases List.nodup_cons.mp hNodup with ⟨hNew, hRest⟩
      have hStill :
          ∀ e' ∈ entries,
            (r.enqueue e.tenantId e.jobId e.priority).marked
              e'.jobId = false := by
        intro e' he'
        have hOther : e'.jobId ≠ e.jobId :=
          fun hEq => hNew (List.mem_map.mpr ⟨e', he', hEq⟩)
        unfold enqueue
        rw [marked_enqueueScript,
          hFree e' (List.mem_cons_of_mem _ he')]
        simp [hOther]
      have hPush := lanes_enqueue_of_unmarked
        (hFree e List.mem_cons_self) lane
      have hTail := ih hRest hStill
      unfold enqueueMany at hTail ⊢
      rw [List.foldl_cons, hTail, hPush, List.filter_cons]
      by_cases hLane :
          (⟨bucketForPriority e.priority, e.tenantId⟩ :
            Lane) = lane
      · simp [hLane]
      · simp [hLane]

/- The jobs that a worker gets from one lane. -/
def pops
    (workerId : String)
    (lane : Lane) :
    Nat → Redis → List Uuid
| 0, _ => []
| n + 1, r =>
    match r.popScript workerId [lane] with
    | none => []
    | some (item, r') => item.jobId :: pops workerId lane n r'

/- A lane is emptied from its end. -/
theorem pops_eq
    (workerId : String)
    (lane : Lane)
    (n : Nat)
    (r : Redis) :
    r.pops workerId lane n =
      (r.lanes lane).reverse.take n := by
  induction n generalizing r with
  | zero => rfl
  | succ n ih =>
      rcases List.eq_nil_or_concat (r.lanes lane) with
        hEmpty | ⟨others, jobId, hLane⟩
      · simp [pops, popScript, hEmpty]
      · have hPop :
            r.popScript workerId [lane] =
              some (⟨jobId, lane⟩,
                r.deliver ⟨jobId, lane⟩ workerId) := by
          simp [popScript, hLane]
        have hRest :
            (r.deliver ⟨jobId, lane⟩ workerId).lanes lane =
              others := by
          simp [deliver, hLane]
        simp only [pops, hPop, ih, hRest, hLane]
        simp

end Redis

end Queue

------------------------------------------------------------
-- Promotions Of One Job
------------------------------------------------------------

namespace Storage

open Foundations ReadCommitted

variable {init : Db → Prop}
variable {ok : Sys → Step → Prop}
variable {s : Sys}
variable {id : Uuid}

/- The states from which a job is promoted. -/
def awaitsRelease : JobState → Bool
| .scheduled => true
| .failed => true
| _ => false

/- The job exists, and no promotion looks for it. -/
def Settled (id : Uuid) (db : Db) : Prop :=
  ∃ j, db.job? id = some j ∧ awaitsRelease j.state = false

/- Only a failure makes a job wait for a release again. -/
theorem Call.fails_of_awaitsRelease
    {call : Call}
    {start : Time}
    {old new : Job}
    (hChange : call.changes start old new)
    (hOld : awaitsRelease old.state = false) :
    awaitsRelease new.state = false ∨
      ∃ runId token errMsg nextRunAt now,
        call =
          .failJob old.id runId token errMsg nextRunAt
            now := by
  cases call <;> simp only [Call.changes] at hChange
  case tryClaim | tryClaimLimited | promoteDueScheduled |
      promoteReadyFailed | forceFail =>
    rw [hChange.2.2]
    exact .inl rfl
  case completeJob | cancelJob | replayJob =>
    rw [hChange.2.2.2]
    exact .inl rfl
  case extendDeadline =>
    rw [hChange.2.2.2]
    exact .inl hOld
  case failJob jobId runId token errMsg nextRunAt now =>
    rw [hChange.1]
    exact .inr ⟨runId, token, errMsg, nextRunAt, now, rfl⟩
  case requeueStaleJob =>
    rw [hChange.2.2]
    unfold Job.requeue
    left
    split <;> rfl

/- The commit of a promotion that moved the job. -/
def Promotes (c : Entry) (id : Uuid) : Prop :=
  (∃ (p : Promotion) (limit : Nat), c.call = p.call limit) ∧
    c.after.job? id ≠ c.before.job? id

/- The commit of a failure of the job. -/
def Fails (c : Entry) (id : Uuid) : Prop :=
  ∃ runId token errMsg nextRunAt now,
    c.call = .failJob id runId token errMsg nextRunAt now

/- A promotion finds its job waiting and leaves it pending. -/
theorem promoted_job
    {c : Entry}
    (hMoves : Moves c id)
    (hPromotes : Promotes c id) :
    ¬Settled id c.before ∧ Settled id c.after := by
  rcases hPromotes with ⟨⟨p, limit, hCall⟩, hMoved⟩
  cases hMoves with
  | kept hSame => exact absurd hSame hMoved
  | inserted j hInsert _ _ =>
      rw [hCall] at hInsert
      cases p <;> cases hInsert
  | changed old new hOld hNew hChange =>
      rw [hCall] at hChange
      have hStates :
          awaitsRelease old.state = true ∧
            awaitsRelease new.state = false := by
        cases p <;>
        · rcases hChange with ⟨hDue, _, hRow⟩
          rw [hRow, hDue]
          exact ⟨rfl, rfl⟩
      constructor
      · rintro ⟨j, hJob, hNever⟩
        rw [hOld] at hJob
        cases hJob
        rw [hStates.1] at hNever
        cases hNever
      · exact ⟨new, hNew, hStates.2⟩

/- A settled job stays so until it fails. -/
theorem settled_or_fails
    {c : Entry}
    (hMoves : Moves c id)
    (hSettled : Settled id c.before) :
    Settled id c.after ∨ Fails c id := by
  rcases hSettled with ⟨j, hJob, hState⟩
  cases hMoves with
  | kept hSame =>
      rw [← hSame] at hJob
      exact .inl ⟨j, hJob, hState⟩
  | inserted _ _ hNone _ =>
      rw [hJob] at hNone
      cases hNone
  | changed old new hOld hNew hChange =>
      rw [hOld] at hJob
      cases hJob
      rcases Call.fails_of_awaitsRelease hChange hState with
        hKept | hFails
      · exact .inl ⟨new, hNew, hKept⟩
      · rw [Db.id_of_job? hOld] at hFails
        exact .inr hFails

/-
  What holds of the commits so far. After a promotion the job
  is settled, until it fails; between two promotions of it,
  newest first, it has failed.
-/
structure PromotedApart
    (id : Uuid)
    (db : Db)
    (history : List Entry) :
    Prop where
  since :
    ∀ newer c older, history = newer ++ c :: older →
      Promotes c id →
        Settled id db ∨ ∃ m ∈ newer, Fails m id
  between :
    ∀ newer c mid c' older,
      history = newer ++ c :: (mid ++ c' :: older) →
        Promotes c id → Promotes c' id →
          ∃ m ∈ mid, Fails m id

theorem PromotedApart.commit
    {c : Entry}
    {history : List Entry}
    (hInv : PromotedApart id c.before history)
    (hMoves : Moves c id) :
    PromotedApart id c.after (c :: history) where
  since := by
    intro newer c₁ older hSplit hPromotes
    cases newer with
    | nil =>
        rw [List.nil_append, List.cons.injEq] at hSplit
        rw [← hSplit.1] at hPromotes
        exact .inl (promoted_job hMoves hPromotes).2
    | cons c₂ newer =>
        rw [List.cons_append, List.cons.injEq] at hSplit
        rcases hSplit with ⟨hHead, hTail⟩
        subst hHead
        rcases hInv.since newer c₁ older hTail hPromotes with
          hSettled | ⟨m, hm, hFails⟩
        · rcases settled_or_fails hMoves hSettled with
            hStill | hFails
          · exact .inl hStill
          · exact .inr ⟨c, List.mem_cons_self, hFails⟩
        · exact .inr
            ⟨m, List.mem_cons_of_mem _ hm, hFails⟩
  between := by
    intro newer c₁ mid c₂ older hSplit hNew hOld
    cases newer with
    | nil =>
        rw [List.nil_append, List.cons.injEq] at hSplit
        rcases hSplit with ⟨hHead, hTail⟩
        subst hHead
        rcases hInv.since mid c₂ older hTail hOld with
          hSettled | hFailed
        · exact absurd hSettled
            (promoted_job hMoves hNew).1
        · exact hFailed
    | cons c₃ newer =>
        rw [List.cons_append, List.cons.injEq] at hSplit
        exact hInv.between newer c₁ mid c₂ older hSplit.2
          hNew hOld

/- Two promotions of a job are separated by a failure of it. -/
theorem promoted_apart
    (hReach : (postgres.machine init).ReachableWith ok s)
    (id : Uuid) :
    PromotedApart id s.db s.history := by
  refine Engine.commits_invariant
    (I := PromotedApart id) ?_ ?_ hReach
  · intro db _
    constructor
    · intro newer c older hSplit
      cases newer <;> cases hSplit
    · intro newer c mid c' older hSplit
      cases newer <;> cases hSplit
  · intro s l₁ e l₂ hPrev hInv _ hSplit _
    have hSound := sessions_sound_from hPrev e
      (self_mem_of_split hSplit)
    exact PromotedApart.commit (c := postgres.entry s.db e)
      hInv (moves_committed hSound id)

/- Only schedulers use the database, to release jobs. -/
def onlyReleases (_ : Sys) : Step → Prop
| .begin call =>
    ∃ (p : Promotion) (limit : Nat), call = p.call limit
| _ => True

theorem calls_of_onlyReleases
    (hReach :
      (postgres.machine init).ReachableWith onlyReleases s) :
    ∀ call ∈ s.calls,
      ∃ (p : Promotion) (limit : Nat),
        call = p.call limit := by
  refine Machine.ReachableWith.invariant
    (I := fun s : Sys =>
      ∀ call ∈ s.calls,
        ∃ (p : Promotion) (limit : Nat),
          call = p.call limit) ?_ ?_ hReach
  · rintro s ⟨db, clock, _, rfl⟩ call hCall
    cases hCall
  · intro s label s' _ hInv hOk hStep
    rcases Engine.step_calls hStep with
      hSame | ⟨call, hLabel, hCalls⟩
    · rw [hSame]
      exact hInv
    · subst hLabel
      rw [hCalls]
      intro call' hMem
      rcases List.mem_cons.mp hMem with hNew | hOld
      · rw [hNew]
        exact hOk
      · exact hInv call' hOld

/- By schedulers alone, no job is promoted twice. -/
theorem promoted_once
    (hReach :
      (postgres.machine init).ReachableWith onlyReleases s) :
    s.history.Pairwise
      (fun c c' =>
        ∀ id, Promotes c id → ¬Promotes c' id) := by
  have hCalls :
      ∀ c ∈ s.history,
        ∃ (p : Promotion) (limit : Nat),
          c.call = p.call limit :=
    fun c hc => calls_of_onlyReleases hReach c.call
      ((Engine.booked hReach).history c hc).1
  refine List.pairwise_iff_forall_sublist.mpr ?_
  intro c c' hPair id hNew hOld
  rcases List.cons_sublist_iff.mp hPair with
    ⟨l₁, l₂, hSplit, hIn, hIn'⟩
  rcases List.append_of_mem hIn with ⟨newer, mid, hMid⟩
  rcases List.append_of_mem
      (List.singleton_sublist.mp hIn') with
    ⟨mid', older, hOlder⟩
  have hParts :
      s.history =
        newer ++ c :: ((mid ++ mid') ++ c' :: older) := by
    rw [hSplit, hMid, hOlder]
    simp
  rcases (promoted_apart hReach id).between newer c _ c'
      older hParts hNew hOld with
    ⟨m, hm, _, _, _, _, _, hFails⟩
  -- No scheduler ever reports a failure.
  have hMem : m ∈ s.history := by
    rw [hParts]
    exact List.mem_append_right _
      (List.mem_cons_of_mem _ (List.mem_append_left _ hm))
  rcases hCalls m hMem with ⟨p, limit, hCall⟩
  rw [hCall] at hFails
  cases p <;> cases hFails

end Storage

------------------------------------------------------------
-- The Whole Backlog
------------------------------------------------------------

namespace Scheduler

open Foundations ReadCommitted Storage Queue

/- The entries of one lane, of jobs taken in some order. -/
theorem entries_of_lane
    (js : List Job)
    (lane : Lane) :
    ((js.map (fun j => j.toReleased.entry)).filter
        (fun e =>
          (⟨bucketForPriority e.priority, e.tenantId⟩ :
            Lane) = lane)).map Traffic.Entry.jobId =
      (js.filter (fun j => laneOf j = lane)).map
        Job.id := by
  rw [List.filter_map, List.map_map]
  rfl

/-
  A calm release whose batches suffice takes all due jobs, in
  order.
-/
theorem release_drains
    (p : Promotion)
    {rounds : Nat → Round}
    {now : Time}
    {db : Db}
    (r : Redis)
    (hCalm : ∀ i, (rounds i).Calm now)
    (hFits :
      (db.due p now).length ≤
        releaseBatchSize * releaseMaxBatches) :
    ∃ out db',
      release p rounds db r =
          (db',
            r.enqueueMany
              (out.map (fun j => j.toReleased.entry))) ∧
        out.Perm (db.due p now) ∧ out.Pairwise dueOrder ∧
          Gives (p.released now) out db db' := by
  have hRounds :
      ∀ t ∈ (List.range releaseMaxBatches).map rounds,
        t.Calm now := by
    intro t ht
    rcases List.mem_map.mp ht with ⟨i, _, rfl⟩
    exact hCalm i
  rcases releaseLoop_drains p hRounds db r with
    ⟨out, db', hRelease, hDrained, hGives⟩
  rw [List.length_map, List.length_range] at hDrained
  rcases hDrained.complete hFits with ⟨_, hPerm, hSorted⟩
  exact ⟨out, db', hRelease, hPerm, hSorted, hGives⟩

/- A row that is among the due ones gets its new version. -/
theorem released_iff_due
    {p : Promotion}
    {now : Time}
    {db : Db}
    {out : List Job}
    (hPerm : out.Perm (db.due p now))
    {j : Job}
    (hRow : j ∈ db.jobs.rows) :
    (if j ∈ out then p.released now j else j) =
      if p.due now j then p.released now j else j := by
  have hIff : j ∈ out ↔ p.due now j = true := by
    rw [hPerm.mem_iff, Db.due, List.mem_filter]
    exact and_iff_right hRow
  simp only [hIff]

/- Jobs without a marker all reach their lanes. -/
theorem lanes_released
    {p : Promotion}
    {now : Time}
    {db : Db}
    {r : Redis}
    {out : List Job}
    (hPerm : out.Perm (db.due p now))
    (hFree : ∀ j ∈ db.due p now, r.marked j.id = false)
    (lane : Lane) :
    (r.enqueueMany
        (out.map (fun j => j.toReleased.entry))).lanes lane =
      ((out.filter (fun j => laneOf j = lane)).map
        Job.id).reverse ++ r.lanes lane := by
  have hIds : (out.map Job.id).Nodup := by
    refine ((hPerm.map Job.id).nodup_iff).mpr ?_
    exact db.jobs.keys_nodup.sublist
      (List.filter_sublist.map Job.id)
  rw [← entries_of_lane]
  refine Redis.lanes_enqueueMany ?_ ?_ lane
  · rw [List.map_map]
    exact hIds
  · intro e he
    rcases List.mem_map.mp he with ⟨j, hj, rfl⟩
    exact hFree j (hPerm.subset hj)

/-
  One release of at most twenty batches of due jobs moves
  exactly these and enqueues each of them once, so that every
  lane yields them in order. Two promotions of one job, by
  whatever schedulers, are separated by a failure of the job;
  where only schedulers are at work, there are none.
-/
theorem release_clears_backlog
    (p : Promotion)
    (rounds : Nat → Round)
    (now : Time)
    (db : Db)
    (r : Redis)
    (hCalm : ∀ i, (rounds i).Calm now)
    (hFits :
      (db.due p now).length ≤
        releaseBatchSize * releaseMaxBatches)
    (hFree : ∀ j ∈ db.due p now, r.marked j.id = false) :
    (∀ id,
      (release p rounds db r).1.job? id =
        (db.job? id).map
          (fun j =>
            if p.due now j then p.released now j else j)) ∧
      (∀ j ∈ db.due p now, ∃ j',
        (release p rounds db r).1.job? j.id = some j' ∧
          j'.state = .pending) ∧
      (release p rounds db r).1 =
        { db with jobs := (release p rounds db r).1.jobs } ∧
      (∀ lane, ∃ js : List Job,
        js.Perm
            ((db.due p now).filter
              (fun j => laneOf j = lane)) ∧
          js.Pairwise dueOrder ∧
          (release p rounds db r).2.lanes lane =
            (js.map Job.id).reverse ++ r.lanes lane ∧
          ∀ workerId,
            (release p rounds db r).2.pops workerId lane
                ((release p rounds db r).2.lanes lane).length =
              (r.lanes lane).reverse ++ js.map Job.id) ∧
      (∀ init ok s id newer c mid c' older,
        (postgres.machine init).ReachableWith ok s →
          s.history = newer ++ c :: (mid ++ c' :: older) →
            Promotes c id → Promotes c' id →
              ∃ m ∈ mid, Fails m id) ∧
      ∀ init s,
        (postgres.machine init).ReachableWith onlyReleases s →
          s.history.Pairwise
            (fun c c' =>
              ∀ id, Promotes c id → ¬Promotes c' id) := by
  rcases release_drains p r hCalm hFits with
    ⟨out, db', hRelease, hPerm, hSorted, hGives⟩
  have hLanes := lanes_released hPerm hFree
  rw [hRelease]
  refine ⟨?_, ?_, hGives.others, ?_, ?_, ?_⟩
  · intro id
    rw [hGives.job?_eq (p.id_released now)]
    cases hJob : db.job? id with
    | none => rfl
    | some j =>
        simp only [Option.map_some]
        rw [released_iff_due hPerm (Table.mem_of_find? hJob)]
  · intro j hDue
    have hRow : db.job? j.id = some j :=
      Table.find?_of_mem (List.mem_of_mem_filter hDue)
    refine ⟨p.released now j, ?_, p.state_released now j⟩
    rw [hGives.job?_eq (p.id_released now), hRow,
      Option.map_some, if_pos (hPerm.mem_iff.mpr hDue)]
  · intro lane
    refine ⟨out.filter (fun j => laneOf j = lane),
      hPerm.filter _, hSorted.filter _, hLanes lane, ?_⟩
    intro workerId
    rw [Redis.pops_eq, ← List.length_reverse,
      List.take_length, hLanes lane, List.reverse_append,
      List.reverse_reverse]
  · intro init ok s id newer c mid c' older hReach
    exact (promoted_apart hReach id).between newer c mid c'
      older
  · intro init s hReach
    exact promoted_once hReach

namespace Sample

/- Two scheduled jobs that are due at time 20, and one later. -/
def scheduledJobs : Db :=
  let job (id : Uuid) (runAt : Time) : Job :=
    { Storage.Sample.job id with
      state := .scheduled
      runAt := runAt }
  { Storage.Sample.start.db with
    jobs :=
      ((Table.empty.insert (job 1 10)).insert
        (job 2 5)).insert (job 3 30) }

def round (_ : Nat) : Round where
  start := 20
  locked := fun _ => false
  scan := fun id => id
  returned := fun id => id
  reply := .rows
  broken := none

end Sample

theorem release_clears_backlog_of_two :
    (Sample.scheduledJobs.due .dueScheduled 20).map Job.id =
        [1, 2] ∧
      ∃ js : List Job,
        js.Perm
            ((Sample.scheduledJobs.due .dueScheduled 20).filter
              (fun j => laneOf j = ⟨.normal, 1⟩)) ∧
          js.Pairwise dueOrder ∧
          (release .dueScheduled Sample.round Sample.scheduledJobs
              Redis.empty).2.lanes ⟨.normal, 1⟩ =
            (js.map Job.id).reverse ++ [] := by
  refine ⟨by decide, ?_⟩
  rcases (release_clears_backlog .dueScheduled Sample.round 20
      Sample.scheduledJobs Redis.empty
      (fun _ => ⟨rfl, fun _ => rfl, rfl, rfl⟩) (by decide)
      (fun _ _ => rfl)).2.2.2.1 ⟨.normal, 1⟩ with
    ⟨js, hPerm, hSorted, hLane, _⟩
  exact ⟨js, hPerm, hSorted, hLane⟩

end Scheduler

end Sluice
