import Sluice.Foundations.Batches
import Sluice.Foundations.Selection
import Sluice.Storage.Retention

/-
  The loops of the scheduler that work through a backlog in
  batches: `promoteDeadJobs`, and the two prunes of
  `enforceRetention`.

  No statement of these loops has an order, so each batch is
  any choice of the rows that match. A loop ends with the
  first batch that affects fewer rows than its size. Nobody
  else writes meanwhile, and no statement fails.

  Key definitions include:
    * `moveRound` and `promoteDeadJobs`
    * `enforceRetention`
    * `Promoted` and `Pruned`

  Key theorems include:
    * `promoteDeadJobs_drains`
    * `pruneFinishedJobs_drains`
    * `pruneDeadLetter_drains`
    * `batch_loops_drain`
    * `drains_keep_stale_entry`
-/

------------------------------------------------------------
-- The Loops
------------------------------------------------------------

namespace Sluice

namespace Scheduler

open Foundations Storage

def deadLetterBatchSize : Nat := 500

def retentionBatchSize : Nat := 1000

/- `MoveToDeadLetter`, and the number of rows inserted. -/
def moveRound
    (start : Time)
    (scan : Scan)
    (db : Db) :
    Db × Nat :=
  match
    db.apply
      (moveToDeadLetter deadLetterBatchSize start scan db)
  with
  | none => (db, 0)
  | some db' =>
      (db',
        db'.deadLetter.rows.length -
          db.deadLetter.rows.length)

/-
  `starts` and `scans` give the time of each statement and
  the order in which it meets the rows.
-/
def promoteDeadJobs
    (starts : Nat → Time)
    (scans : Nat → Scan)
    (fuel : Nat)
    (db : Db) :
    Option Db :=
  drain (fun k => moveRound (starts k) (scans k))
    deadLetterBatchSize fuel 0 db

/- Up to the partitions, which are dropped afterwards. -/
def enforceRetention
    (cutoff : Time)
    (scans scans' : Nat → Scan)
    (fuel : Nat)
    (db : Db) :
    Option Db := do
  let db ←
    drain
      (fun k =>
        pruneFinishedJobs cutoff retentionBatchSize
          (scans k))
      retentionBatchSize fuel 0 db
  drain
    (fun k =>
      pruneDeadLetter cutoff retentionBatchSize (scans' k))
    retentionBatchSize fuel 0 db

------------------------------------------------------------
-- What They Leave
------------------------------------------------------------

/-
  Every dead job has one entry: the one that it had, or one
  taken from its row. Nothing else is new.
-/
structure Promoted
    (starts : Nat → Time)
    (db db' : Db) :
    Prop where
  jobs : db'.jobs = db.jobs
  jobRuns : db'.jobRuns = db.jobRuns
  schedules : db'.schedules = db.schedules
  tenants : db'.tenants = db.tenants
  kept : ∀ d ∈ db.deadLetter.rows, d ∈ db'.deadLetter.rows
  added : ∀ d ∈ db'.deadLetter.rows,
    d ∈ db.deadLetter.rows ∨
      ∃ j ∈ db.jobs.rows, j.state = .dead ∧
        db.deadLetter? j.id = none ∧
          ∃ k, d = deadLetterOf j (starts k)
  dead : ∀ j ∈ db.jobs.rows, j.state = .dead →
    ∃ d,
      db'.deadLetter.rows.filter (fun d => d.jobId = j.id) =
          [d] ∧
        (db.deadLetter? j.id = some d ∨
          db.deadLetter? j.id = none ∧
            ∃ k, d = deadLetterOf j (starts k))

/- The job has an entry that was moved before the cutoff. -/
def OldEntry
    (cutoff : Time)
    (db : Db)
    (jobId : Uuid) :
    Prop :=
  ∃ d ∈ db.deadLetter.rows,
    d.jobId = jobId ∧ d.movedAt < cutoff

/- The job was finished before the cutoff. -/
def OldJob
    (cutoff : Time)
    (db : Db)
    (jobId : Uuid) :
    Prop :=
  ∃ j ∈ db.jobs.rows,
    j.id = jobId ∧ Job.finishedBefore cutoff j = true

/-
  What is left is what is not old. The runs of a job go with
  its old entry, whatever the state of the job.
-/
structure Pruned
    (cutoff : Time)
    (db db' : Db) :
    Prop where
  jobs : ∀ j, j ∈ db'.jobs.rows ↔
    j ∈ db.jobs.rows ∧
      Job.finishedBefore cutoff j = false ∧
        ¬(j.state = .dead ∧ OldEntry cutoff db j.id)
  jobRuns : ∀ r, r ∈ db'.jobRuns.rows ↔
    r ∈ db.jobRuns.rows ∧ ¬OldJob cutoff db r.jobId ∧
      ¬OldEntry cutoff db r.jobId
  deadLetter : ∀ d, d ∈ db'.deadLetter.rows ↔
    d ∈ db.deadLetter.rows ∧ cutoff ≤ d.movedAt
  schedules : db'.schedules = db.schedules
  tenants : db'.tenants = db.tenants

------------------------------------------------------------
-- Moving Dead Jobs
------------------------------------------------------------

section

variable {db db' : Db}
variable {starts : Nat → Time}

theorem scanJobs_perm
    (scan : Scan)
    (db : Db) :
    (scanJobs scan db).Perm db.jobs.rows :=
  List.perm_insertionSort _ _

/- A dead job without an entry. -/
def isUnmoved (db : Db) (j : Job) : Bool :=
  j.state = .dead && (db.deadLetter? j.id).isNone

/- The dead jobs that are still to be moved. -/
def unmoved (db : Db) : Nat :=
  db.jobs.count (isUnmoved db)

theorem performAll_insertDeadLetter
    (entries : List DeadLetter)
    (db : Db) :
    postgres.performAll db (entries.map .insertDeadLetter) =
      { db with
        deadLetter :=
          entries.foldl (fun t d => t.insert d)
            db.deadLetter } := by
  induction entries generalizing db with
  | nil => rfl
  | cons d entries ih => exact ih _

/- The entries that a round adds. -/
def newEntries
    (start : Time)
    (scan : Scan)
    (db : Db) :
    List DeadLetter :=
  (unmovedDeadJobs deadLetterBatchSize scan db).map
    (fun j => deadLetterOf j start)

theorem jobId_newEntries
    (start : Time)
    (scan : Scan)
    (db : Db) :
    (newEntries start scan db).map DeadLetter.jobId =
      (unmovedDeadJobs deadLetterBatchSize scan db).map
        Job.id := by
  rw [newEntries, List.map_map]
  rfl

theorem rows_moveRound
    (start : Time)
    (scan : Scan)
    (db : Db) :
    ((newEntries start scan db).foldl
        (fun t d => t.insert d) db.deadLetter).rows =
      db.deadLetter.rows ++ newEntries start scan db := by
  apply Table.rows_foldl_insert
  · intro d hd
    rcases List.mem_map.mp hd with ⟨j, hj, rfl⟩
    exact (mem_unmovedDeadJobs hj).2.2
  · have hIds :
        ((scanJobs scan db).map Job.id).Nodup :=
      ((scanJobs_perm scan db).map _).nodup_iff.mpr
        db.jobs.keys_nodup
    change ((newEntries start scan db).map
      DeadLetter.jobId).Nodup
    rw [jobId_newEntries]
    exact hIds.sublist
      (((List.take_sublist _ _).trans
        List.filter_sublist).map Job.id)

/- A round adds its entries and counts them. -/
theorem moveRound_eq
    (start : Time)
    (scan : Scan)
    (db : Db) :
    moveRound start scan db =
      ({ db with
          deadLetter :=
            (newEntries start scan db).foldl
              (fun t d => t.insert d) db.deadLetter },
        (unmovedDeadJobs deadLetterBatchSize scan
          db).length) := by
  have hWrites :
      (unmovedDeadJobs deadLetterBatchSize scan db).map
          (fun j =>
            Write.insertDeadLetter (deadLetterOf j start)) =
        (newEntries start scan db).map .insertDeadLetter := by
    rw [newEntries, List.map_map]
    rfl
  have hLength :
      (newEntries start scan db).length =
        (unmovedDeadJobs deadLetterBatchSize scan
          db).length :=
    List.length_map _
  unfold moveRound moveToDeadLetter Db.apply
  simp only [hWrites, performAll_insertDeadLetter,
    rows_moveRound, List.length_append, hLength,
    Nat.add_sub_cancel_left]

theorem count_moveRound
    (start : Time)
    (scan : Scan)
    (db : Db) :
    (moveRound start scan db).2 =
      min deadLetterBatchSize (unmoved db) := by
  rw [moveRound_eq]
  exact Table.length_batch (isUnmoved db) _
    (scanJobs_perm scan db)

theorem deadLetter?_moveRound_eq_none_iff
    (start : Time)
    (scan : Scan)
    (db : Db)
    (jobId : Uuid) :
    (moveRound start scan db).1.deadLetter? jobId = none ↔
      db.deadLetter? jobId = none ∧
        jobId ∉
          (unmovedDeadJobs deadLetterBatchSize scan db).map
            Job.id := by
  rw [moveRound_eq, ← jobId_newEntries start]
  unfold Db.deadLetter?
  rw [Table.find?_eq_none_iff, Table.find?_eq_none_iff,
    rows_moveRound]
  constructor
  · intro hNone
    refine ⟨fun d hd =>
      hNone d (List.mem_append_left _ hd), ?_⟩
    intro hIn
    rcases List.mem_map.mp hIn with ⟨d, hd, hKey⟩
    exact hNone d (List.mem_append_right _ hd) hKey
  · rintro ⟨hOld, hNew⟩ d hd hKey
    rcases List.mem_append.mp hd with hd | hd
    · exact hOld d hd hKey
    · exact hNew (List.mem_map.mpr ⟨d, hd, hKey⟩)

/- The jobs that were moved are not met again. -/
theorem unmoved_moveRound
    (start : Time)
    (scan : Scan)
    (db : Db) :
    unmoved (moveRound start scan db).1 +
        (moveRound start scan db).2 =
      unmoved db := by
  have hBatch :=
    Table.count_retain_batch (isUnmoved db)
      deadLetterBatchSize (scanJobs_perm scan db)
  have hLeft :
      unmoved (moveRound start scan db).1 =
        (db.jobs.retain (fun j => Keyed.key j ∉
          (unmovedDeadJobs deadLetterBatchSize scan db).map
            Keyed.key)).count (isUnmoved db) := by
    have hJobs :
        (moveRound start scan db).1.jobs = db.jobs := by
      rw [moveRound_eq]
    unfold unmoved Table.count Table.retain
    rw [hJobs, List.filter_filter]
    congr 1
    apply List.filter_congr
    intro j _
    have hNone :=
      deadLetter?_moveRound_eq_none_iff start scan db j.id
    unfold isUnmoved
    rw [Bool.eq_iff_iff]
    simp only [Bool.and_eq_true, decide_eq_true_eq,
      Option.isNone_iff_eq_none, hNone]
    exact and_assoc.symm
  rw [hLeft, moveRound_eq]
  exact hBatch

/- What a number of rounds have done to the database. -/
structure Moving
    (starts : Nat → Time)
    (db db' : Db) :
    Prop where
  jobs : db'.jobs = db.jobs
  jobRuns : db'.jobRuns = db.jobRuns
  schedules : db'.schedules = db.schedules
  tenants : db'.tenants = db.tenants
  entries : ∃ new,
    db'.deadLetter.rows = db.deadLetter.rows ++ new ∧
      ∀ d ∈ new, ∃ j ∈ db.jobs.rows, j.state = .dead ∧
        db.deadLetter? j.id = none ∧
          ∃ k, d = deadLetterOf j (starts k)

theorem Moving.round
    (scan : Scan)
    (k : Nat)
    (hMoving : Moving starts db db') :
    Moving starts db (moveRound (starts k) scan db').1 := by
  rcases hMoving.entries with ⟨new, hRows, hNew⟩
  rw [moveRound_eq]
  refine ⟨hMoving.jobs, hMoving.jobRuns,
    hMoving.schedules, hMoving.tenants,
    new ++ newEntries (starts k) scan db', ?_, ?_⟩
  · rw [rows_moveRound, hRows, List.append_assoc]
  · intro d hd
    rcases List.mem_append.mp hd with hOld | hAdded
    · exact hNew d hOld
    · rcases List.mem_map.mp hAdded with ⟨j, hj, rfl⟩
      rcases mem_unmovedDeadJobs hj with
        ⟨hJob, hDead, hNone⟩
      have hRow : j ∈ db.jobs.rows := by
        rw [← hMoving.jobs]
        exact Table.mem_of_find? hJob
      refine ⟨j, hRow, hDead, ?_, k, rfl⟩
      -- an entry that was there at first would be there
      apply Table.find?_eq_none_iff.mpr
      intro d hd
      apply Table.find?_eq_none_iff.mp hNone d
      rw [hRows]
      exact List.mem_append_left _ hd

/- Once nothing is left, the rounds have moved all. -/
theorem Moving.promoted
    (hMoving : Moving starts db db')
    (hNone : unmoved db' = 0) :
    Promoted starts db db' := by
  rcases hMoving.entries with ⟨new, hRows, hNew⟩
  refine ⟨hMoving.jobs, hMoving.jobRuns,
    hMoving.schedules, hMoving.tenants, ?_, ?_, ?_⟩
  · intro d hd
    rw [hRows]
    exact List.mem_append_left _ hd
  · intro d hd
    rw [hRows] at hd
    rcases List.mem_append.mp hd with hOld | hAdded
    · exact .inl hOld
    · exact .inr (hNew d hAdded)
  · intro j hj hDead
    have hMoved : isUnmoved db' j = false := by
      have hEmpty := List.length_eq_zero_iff.mp hNone
      rw [hMoving.jobs] at hEmpty
      exact Bool.eq_false_iff.mpr
        (List.filter_eq_nil_iff.mp hEmpty j hj)
    cases hEntry : db'.deadLetter? j.id with
    | none => simp [isUnmoved, hDead, hEntry] at hMoved
    | some d =>
        have hId : d.jobId = j.id :=
          Table.key_of_find? hEntry
        refine ⟨d, ?_, ?_⟩
        · refine Table.filter_eq_singleton hEntry
            (decide_eq_true hId) ?_
          intro jobId d' hFound hSame
          have hKey : d'.jobId = jobId :=
            Table.key_of_find? hFound
          rw [← hKey]
          exact of_decide_eq_true hSame
        · have hIn := Table.mem_of_find? hEntry
          rw [hRows] at hIn
          rcases List.mem_append.mp hIn with hOld | hAdded
          · left
            exact Table.find?_eq_some_iff.mpr ⟨hOld, hId⟩
          · right
            rcases hNew d hAdded with
              ⟨j', hj', _, hAbsent, k, rfl⟩
            have hSame : j' = j :=
              db.jobs.eq_of_key_eq hj' hj hId
            subst hSame
            exact ⟨hAbsent, k, rfl⟩

theorem promoteDeadJobs_drains
    (starts : Nat → Time)
    (scans : Nat → Scan)
    (db : Db) :
    ∃ db',
      Promoted starts db db' ∧
        ∃ bound, ∀ fuel, bound < fuel →
          promoteDeadJobs starts scans fuel db =
            some db' := by
  have hStart : Moving starts db db :=
    ⟨rfl, rfl, rfl, rfl, [], (List.append_nil _).symm,
      fun d hd => absurd hd List.not_mem_nil⟩
  have hBacklog :
      unmoved db < deadLetterBatchSize * (unmoved db + 1) := by
    unfold deadLetterBatchSize
    omega
  rcases drain_complete
    (fun k => moveRound (starts k) (scans k)) unmoved
    (fun k db' (hMoving : Moving starts db db') =>
      hMoving.round (scans k) k)
    (fun k db' => count_moveRound (starts k) (scans k) db')
    (fun k db' =>
      unmoved_moveRound (starts k) (scans k) db')
    (unmoved db) 0 hBacklog hStart with
    ⟨db', hMoving, hNone, hDrain⟩
  exact ⟨db', hMoving.promoted hNone, unmoved db, hDrain⟩

end

------------------------------------------------------------
-- Pruning Finished Jobs
------------------------------------------------------------

section

variable {db db' : Db}
variable {cutoff : Time}

/- The database without some jobs and their runs. -/
def withoutJobs (gone : List Uuid) (db : Db) : Db :=
  { db with
    jobs := db.jobs.retain (fun j => j.id ∉ gone)
    jobRuns := db.jobRuns.retain (fun r => r.jobId ∉ gone) }

theorem retain_twice
    {R K : Type}
    [Keyed R K]
    (t : Table R)
    (f : R → Uuid)
    (gone more : List Uuid) :
    (t.retain (fun r => f r ∉ gone)).retain
        (fun r => f r ∉ more) =
      t.retain (fun r => f r ∉ gone ++ more) := by
  rw [Table.retain_retain]
  congr 1
  funext r
  simp [List.mem_append, not_or]

theorem withoutJobs_withoutJobs
    (gone more : List Uuid)
    (db : Db) :
    withoutJobs more (withoutJobs gone db) =
      withoutJobs (gone ++ more) db := by
  unfold withoutJobs
  simp only [retain_twice]

theorem deletes_withoutJobs :
    Deletes Db.jobs withoutJobs where
  rows := fun _ _ => rfl
  append := withoutJobs_withoutJobs
  nil := by
    intro db
    unfold withoutJobs Table.retain
    simp

theorem pruneFinishedJobs_drains
    (cutoff : Time)
    (scans : Nat → Scan)
    (db : Db) :
    ∃ gone,
      (∀ id, id ∈ gone ↔ OldJob cutoff db id) ∧
        ∃ bound, ∀ fuel, bound < fuel →
          drain
              (fun k =>
                pruneFinishedJobs cutoff retentionBatchSize
                  (scans k))
              retentionBatchSize fuel 0 db =
            some (withoutJobs gone db) :=
  deletes_withoutJobs.drain (Job.finishedBefore cutoff)
    (by decide) (fun k db => scanJobs (scans k) db)
    (fun k db => scanJobs_perm (scans k) db) db

------------------------------------------------------------
-- Pruning Old Entries
------------------------------------------------------------

/-
  The database without some entries, the dead jobs they are
  of, and the runs of whatever jobs they are of.
-/
def withoutEntries (gone : List Uuid) (db : Db) : Db :=
  { db with
    jobs :=
      db.jobs.retain
        (fun j => !(j.id ∈ gone && j.state = .dead))
    jobRuns := db.jobRuns.retain (fun r => r.jobId ∉ gone)
    deadLetter :=
      db.deadLetter.retain (fun d => d.jobId ∉ gone) }

theorem withoutEntries_withoutEntries
    (gone more : List Uuid)
    (db : Db) :
    withoutEntries more (withoutEntries gone db) =
      withoutEntries (gone ++ more) db := by
  have hJobs :
      (db.jobs.retain
          (fun j => !(j.id ∈ gone && j.state = .dead))).retain
          (fun j => !(j.id ∈ more && j.state = .dead)) =
        db.jobs.retain
          (fun j =>
            !(j.id ∈ gone ++ more && j.state = .dead)) := by
    rw [Table.retain_retain]
    congr 1
    funext j
    by_cases hDead : j.state = .dead
    · simp [hDead, List.mem_append]
    · simp [hDead]
  unfold withoutEntries
  simp only [retain_twice, hJobs]

theorem deletes_withoutEntries :
    Deletes Db.deadLetter withoutEntries where
  rows := fun _ _ => rfl
  append := withoutEntries_withoutEntries
  nil := by
    intro db
    unfold withoutEntries Table.retain
    simp

/- The order in which a prune meets the entries. -/
def scanEntries (scan : Scan) (db : Db) : List DeadLetter :=
  db.deadLetter.rows.insertionSort
    (fun a b => scan a.jobId ≤ scan b.jobId)

theorem pruneDeadLetter_drains
    (cutoff : Time)
    (scans : Nat → Scan)
    (db : Db) :
    ∃ gone,
      (∀ id, id ∈ gone ↔ OldEntry cutoff db id) ∧
        ∃ bound, ∀ fuel, bound < fuel →
          drain
              (fun k =>
                pruneDeadLetter cutoff retentionBatchSize
                  (scans k))
              retentionBatchSize fuel 0 db =
            some (withoutEntries gone db) := by
  rcases deletes_withoutEntries.drain
    (fun d => decide (d.movedAt < cutoff))
    (show 0 < retentionBatchSize by decide)
    (fun k db => scanEntries (scans k) db)
    (fun k db => List.perm_insertionSort _ _) db with
    ⟨gone, hGone, hDrain⟩
  refine ⟨gone, ?_, hDrain⟩
  intro id
  rw [hGone]
  simp only [decide_eq_true_eq]
  exact Iff.rfl

------------------------------------------------------------
-- Whole Passes
------------------------------------------------------------

/- A row is old if its key is that of an old row. -/
theorem oldJob_iff
    {j : Job}
    (hj : j ∈ db.jobs.rows) :
    OldJob cutoff db j.id ↔
      Job.finishedBefore cutoff j = true :=
  Table.exists_key_eq_iff
    (fun j => Job.finishedBefore cutoff j = true) hj

theorem oldEntry_iff
    {d : DeadLetter}
    (hd : d ∈ db.deadLetter.rows) :
    OldEntry cutoff db d.jobId ↔ d.movedAt < cutoff :=
  Table.exists_key_eq_iff
    (fun d : DeadLetter => d.movedAt < cutoff) hd

/- Both prunes, one after the other. -/
theorem pruned_of_gone
    {gone gone' : List Uuid}
    (hJobs : ∀ id, id ∈ gone ↔ OldJob cutoff db id)
    (hEntries : ∀ id, id ∈ gone' ↔ OldEntry cutoff db id) :
    Pruned cutoff db
      (withoutEntries gone' (withoutJobs gone db)) := by
  constructor
  · intro j
    simp only [withoutEntries, withoutJobs, Table.retain,
      List.mem_filter, decide_eq_true_eq, hJobs, hEntries,
      Bool.not_eq_true', Bool.and_eq_false_iff,
      decide_eq_false_iff_not]
    constructor
    · rintro ⟨⟨hj, hKept⟩, hNotBoth⟩
      rw [oldJob_iff hj, Bool.not_eq_true] at hKept
      refine ⟨hj, hKept, ?_⟩
      rintro ⟨hDead, hOld⟩
      rcases hNotBoth with hYoung | hAlive
      · exact hYoung hOld
      · exact hAlive hDead
    · rintro ⟨hj, hKept, hNotBoth⟩
      refine ⟨⟨hj, ?_⟩, ?_⟩
      · rw [oldJob_iff hj, Bool.not_eq_true]
        exact hKept
      · by_cases hDead : j.state = .dead
        · exact .inl (fun hOld => hNotBoth ⟨hDead, hOld⟩)
        · exact .inr hDead
  · intro r
    simp only [withoutEntries, withoutJobs, Table.retain,
      List.mem_filter, decide_eq_true_eq, hJobs, hEntries]
    exact and_assoc
  · intro d
    simp only [withoutEntries, withoutJobs, Table.retain,
      List.mem_filter, decide_eq_true_eq, hEntries]
    constructor
    · rintro ⟨hd, hYoung⟩
      rw [oldEntry_iff hd] at hYoung
      exact ⟨hd, Int.not_lt.mp hYoung⟩
    · rintro ⟨hd, hYoung⟩
      refine ⟨hd, ?_⟩
      rw [oldEntry_iff hd]
      exact Int.not_lt.mpr hYoung
  · rfl
  · rfl

theorem enforceRetention_drains
    (cutoff : Time)
    (scans scans' : Nat → Scan)
    (db : Db) :
    ∃ db',
      Pruned cutoff db db' ∧
        ∃ bound, ∀ fuel, bound < fuel →
          enforceRetention cutoff scans scans' fuel db =
            some db' := by
  rcases pruneFinishedJobs_drains cutoff scans db with
    ⟨gone, hGone, bound, hFirst⟩
  rcases pruneDeadLetter_drains cutoff scans'
    (withoutJobs gone db) with
    ⟨gone', hGone', bound', hSecond⟩
  refine ⟨_, pruned_of_gone hGone hGone',
    max bound bound', ?_⟩
  intro fuel hFuel
  have hFuelFirst : bound < fuel := by omega
  have hFuelSecond : bound' < fuel := by omega
  unfold enforceRetention
  rw [hFirst fuel hFuelFirst]
  exact hSecond fuel hFuelSecond

/-
  From every database, whatever rows the batches choose, the
  loops end. Then every dead job has exactly one entry: the
  one it had, or else one taken from its row; no job that
  was finished before the cutoff is left, nor a run of it;
  no entry that was moved before the cutoff is left, nor its
  job if that is dead, nor a run of its job; and every other
  row is as it was.
-/
theorem batch_loops_drain
    (starts : Nat → Time)
    (scans scans' scans'' : Nat → Scan)
    (cutoff : Time)
    (db : Db) :
    (∃ db',
        Promoted starts db db' ∧
          ∃ bound, ∀ fuel, bound < fuel →
            promoteDeadJobs starts scans fuel db =
              some db') ∧
      ∃ db',
        Pruned cutoff db db' ∧
          ∃ bound, ∀ fuel, bound < fuel →
            enforceRetention cutoff scans' scans'' fuel db =
              some db' :=
  ⟨promoteDeadJobs_drains starts scans db,
    enforceRetention_drains cutoff scans' scans'' db⟩

end

/-
  A job fails and is dead; the copy that is made of it
  commits after its replay.
-/
def lateCopy : List Storage.Step :=
  (Call.insertJob
      { Storage.Sample.job 7 with maxRetries := 0 }).whole ++
    (Call.tryClaim (Storage.Sample.claim 7 1)).whole ++
      (Call.failJob 7 1 1 "timeout" none 0).whole ++
        [.begin (.moveToDeadLetter 100), .statement 0 id] ++
          (Call.replayJob 7 1).whole ++ [.commit 0]

/-
  That leaves the job with an entry. When it dies again, the
  entry stays as it is; and if the entry gets old before,
  the runs of the job are deleted while it is waiting.
-/
theorem drains_keep_stale_entry :
    (∃ s, sluice.Reachable s ∧
        ∃ db' j d,
          promoteDeadJobs (fun _ => 9) (fun _ => id) 1 s.db =
              some db' ∧
            (db'.job? 7 = some j ∧ j.state = .dead) ∧
              db'.deadLetter? 7 = some d ∧
                ∀ start, d ≠ deadLetterOf j start) ∧
      ∃ s, sluice.Reachable s ∧
        ∃ db' j r,
          enforceRetention 9 (fun _ => id) (fun _ => id) 1
              s.db = some db' ∧
            (db'.job? 7 = some j ∧ j.state = .pending) ∧
              (r ∈ s.db.jobRuns.rows ∧ r.jobId = 7) ∧
                r ∉ db'.jobRuns.rows := by
  constructor
  · rcases
      Machine.exists_reachable_of_run
      Storage.Sample.init_start
        (lateCopy ++
          (Call.tryClaim
            (Storage.Sample.claim 7 2)).whole ++
            (Call.failJob 7 2 2 "refused" none
              0).whole)
        (fun s =>
          ∃ db' ∈ promoteDeadJobs (fun _ => 9)
              (fun _ => id) 1 s.db,
            ∃ j ∈ db'.job? 7, j.state = .dead ∧
              ∃ d ∈ db'.deadLetter? 7,
                d.finalError ≠ j.lastError)
        (by decide +kernel)
    with ⟨s, hReach, db', hPromote, j, hJob, hDead, d,
      hEntry, hStale⟩
    refine ⟨s, hReach, db', j, d, hPromote, ⟨hJob, hDead⟩,
      hEntry, ?_⟩
    intro start hSame
    apply hStale
    rw [hSame]
    rfl
  · rcases
      Machine.exists_reachable_of_run
      Storage.Sample.init_start
        lateCopy
        (fun s =>
          ∃ db' ∈ enforceRetention 9 (fun _ => id)
              (fun _ => id) 1 s.db,
            (∃ j ∈ db'.job? 7, j.state = .pending) ∧
              ∃ r ∈ s.db.jobRuns.rows,
                r.jobId = 7 ∧ r ∉ db'.jobRuns.rows)
        (by decide +kernel)
    with ⟨s, hReach, db', hRetain, ⟨j, hJob, hPending⟩, r,
      hRow, hOf, hGone⟩
    exact ⟨s, hReach, db', j, r, hRetain,
      ⟨hJob, hPending⟩, ⟨hRow, hOf⟩, hGone⟩

end Scheduler

end Sluice
