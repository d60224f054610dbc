import Sluice.Storage.Links

/-
  Retention: the statements that delete finished jobs and old
  dead letters, among all other statements on jobs.

  Every statement, and the transaction of `ReplayJob`, is one
  step. Steps are made with arbitrary arguments and in any
  order, by any number of leaders, workers and operators.

  Key definitions include:
    * `pruneFinishedJobs` and `pruneDeadLetter`
    * `promoteFailedToPending`
    * `Statement` and `Statement.step`
    * `statements`
    * `Expired`

  Key theorems include:
    * `linked_of_reachable`
    * `expired_of_pruned_finished`
    * `expired_of_pruned_dead`
    * `retention_keeps_unfinished_work`
-/

------------------------------------------------------------
-- Pruning
------------------------------------------------------------

namespace Sluice

namespace Storage

open Foundations ReadCommitted

/-
  `state IN ('succeeded', 'cancelled') AND completed_at <
  cutoff`.
-/
def Job.finishedBefore (cutoff : Time) (j : Job) : Bool :=
  (j.state = .succeeded || j.state = .cancelled) &&
    j.completedAt.any (fun t => decide (t < cutoff))

/- The `doomed` jobs of `PruneFinishedJobs`. -/
def doomedJobs
    (cutoff : Time)
    (limit : Nat)
    (scan : Scan)
    (db : Db) :
    List Uuid :=
  (((scanJobs scan db).filter
    (Job.finishedBefore cutoff)).take limit).map Job.id

/- The `doomed` entries of `PruneDeadLetter`. -/
def doomedEntries
    (cutoff : Time)
    (limit : Nat)
    (scan : Scan)
    (db : Db) :
    List Uuid :=
  (((db.deadLetter.rows.insertionSort
    (fun a b => scan a.jobId ≤ scan b.jobId)).filter
      (fun d => decide (d.movedAt < cutoff))).take
        limit).map DeadLetter.jobId

/- The result is the number of jobs deleted. -/
def pruneFinishedJobs
    (cutoff : Time)
    (limit : Nat)
    (scan : Scan)
    (db : Db) :
    Db × Nat :=
  let doomed := doomedJobs cutoff limit scan db
  ({ db with
      jobs := db.jobs.retain (fun j => j.id ∉ doomed)
      jobRuns :=
        db.jobRuns.retain (fun r => r.jobId ∉ doomed) },
    doomed.length)

/- The result is the number of entries deleted. -/
def pruneDeadLetter
    (cutoff : Time)
    (limit : Nat)
    (scan : Scan)
    (db : Db) :
    Db × Nat :=
  let doomed := doomedEntries cutoff limit scan db
  ({ db with
      jobs :=
        db.jobs.retain
          (fun j => !(j.id ∈ doomed && j.state = .dead))
      jobRuns :=
        db.jobRuns.retain (fun r => r.jobId ∉ doomed)
      deadLetter :=
        db.deadLetter.retain (fun d => d.jobId ∉ doomed) },
    doomed.length)

def promoteFailedToPending
    (jobId : Uuid)
    (start : Time)
    (db : Db) :
    Result :=
  match matchJob jobId (fun j => j.state = .failed) db with
  | none => noRows
  | some j => jobResult (j.releaseFailed start)

------------------------------------------------------------
-- Statements As Steps
------------------------------------------------------------

/-
  A statement that takes effect at once. `start` is the
  database's `NOW()`; `locked` says which rows a `SKIP LOCKED`
  passes over.
-/
inductive Statement
| call
    (call : Call) (pc : Nat) (start : Time) (scan : Scan)
    (locked : RowKey → Bool)
| promoteFailedToPending (jobId : Uuid) (start : Time)
| replayJob (jobId tenantId : Uuid) (start : Time)
| pruneFinishedJobs
    (cutoff : Time) (limit : Nat) (scan : Scan)
| pruneDeadLetter
    (cutoff : Time) (limit : Nat) (scan : Scan)

namespace Statement

/-
  The statements of a replay are not steps of their own: they
  are one transaction.
-/
def step (statement : Statement) (db : Db) : Option Db :=
  match statement with
  | .call (.replayJob _ _) _ _ _ _ => none
  | .call c pc start scan locked =>
      db.apply (c.statement pc start scan locked db)
  | .promoteFailedToPending jobId start =>
      db.apply
        (Storage.promoteFailedToPending jobId start db)
  | .replayJob jobId tenantId start =>
      replay jobId tenantId start db
  | .pruneFinishedJobs cutoff limit scan =>
      some (Storage.pruneFinishedJobs cutoff limit scan db).1
  | .pruneDeadLetter cutoff limit scan =>
      some (Storage.pruneDeadLetter cutoff limit scan db).1

/- The cutoff of a statement that deletes. -/
def cutoff? : Statement → Option Time
| .pruneFinishedJobs cutoff _ _ => some cutoff
| .pruneDeadLetter cutoff _ _ => some cutoff
| _ => none

end Statement

def statements : Machine Db Statement where
  init := Db.initial
  step := Statement.step

/- A job that has been finished since before the cutoff. -/
def Expired
    (cutoff : Time)
    (db : Db)
    (j : Job) :
    Prop :=
  ((j.state = .succeeded ∨ j.state = .cancelled) ∧
      ∃ t, j.completedAt = some t ∧ t < cutoff) ∨
    (j.state = .dead ∧
      ∃ d, db.deadLetter? j.id = some d ∧
        d.movedAt < cutoff)

------------------------------------------------------------
-- What Is Doomed
------------------------------------------------------------

variable {db db' : Db}
variable {cutoff : Time}
variable {limit : Nat}
variable {scan : Scan}
variable {id : Uuid}
variable {statement : Statement}
variable {j : Job}

theorem exists_of_doomedJobs
    (hDoomed : id ∈ doomedJobs cutoff limit scan db) :
    ∃ j, db.job? id = some j ∧
      (j.state = .succeeded ∨ j.state = .cancelled) ∧
        ∃ t, j.completedAt = some t ∧ t < cutoff := by
  rcases List.mem_map.mp hDoomed with ⟨j, hj, rfl⟩
  have hFilter :=
    List.mem_filter.mp (List.mem_of_mem_take hj)
  have hRow : j ∈ db.jobs.rows :=
    (List.mem_insertionSort _).mp hFilter.1
  have hGuard := hFilter.2
  simp only [Job.finishedBefore, Bool.and_eq_true,
    Bool.or_eq_true, decide_eq_true_eq,
    Option.any_eq_true] at hGuard
  exact ⟨j, Table.find?_of_mem hRow, hGuard.1, hGuard.2⟩

theorem exists_of_doomedEntries
    {jobId : Uuid}
    (hDoomed :
      jobId ∈ doomedEntries cutoff limit scan db) :
    ∃ d, db.deadLetter? jobId = some d ∧
      d.movedAt < cutoff := by
  rcases List.mem_map.mp hDoomed with ⟨d, hd, rfl⟩
  have hFilter :=
    List.mem_filter.mp (List.mem_of_mem_take hd)
  have hRow : d ∈ db.deadLetter.rows :=
    (List.mem_insertionSort _).mp hFilter.1
  exact ⟨d, Table.find?_of_mem hRow,
    of_decide_eq_true hFilter.2⟩

theorem job?_pruneFinishedJobs
    (id : Uuid) :
    (pruneFinishedJobs cutoff limit scan db).1.job? id =
      if id ∈ doomedJobs cutoff limit scan db then none
      else db.job? id := by
  unfold pruneFinishedJobs Db.job?
  rw [Table.find?_retain]
  cases hJob : db.jobs.find? id with
  | none => simp
  | some j =>
      have hId : j.id = id := Db.id_of_job? hJob
      by_cases hDoomed :
          id ∈ doomedJobs cutoff limit scan db
      · simp [hId, hDoomed]
      · simp [hId, hDoomed]

theorem run?_pruneFinishedJobs
    (id : Uuid) :
    (pruneFinishedJobs cutoff limit scan db).1.run? id =
      (db.run? id).filter
        (fun r =>
          r.jobId ∉ doomedJobs cutoff limit scan db) :=
  Table.find?_retain _ _ _

theorem job?_pruneDeadLetter
    (id : Uuid) :
    (pruneDeadLetter cutoff limit scan db).1.job? id =
      (db.job? id).filter
        (fun j =>
          !(j.id ∈ doomedEntries cutoff limit scan db &&
            j.state = .dead)) :=
  Table.find?_retain _ _ _

theorem run?_pruneDeadLetter
    (id : Uuid) :
    (pruneDeadLetter cutoff limit scan db).1.run? id =
      (db.run? id).filter
        (fun r =>
          r.jobId ∉ doomedEntries cutoff limit scan db) :=
  Table.find?_retain _ _ _

theorem deadLetter?_pruneDeadLetter
    (jobId : Uuid) :
    (pruneDeadLetter cutoff limit scan db).1.deadLetter?
        jobId =
      (db.deadLetter? jobId).filter
        (fun d =>
          d.jobId ∉ doomedEntries cutoff limit scan db) :=
  Table.find?_retain _ _ _

theorem job?_pruneFinishedJobs_of_kept
    (id : Uuid)
    (j : Job)
    (hJob : db.job? id = some j)
    (hKept : id ∉ doomedJobs cutoff limit scan db) :
    (pruneFinishedJobs cutoff limit scan db).1.job? id =
      some j := by
  rw [job?_pruneFinishedJobs, if_neg hKept]
  exact hJob

theorem run?_of_pruneFinishedJobs
    (id : Uuid)
    (r : RunRow)
    (hRun :
      (pruneFinishedJobs cutoff limit scan db).1.run? id =
        some r) :
    db.run? id = some r ∧
      r.jobId ∉ doomedJobs cutoff limit scan db := by
  rw [run?_pruneFinishedJobs,
    Option.filter_eq_some_iff] at hRun
  exact ⟨hRun.1, of_decide_eq_true hRun.2⟩

theorem job?_pruneDeadLetter_of_kept
    (id : Uuid)
    (j : Job)
    (hJob : db.job? id = some j)
    (hKept : id ∉ doomedEntries cutoff limit scan db) :
    (pruneDeadLetter cutoff limit scan db).1.job? id =
      some j := by
  rw [job?_pruneDeadLetter, Option.filter_eq_some_iff]
  refine ⟨hJob, ?_⟩
  rw [Db.id_of_job? hJob]
  simp [hKept]

theorem run?_of_pruneDeadLetter
    (id : Uuid)
    (r : RunRow)
    (hRun :
      (pruneDeadLetter cutoff limit scan db).1.run? id =
        some r) :
    db.run? id = some r ∧
      r.jobId ∉ doomedEntries cutoff limit scan db := by
  rw [run?_pruneDeadLetter,
    Option.filter_eq_some_iff] at hRun
  exact ⟨hRun.1, of_decide_eq_true hRun.2⟩

theorem deadLetter?_of_pruneDeadLetter
    (jobId : Uuid)
    (d : DeadLetter)
    (hEntry :
      (pruneDeadLetter cutoff limit scan db).1.deadLetter?
          jobId =
        some d) :
    db.deadLetter? jobId = some d ∧
      jobId ∉ doomedEntries cutoff limit scan db := by
  rw [deadLetter?_pruneDeadLetter,
    Option.filter_eq_some_iff] at hEntry
  rcases hEntry with ⟨hEntry, hKept⟩
  have hId : d.jobId = jobId := Table.key_of_find? hEntry
  rw [hId] at hKept
  exact ⟨hEntry, of_decide_eq_true hKept⟩

------------------------------------------------------------
-- Links Are Kept By Pruning
------------------------------------------------------------

theorem Linked.prune_finished
    (hLinked : Linked db) :
    Linked (pruneFinishedJobs cutoff limit scan db).1 where
  runs :=
    hLinked.runs.prune
      job?_pruneFinishedJobs_of_kept
      run?_of_pruneFinishedJobs
  deadLetters := by
    intro jobId d hEntry
    rcases hLinked.deadLetters jobId d hEntry with
      ⟨j, hJob, hTenant, hDead⟩
    refine ⟨j, ?_, hTenant, hDead⟩
    apply job?_pruneFinishedJobs_of_kept _ _ hJob
    intro hDoomed
    -- a dead job is not among the finished ones
    rcases exists_of_doomedJobs hDoomed with
      ⟨j', hJob', hFinished, _⟩
    rw [hJob] at hJob'
    cases hJob'
    rw [hDead] at hFinished
    rcases hFinished with hSucceeded | hCancelled
    · cases hSucceeded
    · cases hCancelled

theorem Linked.prune_dead
    (hLinked : Linked db) :
    Linked (pruneDeadLetter cutoff limit scan db).1 where
  runs :=
    hLinked.runs.prune
      job?_pruneDeadLetter_of_kept
      run?_of_pruneDeadLetter
  deadLetters := by
    intro jobId d hEntry
    rcases deadLetter?_of_pruneDeadLetter jobId d hEntry with
      ⟨hBefore, hKept⟩
    rcases hLinked.deadLetters jobId d hBefore with
      ⟨j, hJob, hLink⟩
    exact ⟨j, job?_pruneDeadLetter_of_kept _ j hJob hKept,
      hLink⟩

theorem promoteFailedToPending_refers
    {jobId : Uuid}
    {start : Time}
    {writes : List Write}
    {locks : List RowKey}
    (hOutcome :
      promoteFailedToPending jobId start db =
        .proceed writes locks) :
    ∀ w ∈ writes, Refers db w := by
  unfold promoteFailedToPending at hOutcome
  split at hOutcome
  · cases hOutcome
    intro w hw
    cases hw
  · rename_i j hMatch
    rcases matchJob_row hMatch with ⟨hJob, _, hGuard⟩
    have hFailed : j.state = .failed :=
      of_decide_eq_true hGuard
    cases hOutcome
    intro w hw
    rw [List.mem_singleton.mp hw]
    refine ⟨⟨j, hJob, rfl⟩, ?_, fun _ _ h => (nomatch h)⟩
    rintro row old ⟨⟩ hOld
    cases hJob.symm.trans hOld
    rw [hFailed]
    decide

theorem Linked.step
    (hLinked : Linked db)
    (hStep : statement.step db = some db') :
    Linked db' := by
  cases statement with
  | call c pc start scan locked =>
      have hReplay :
          ∀ jobId tenantId, c ≠ .replayJob jobId tenantId := by
        rintro jobId tenantId rfl
        cases hStep
      apply hLinked.statement hReplay
      cases c with
      | replayJob jobId tenantId => cases hStep
      | _ => exact hStep
  | promoteFailedToPending jobId start =>
      cases hOutcome :
          Storage.promoteFailedToPending jobId start db with
      | abort =>
          simp only [Statement.step, hOutcome] at hStep
          cases hStep
      | proceed writes locks =>
          simp only [Statement.step, hOutcome] at hStep
          cases hStep
          exact hLinked.performAll
            (promoteFailedToPending_refers hOutcome)
  | replayJob jobId tenantId start =>
      exact hLinked.replay hStep
  | pruneFinishedJobs cutoff limit scan =>
      cases hStep
      exact hLinked.prune_finished
  | pruneDeadLetter cutoff limit scan =>
      cases hStep
      exact hLinked.prune_dead

theorem linked_of_reachable
    (hReach : statements.Reachable db) :
    Linked db := by
  apply hReach.invariant (I := Linked)
  · intro db hInit
    refine ⟨?_, ?_⟩
    · intro id r hRun
      rw [hInit.run?] at hRun
      cases hRun
    · intro jobId d hEntry
      rw [hInit.deadLetter?] at hEntry
      cases hEntry
  · intro db statement db' _ hLinked _ hStep
    exact hLinked.step hStep

------------------------------------------------------------
-- What Is Deleted
------------------------------------------------------------

/- The writes of a transaction delete no job and no run. -/
theorem kept_of_apply
    {result : Result}
    (hApply : db.apply result = some db') :
    (∀ id, (db.job? id).isSome → (db'.job? id).isSome) ∧
      ∀ id, (db.run? id).isSome →
        (db'.run? id).isSome := by
  cases result with
  | abort => cases hApply
  | proceed writes locks =>
      cases hApply
      refine ⟨?_, ?_⟩
      · intro id hSome
        rcases job?_performAll db writes id with
          hSame | ⟨row, hRow, _⟩
        · rw [hSame]
          exact hSome
        · rw [hRow]
          rfl
      · intro id hSome
        rcases run?_performAll db writes id with
          hSame | ⟨row, hRow, _⟩
        · rw [hSame]
          exact hSome
        · rw [hRow]
          rfl

/- Only the pruning statements delete jobs and runs. -/
theorem kept_of_step
    (hStep : statement.step db = some db')
    (hCutoff : statement.cutoff? = none) :
    (∀ id, (db.job? id).isSome → (db'.job? id).isSome) ∧
      ∀ id, (db.run? id).isSome →
        (db'.run? id).isSome := by
  cases statement with
  | call c pc start scan locked =>
      cases c with
      | replayJob jobId tenantId => cases hStep
      | _ => exact kept_of_apply hStep
  | promoteFailedToPending jobId start =>
      exact kept_of_apply hStep
  | replayJob jobId tenantId start =>
      rcases Option.bind_eq_some_iff.mp hStep with
        ⟨mid, hFirst, hSecond⟩
      rcases kept_of_apply hFirst with ⟨hJobs, hRuns⟩
      rcases kept_of_apply hSecond with ⟨hJobs', hRuns'⟩
      exact ⟨fun id hSome => hJobs' id (hJobs id hSome),
        fun id hSome => hRuns' id (hRuns id hSome)⟩
  | pruneFinishedJobs cutoff limit scan => cases hCutoff
  | pruneDeadLetter cutoff limit scan => cases hCutoff

/- What a prune of finished jobs deletes. -/
theorem expired_of_pruned_finished
    (hDoomed : id ∈ doomedJobs cutoff limit scan db)
    (hJob : db.job? id = some j) :
    Expired cutoff db j := by
  rcases exists_of_doomedJobs hDoomed with
    ⟨j', hJob', hFinished⟩
  rw [hJob] at hJob'
  cases hJob'
  exact .inl hFinished

/- What a prune of dead letters deletes. -/
theorem expired_of_pruned_dead
    (hDoomed : id ∈ doomedEntries cutoff limit scan db)
    (hJob : db.job? id = some j)
    (hDead : j.state = .dead) :
    Expired cutoff db j := by
  rcases exists_of_doomedEntries hDoomed with
    ⟨d, hEntry, hMoved⟩
  rw [← Db.id_of_job? hJob] at hEntry
  exact .inr ⟨hDead, d, hEntry, hMoved⟩

/- A job that a step deletes has expired. -/
theorem expired_of_deleted_job
    (hStep : statement.step db = some db')
    (hJob : db.job? id = some j)
    (hGone : db'.job? id = none) :
    ∃ cutoff, statement.cutoff? = some cutoff ∧
      Expired cutoff db j := by
  cases hCutoff : statement.cutoff? with
  | none =>
      have hKept :=
        (kept_of_step hStep hCutoff).1 id (by rw [hJob]; rfl)
      rw [hGone] at hKept
      cases hKept
  | some cutoff =>
      refine ⟨cutoff, rfl, ?_⟩
      cases statement with
      | pruneFinishedJobs cutoff' limit scan =>
          cases hCutoff
          cases hStep
          rw [job?_pruneFinishedJobs] at hGone
          split at hGone
          · rename_i hDoomed
            exact expired_of_pruned_finished hDoomed hJob
          · rw [hJob] at hGone
            cases hGone
      | pruneDeadLetter cutoff' limit scan =>
          cases hCutoff
          cases hStep
          rw [job?_pruneDeadLetter, hJob,
            Option.filter_eq_none_iff] at hGone
          have hBoth := hGone j rfl
          rw [Db.id_of_job? hJob] at hBoth
          simp only [Bool.not_eq_true', Bool.not_eq_false,
            Bool.and_eq_true, decide_eq_true_eq] at hBoth
          exact expired_of_pruned_dead hBoth.1 hJob hBoth.2
      | call | promoteFailedToPending | replayJob =>
          cases hCutoff

/- The job of a run that a step deletes has expired. -/
theorem expired_of_deleted_run
    {r : RunRow}
    (hLinked : Linked db)
    (hStep : statement.step db = some db')
    (hRun : db.run? id = some r)
    (hGone : db'.run? id = none) :
    ∃ cutoff, statement.cutoff? = some cutoff ∧
      ∃ j, db.job? r.jobId = some j ∧
        Expired cutoff db j := by
  rcases hLinked.runs id r hRun with ⟨j, hJob, _⟩
  cases hCutoff : statement.cutoff? with
  | none =>
      have hKept :=
        (kept_of_step hStep hCutoff).2 id (by rw [hRun]; rfl)
      rw [hGone] at hKept
      cases hKept
  | some cutoff =>
      refine ⟨cutoff, rfl, j, hJob, ?_⟩
      cases statement with
      | pruneFinishedJobs cutoff' limit scan =>
          cases hCutoff
          cases hStep
          rw [run?_pruneFinishedJobs, hRun,
            Option.filter_eq_none_iff] at hGone
          have hDoomed := hGone r rfl
          simp only [decide_eq_true_eq, not_not] at hDoomed
          exact expired_of_pruned_finished hDoomed hJob
      | pruneDeadLetter cutoff' limit scan =>
          cases hCutoff
          cases hStep
          rw [run?_pruneDeadLetter, hRun,
            Option.filter_eq_none_iff] at hGone
          have hDoomed := hGone r rfl
          simp only [decide_eq_true_eq, not_not] at hDoomed
          -- the entry keeps the job dead
          rcases exists_of_doomedEntries hDoomed with
            ⟨d, hEntry, _⟩
          rcases hLinked.deadLetters _ d hEntry with
            ⟨j', hJob', _, hDead⟩
          rw [hJob] at hJob'
          cases hJob'
          exact expired_of_pruned_dead hDoomed hJob hDead
      | call | promoteFailedToPending | replayJob =>
          cases hCutoff

/-
  Retention deletes what has expired, with its runs, and
  nothing is left that refers to a job that is gone.
-/
theorem retention_keeps_unfinished_work :
    (∀ db, statements.Reachable db →
      (∀ id r, db.run? id = some r →
        ∃ j, db.job? r.jobId = some j ∧
          j.tenantId = r.tenantId) ∧
        ∀ jobId d, db.deadLetter? jobId = some d →
          ∃ j, db.job? jobId = some j ∧
            j.tenantId = d.tenantId) ∧
      ∀ db statement db', statements.Reachable db →
        statements.step statement db = some db' →
          (∀ id j, db.job? id = some j →
            db'.job? id = none →
              ∃ cutoff, statement.cutoff? = some cutoff ∧
                Expired cutoff db j) ∧
            ∀ id r, db.run? id = some r →
              db'.run? id = none →
                ∃ cutoff, statement.cutoff? = some cutoff ∧
                  ∃ j, db.job? r.jobId = some j ∧
                    Expired cutoff db j := by
  refine ⟨?_, ?_⟩
  · intro db hReach
    have hLinked := linked_of_reachable hReach
    refine ⟨hLinked.runs, ?_⟩
    intro jobId d hEntry
    rcases hLinked.deadLetters jobId d hEntry with
      ⟨j, hJob, hTenant, _⟩
    exact ⟨j, hJob, hTenant⟩
  · intro db statement db' hReach hStep
    refine ⟨?_, ?_⟩
    · intro id j hJob hGone
      exact expired_of_deleted_job hStep hJob hGone
    · intro id r hRun hGone
      exact expired_of_deleted_run
        (linked_of_reachable hReach) hStep hRun hGone

/- A job that is cancelled and pruned. -/
theorem cancelled_job_is_pruned :
    ∃ db db' j, statements.Reachable db ∧
      statements.step
          (.pruneFinishedJobs 10 5 (fun id => id)) db =
        some db' ∧
      db.job? 1 = some j ∧ db'.job? 1 = none ∧
        Expired 10 db j := by
  have hInit : statements.init Sample.start.db :=
    ⟨rfl, rfl, rfl⟩
  rcases
    Machine.exists_reachable_of_run hInit
      [Statement.call (.insertJob (Sample.job 1)) 0 0
          (fun id => id) (fun _ => false),
        Statement.call (.cancelJob 1 1) 0 5
          (fun id => id) (fun _ => false)]
      (fun db =>
        ∃ j ∈ db.job? 1,
          (pruneFinishedJobs 10 5 (fun id => id) db).1.job?
              1 =
            none)
      (by decide +kernel)
  with ⟨db, hReach, j, hJob, hGone⟩
  have hStep :
      statements.step
          (.pruneFinishedJobs 10 5 (fun id => id)) db =
        some (pruneFinishedJobs 10 5 (fun id => id) db).1 :=
    rfl
  rcases (retention_keeps_unfinished_work.2 db _ _ hReach
      hStep).1 1 j hJob hGone with
    ⟨cutoff, hCutoff, hExpired⟩
  cases hCutoff
  exact ⟨db, _, j, hReach, hStep, hJob, hGone, hExpired⟩

end Storage

end Sluice
