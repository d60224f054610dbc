import Sluice.Storage.Retention

/-
  Runs and dead letters carry the tenant of their job.

  A replay is two statements, and a dead letter may come
  back between them, so a dead letter may outlive its job.
  The tenants agree all the same, because a new job gets an
  identifier that was used nowhere.

  Key definitions include:
    * `Owned`

  Key theorems include:
    * `Owned.performAll`
    * `Owned.statement` and `Owned.replay`
    * `Owned.prune_finished` and `Owned.prune_dead`
-/

------------------------------------------------------------
-- Owned Rows
------------------------------------------------------------

namespace Sluice

namespace Storage

open Foundations ReadCommitted

structure Owned (db : Db) : Prop where
  runs : RunsLinked db
  deadLetters :
    ∀ jobId d j, db.deadLetter? jobId = some d →
      db.job? jobId = some j → j.tenantId = d.tenantId

/- The job that a call inserts. -/
def Call.newJob? : Call → Option Uuid
| .insertJob j => some j.id
| _ => none

variable {db db' : Db}
variable {writes : List Write}
variable {locks : List RowKey}

theorem Db.initial.owned
    (hInit : db.initial) :
    Owned db where
  runs := by
    intro id r hRun
    rw [hInit.run?] at hRun
    cases hRun
  deadLetters := by
    intro jobId d j hEntry
    rw [hInit.deadLetter?] at hEntry
    cases hEntry

/- Only jobs, runs and dead letters count. -/
theorem Owned.congr
    (hOwned : Owned db)
    (hJobs : db'.jobs = db.jobs)
    (hRuns : db'.jobRuns = db.jobRuns)
    (hEntries : db'.deadLetter = db.deadLetter) :
    Owned db' where
  runs := by
    intro id r
    unfold Db.run? Db.JobOf Db.job?
    rw [hJobs, hRuns]
    exact hOwned.runs id r
  deadLetters := by
    intro jobId d j
    unfold Db.deadLetter? Db.job?
    rw [hJobs, hEntries]
    exact hOwned.deadLetters jobId d j

------------------------------------------------------------
-- Statements
------------------------------------------------------------

/- No job is inserted under a dead letter. -/
theorem Owned.performAll
    (hOwned : Owned db)
    (hBelongs : ∀ w ∈ writes, Belongs db w)
    (hNew :
      ∀ row, .insertJob row ∈ writes →
        db.deadLetter? row.id = none) :
    Owned (postgres.performAll db writes) where
  runs := hOwned.runs.performAll hBelongs
  deadLetters := by
    intro jobId d j' hEntry hJob'
    have hSame :
        ∀ j, db.job? jobId = some j →
          j'.tenantId = j.tenantId := by
      intro j hJob
      rcases job?_performAll_of_belongs hBelongs hJob with
        ⟨row, hRow, hTenant, _⟩
      rw [hJob'] at hRow
      cases hRow
      exact hTenant
    rcases deadLetter?_performAll hEntry with
      hBefore | hInsert
    · cases hJob : db.job? jobId with
      | some j =>
          exact (hSame j hJob).trans
            (hOwned.deadLetters jobId d j hBefore hJob)
      | none =>
          rcases job?_performAll db writes jobId with
            hStays | ⟨row, hRow, hUpdate | ⟨hAdd, _⟩⟩
          · rw [hStays, hJob] at hJob'
            cases hJob'
          · rcases hBelongs _ hUpdate with ⟨old, hOld, _⟩
            rw [Db.id_of_job? hRow, hJob] at hOld
            cases hOld
          · have hNone := hNew row hAdd
            rw [Db.id_of_job? hRow, hBefore] at hNone
            cases hNone
    · have hId : d.jobId = jobId := Table.key_of_find? hEntry
      rcases hBelongs _ hInsert with ⟨j, hJob, hTenant⟩
      rw [hId] at hJob
      exact (hSame j hJob).trans hTenant

theorem Owned.statement
    (hOwned : Owned db)
    (call : Call)
    (pc : Nat)
    (start : Time)
    (scan : Scan)
    (locked : RowKey → Bool)
    (hNew :
      ∀ id, call.newJob? = some id →
        db.deadLetter? id = none)
    (hApply :
      db.apply (call.statement pc start scan locked db) =
        some db') :
    Owned db' := by
  rcases Db.apply_eq_some hApply with
    ⟨writes, locks, hOutcome, rfl⟩
  apply hOwned.performAll (statement_belongs hOutcome)
  intro row hAdd
  apply hNew
  rcases first_justified hOutcome _ hAdd with
    ⟨⟨j, hCall, hRow⟩, _⟩
  have hCall : call = .insertJob j := hCall
  rw [hCall, hRow]
  rfl

theorem Owned.promote_failed
    {jobId : Uuid}
    {start : Time}
    (hOwned : Owned db)
    (hApply :
      db.apply (promoteFailedToPending jobId start db) =
        some db') :
    Owned db' := by
  rcases Db.apply_eq_some hApply with
    ⟨writes, locks, hOutcome, rfl⟩
  apply hOwned.performAll
  · intro w hw
    exact (promoteFailedToPending_refers hOutcome w hw).belongs
  · intro row hAdd
    unfold promoteFailedToPending at hOutcome
    split at hOutcome
    · cases hOutcome
      cases hAdd
    · cases hOutcome
      cases List.mem_singleton.mp hAdd

theorem Owned.replay
    {jobId tenantId : Uuid}
    {start : Time}
    (hOwned : Owned db)
    (hReplay :
      Storage.replay jobId tenantId start db = some db') :
    Owned db' := by
  have hNew :
      ∀ mid : Db, ∀ id,
        (Call.replayJob jobId tenantId).newJob? = some id →
          mid.deadLetter? id = none := by
    intro mid id hNone
    cases hNone
  rcases Option.bind_eq_some_iff.mp hReplay with
    ⟨mid, hUpdate, hDelete⟩
  have hMid : Owned mid :=
    hOwned.statement (.replayJob jobId tenantId) 0 start
      (fun k => k) (fun _ => false) (hNew db) hUpdate
  exact hMid.statement (.replayJob jobId tenantId) 1 start
    (fun k => k) (fun _ => false) (hNew mid) hDelete

theorem Owned.prune_finished
    {cutoff : Time}
    {limit : Nat}
    {scan : Scan}
    (hOwned : Owned db) :
    Owned (pruneFinishedJobs cutoff limit scan db).1 where
  runs :=
    hOwned.runs.prune job?_pruneFinishedJobs_of_kept
      run?_of_pruneFinishedJobs
  deadLetters := by
    intro jobId d j hEntry hJob
    rw [job?_pruneFinishedJobs] at hJob
    split at hJob
    · cases hJob
    · exact hOwned.deadLetters jobId d j hEntry hJob

theorem Owned.prune_dead
    {cutoff : Time}
    {limit : Nat}
    {scan : Scan}
    (hOwned : Owned db) :
    Owned (pruneDeadLetter cutoff limit scan db).1 where
  runs :=
    hOwned.runs.prune job?_pruneDeadLetter_of_kept
      run?_of_pruneDeadLetter
  deadLetters := by
    intro jobId d j hEntry hJob
    rw [job?_pruneDeadLetter,
      Option.filter_eq_some_iff] at hJob
    exact hOwned.deadLetters jobId d j
      (deadLetter?_of_pruneDeadLetter jobId d hEntry).1
      hJob.1

/- The partitions of `job_runs` may go as a whole. -/
theorem Owned.retain_runs
    (hOwned : Owned db)
    (keep : RunRow → Bool) :
    Owned { db with jobRuns := db.jobRuns.retain keep } where
  runs := by
    intro id r hRun
    have hRun : (db.jobRuns.retain keep).find? id = some r :=
      hRun
    rw [Table.find?_retain, Option.filter_eq_some_iff] at hRun
    exact hOwned.runs id r hRun.1
  deadLetters := hOwned.deadLetters

end Storage

end Sluice
