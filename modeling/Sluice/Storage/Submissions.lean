import Sluice.Storage.Insertion
import Sluice.Storage.Queries
import Sluice.Storage.Retention

/-
  What stays of a submission while the statements on jobs run.

  A row keeps the columns it was submitted with until it is
  deleted, and the unique index on the tenant and the
  idempotency key holds after every statement.

  Key definitions include:
    * `Statement.inserts?`
    * `deletedRows`

  Key theorems include:
    * `Statement.step_job`
    * `OneJobPerKey.step`
    * `finished_of_deleted`
-/

------------------------------------------------------------
-- Rows Across A Statement
------------------------------------------------------------

namespace Sluice

namespace Storage

open Foundations ReadCommitted

variable {db db' : Db}
variable {j : Job}
variable {id : Uuid}
variable {statement : Statement}

theorem job?_insert
    (id : Uuid)
    (hNew : db.job? j.id = none) :
    (db.perform (.insertJob j.inserted)).job? id =
      if id = j.id then some j.inserted
      else db.job? id := by
  rw [Db.job?_perform]
  by_cases hId : id = j.id
  · subst hId
    exact (if_pos ⟨rfl, hNew⟩).trans (if_pos rfl).symm
  · rw [if_neg hId]
    exact if_neg (fun hBoth => hId hBoth.1)

/- The job that a statement inserts. -/
def Statement.inserts? : Statement → Option Job
| .call (.insertJob j) _ _ _ _ => some j
| _ => none

theorem origin_of_statement
    {call : Call}
    {pc : Nat}
    {start : Time}
    {scan : Scan}
    {locked : RowKey → Bool}
    (hApply :
      db.apply (call.statement pc start scan locked db) =
        some db')
    (hJob : db'.job? id = some j) :
    Origin db
      (Statement.call call pc start scan locked).inserts? id
      j := by
  rcases Db.apply_eq_some hApply with
    ⟨writes, locks, hOutcome, rfl⟩
  rcases job?_performAll db writes id with
    hSame | ⟨row, hRow, hUpdate | ⟨hInsert, hNone⟩⟩
  · exact .kept j (hSame.symm.trans hJob) rfl
  · cases hJob.symm.trans hRow
    rcases first_justified hOutcome _ hUpdate with
      ⟨_, old, hOld, hChange⟩
    rw [Db.id_of_job? hRow] at hOld
    exact .kept old hOld (Call.changes_submission hChange)
  · cases hJob.symm.trans hRow
    rcases (first_justified hOutcome _ hInsert).1 with
      ⟨new, hCall, rfl⟩
    have hCall : call = .insertJob new := hCall
    subst hCall
    cases pc with
    | succ pc => cases hOutcome
    | zero =>
        exact .inserted new rfl rfl
          (Db.id_of_job? (j := new.inserted) hRow) hNone
          (insertJob_proceeds hOutcome).2.2

theorem Statement.step_job
    (hStep : statement.step db = some db')
    (hJob : db'.job? id = some j) :
    Origin db statement.inserts? id j := by
  cases statement with
  | call c pc start scan locked =>
      refine origin_of_statement ?_ hJob
      cases c with
      | replayJob jobId tenantId => cases hStep
      | _ => exact hStep
  | promoteFailedToPending jobId start =>
      rcases Db.apply_eq_some hStep with
        ⟨writes, locks, hOutcome, rfl⟩
      unfold Storage.promoteFailedToPending at hOutcome
      split at hOutcome
      · cases hOutcome
        exact .kept j hJob rfl
      · rename_i old hMatch
        cases hOutcome
        have hPerform :
            (db.perform
                (.updateJob (old.releaseFailed start))).job?
              id = some j := hJob
        rw [Db.job?_perform] at hPerform
        dsimp only at hPerform
        split at hPerform
        · rename_i hId
          rcases Option.map_eq_some_iff.mp hPerform with
            ⟨row, _, rfl⟩
          have hRow := (matchJob_row hMatch).1
          rw [show old.id = id from hId.symm] at hRow
          exact .kept old hRow rfl
        · exact .kept j hPerform rfl
  | replayJob jobId tenantId start =>
      rcases replay_eq_some hStep with
        ⟨old, hOld, _, _, rfl⟩
      have hPut :
          (db.jobs.put (old.replay start)).find? id =
            some j := hJob
      rw [Table.find?_put] at hPut
      split at hPut
      · rename_i hId
        rcases Option.map_eq_some_iff.mp hPut with
          ⟨row, _, rfl⟩
        rw [← Db.id_of_job? hOld] at hOld
        rw [show old.id = id from hId.symm] at hOld
        exact .kept old hOld rfl
      · exact .kept j hPut rfl
  | pruneFinishedJobs cutoff limit scan =>
      cases hStep
      rw [job?_pruneFinishedJobs] at hJob
      split at hJob
      · cases hJob
      · exact .kept j hJob rfl
  | pruneDeadLetter cutoff limit scan =>
      cases hStep
      rw [job?_pruneDeadLetter,
        Option.filter_eq_some_iff] at hJob
      exact .kept j hJob.1 rfl

------------------------------------------------------------
-- The Unique Index
------------------------------------------------------------

theorem OneJobPerKey.step
    (hUnique : OneJobPerKey db)
    (hStep : statement.step db = some db') :
    OneJobPerKey db' :=
  hUnique.of_origins
    (fun _ _ hJob => Statement.step_job hStep hJob)

/- The row of a key is what its lookup returns. -/
theorem getJobByIdempotencyKey_eq_some
    {tenantId : Uuid}
    {key : String}
    {scan : Scan}
    (hFound :
      getJobByIdempotencyKey tenantId key scan db =
        some j) :
    db.job? j.id = some j ∧ HoldsKey tenantId key j := by
  have hMem := List.mem_of_mem_head? hFound
  have hRow :=
    List.mem_filter.mp ((List.mem_insertionSort _).mp hMem)
  have hHolds := hRow.2
  simp only [Bool.and_eq_true, decide_eq_true_eq] at hHolds
  exact ⟨Table.find?_of_mem hRow.1, hHolds⟩

theorem getJobByIdempotencyKey_isSome
    {tenantId : Uuid}
    {key : String}
    (scan : Scan)
    (hJob : db.job? id = some j)
    (hHolds : HoldsKey tenantId key j) :
    (getJobByIdempotencyKey tenantId key scan db).isSome := by
  cases hFound :
      getJobByIdempotencyKey tenantId key scan db with
  | some found => rfl
  | none =>
      have hEmpty := List.head?_eq_none_iff.mp hFound
      have hMem :
          j ∈ db.jobs.select
            (fun j =>
              j.tenantId = tenantId &&
                j.idempotencyKey = some key)
            (fun j => scan j.id) := by
        refine (List.mem_insertionSort _).mpr
          (List.mem_filter.mpr
            ⟨Table.mem_of_find? hJob, ?_⟩)
        simp [hHolds.1, hHolds.2]
      rw [hEmpty] at hMem
      cases hMem

/- The rows that a statement has deleted. -/
def deletedRows (db db' : Db) : List Job :=
  db.jobs.rows.filter (fun j => (db'.job? j.id).isNone)

theorem mem_deletedRows_iff {j : Job} :
    j ∈ deletedRows db db' ↔
      db.job? j.id = some j ∧ db'.job? j.id = none := by
  unfold deletedRows
  rw [List.mem_filter, Option.isNone_iff_eq_none]
  constructor
  · rintro ⟨hRow, hGone⟩
    exact ⟨Table.find?_of_mem hRow, hGone⟩
  · rintro ⟨hRow, hGone⟩
    exact ⟨Table.mem_of_find? hRow, hGone⟩

/- A row keeps what was submitted, or it is deleted. -/
theorem kept_or_deleted
    (hStep : statement.step db = some db')
    (hJob : db.job? id = some j) :
    (∃ row, db'.job? id = some row ∧
        row.submission = j.submission) ∨
      j ∈ deletedRows db db' := by
  cases hAfter : db'.job? id with
  | none =>
      have hId := Db.id_of_job? hJob
      subst hId
      exact .inr (mem_deletedRows_iff.mpr ⟨hJob, hAfter⟩)
  | some row =>
      cases Statement.step_job hStep hAfter with
      | kept old hOld hSame =>
          cases hJob.symm.trans hOld
          exact .inl ⟨row, rfl, hSame⟩
      | inserted _ _ _ _ hNone _ =>
          rw [hJob] at hNone
          cases hNone

/- Only rows of finished jobs are deleted. -/
theorem finished_of_deleted
    (hStep : statement.step db = some db')
    (hDeleted : j ∈ deletedRows db db') :
    j.state = .succeeded ∨ j.state = .cancelled ∨
      j.state = .dead := by
  rcases mem_deletedRows_iff.mp hDeleted with
    ⟨hJob, hGone⟩
  rcases expired_of_deleted_job hStep hJob hGone with
    ⟨cutoff, _, ⟨hFinished, _⟩ | ⟨hDead, _⟩⟩
  · rcases hFinished with hSucceeded | hCancelled
    · exact .inl hSucceeded
    · exact .inr (.inl hCancelled)
  · exact .inr (.inr hDead)

end Storage

end Sluice
