import Sluice.Storage.DeadLetter

/-
  Runs and dead letters refer to jobs.

  The schema has no foreign keys: table `job_runs` lost its
  own when it was partitioned, and `dead_letter` never had
  one. What holds of the references is due to the statements
  alone. Here a statement takes effect at once.

  Key definitions include:
    * `Linked`
    * `Belongs` and `Refers`
    * `Db.apply`
    * `replay`

  Key theorems include:
    * `statement_refers`
    * `Linked.performAll`
    * `Linked.replay`
-/

------------------------------------------------------------
-- References
------------------------------------------------------------

namespace Sluice

namespace Storage

open Foundations ReadCommitted

/- Every run belongs to a job of its tenant. -/
def RunsLinked (db : Db) : Prop :=
  ∀ id r, db.run? id = some r → db.JobOf r.jobId r.tenantId

/-
  Every run belongs to a job of its tenant, and every dead
  letter to a dead one.
-/
structure Linked (db : Db) : Prop where
  runs : RunsLinked db
  deadLetters :
    ∀ jobId d, db.deadLetter? jobId = some d →
      ∃ j, db.job? jobId = some j ∧
        j.tenantId = d.tenantId ∧ j.state = .dead

/- What a write belongs to, in the database it is made from. -/
def Belongs (db : Db) : Write → Prop
| .insertJob row => db.job? row.id = none
| .updateJob row => db.JobOf row.id row.tenantId
| .insertRun row => db.JobOf row.jobId row.tenantId
| .updateRun row =>
    ∃ old, db.run? row.id = some old ∧
      row.jobId = old.jobId ∧ row.tenantId = old.tenantId
| .insertDeadLetter row => db.JobOf row.jobId row.tenantId
| .deleteDeadLetter _ => True

/-
  Besides, no dead job is changed, and only dead ones have
  an entry made.
-/
structure Refers (db : Db) (w : Write) : Prop where
  belongs : Belongs db w
  updateJob :
    ∀ row old, w = .updateJob row →
      db.job? row.id = some old → old.state ≠ .dead
  insertDeadLetter :
    ∀ row j, w = .insertDeadLetter row →
      db.job? row.jobId = some j → j.state = .dead

/- A statement that takes effect at once. -/
def Db.apply (db : Db) : Result → Option Db
| .proceed writes _ => some (postgres.performAll db writes)
| .abort => none

theorem Db.apply_eq_some
    {db db' : Db}
    {outcome : Result}
    (hApply : db.apply outcome = some db') :
    ∃ writes locks, outcome = .proceed writes locks ∧
      db' = postgres.performAll db writes := by
  cases outcome with
  | abort => cases hApply
  | proceed writes locks =>
      exact
        ⟨writes, locks, rfl, (Option.some.inj hApply).symm⟩

/- The transaction of `ReplayJob`, as a whole. -/
def replay
    (jobId tenantId : Uuid)
    (start : Time)
    (db : Db) :
    Option Db :=
  (db.apply (replayUpdate jobId tenantId start db)).bind
    (fun db' => db'.apply (replayDelete jobId db'))

------------------------------------------------------------
-- What Statements Refer To
------------------------------------------------------------

variable {call : Call}
variable {start : Time}
variable {db : Db}
variable {writes : List Write}
variable {locks : List RowKey}

theorem Call.closes_tenantId
    {r r' : RunRow}
    (hCloses : call.closes start r r') :
    r'.tenantId = r.tenantId := by
  rcases Call.finish_of_closes hCloses with
    ⟨state, now, error, hFinish⟩
  unfold RunRow.finish at hFinish
  rcases Option.map_eq_some_iff.mp hFinish with
    ⟨ms, _, hRow⟩
  subst hRow
  rfl

variable {pc : Nat}
variable {scan : Scan}
variable {locked : RowKey → Bool}
variable {db' : Db}

/- The run of a claim belongs to the claimed job. -/
theorem statement_insertRun
    {row : RunRow}
    (hOutcome :
      call.statement pc start scan locked db =
        .proceed writes locks)
    (hRun : .insertRun row ∈ writes) :
    db.JobOf row.jobId row.tenantId := by
  have hNew : call.newRun? = some row.id :=
    first_justified hOutcome _ hRun
  rcases Option.map_eq_some_iff.mp hNew with
    ⟨a, hClaim, _⟩
  have hShaped :
      Shaped
        ({ call := call, start := start, pc := pc,
           writes := [], locks := [] } : Sess) := by
    unfold Shaped
    split <;> simp
  have hWrites :=
    claimWrites_advance hShaped hOutcome a hClaim
  rcases hWrites with hNone | ⟨old, hJob, _, _, hClaimed⟩
  · have hEmpty : writes = [] := hNone
    rw [hEmpty] at hRun
    cases hRun
  · have hClaimed :
        writes =
          [.updateJob (old.claim a),
            .insertRun (RunRow.opened a (old.claim a))] :=
      hClaimed
    rw [hClaimed] at hRun
    have hRow :
        row = RunRow.opened a (old.claim a) := by
      simpa using hRun
    subst hRow
    have hId := Db.id_of_job? hJob
    rw [← hId] at hJob
    exact ⟨old, hJob, rfl⟩

/- Only dead jobs are moved to the dead letters. -/
theorem statement_insertDeadLetter
    {row : DeadLetter}
    (hOutcome :
      call.statement pc start scan locked db =
        .proceed writes locks)
    (hEntry : .insertDeadLetter row ∈ writes) :
    ∃ j, db.job? row.jobId = some j ∧
      j.tenantId = row.tenantId ∧ j.state = .dead := by
  rcases statement_copies hOutcome hEntry with
    ⟨⟨limit, rfl⟩, rfl, _, _⟩
  cases hOutcome
  rcases List.mem_map.mp hEntry with ⟨j, hj, hEq⟩
  cases hEq
  rcases mem_unmovedDeadJobs hj with ⟨hJob, hDead, _⟩
  exact ⟨j, hJob, rfl, hDead⟩

theorem statement_belongs
    (hOutcome :
      call.statement pc start scan locked db =
        .proceed writes locks) :
    ∀ w ∈ writes, Belongs db w := by
  intro w hw
  have hJustified := first_justified hOutcome w hw
  cases w with
  | insertJob row => exact hJustified.2.2
  | updateJob row =>
      rcases hJustified with ⟨_, old, hOld, hChange⟩
      exact ⟨old, hOld,
        (Call.changes_fixed hChange).tenantId.symm⟩
  | insertRun row => exact statement_insertRun hOutcome hw
  | updateRun row =>
      rcases hJustified with ⟨_, old, hOld, hCloses⟩
      exact ⟨old, hOld, (Call.closes_fixed hCloses).2.1,
        Call.closes_tenantId hCloses⟩
  | insertDeadLetter row =>
      rcases statement_insertDeadLetter hOutcome hw with
        ⟨j, hJob, hTenant, _⟩
      exact ⟨j, hJob, hTenant⟩
  | deleteDeadLetter jobId => trivial

/- Every statement but those of a replay. -/
theorem statement_refers
    (hReplay :
      ∀ jobId tenantId, call ≠ .replayJob jobId tenantId)
    (hOutcome :
      call.statement pc start scan locked db =
        .proceed writes locks) :
    ∀ w ∈ writes, Refers db w := by
  intro w hw
  refine ⟨statement_belongs hOutcome w hw, ?_, ?_⟩
  · rintro row old rfl hOld hDead
    rcases first_justified hOutcome _ hw with
      ⟨_, old', hOld', hChange⟩
    cases hOld.symm.trans hOld'
    rcases Call.replays_of_dead hChange hDead with
      ⟨tenantId, hCall, _⟩
    exact hReplay _ _ hCall
  · rintro row j rfl hJob
    rcases statement_insertDeadLetter hOutcome hw with
      ⟨j', hJob', _, hDead⟩
    cases hJob.symm.trans hJob'
    exact hDead

------------------------------------------------------------
-- Links Are Kept
------------------------------------------------------------

/- A job stays, with its tenant. -/
theorem job?_performAll_of_belongs
    {id : Uuid}
    {j : Job}
    (hBelongs : ∀ w ∈ writes, Belongs db w)
    (hJob : db.job? id = some j) :
    ∃ j', (postgres.performAll db writes).job? id =
        some j' ∧
      j'.tenantId = j.tenantId ∧
        (j' = j ∨ .updateJob j' ∈ writes) := by
  rcases job?_performAll db writes id with
    hSame | ⟨row, hRow, hUpdate | ⟨_, hNone⟩⟩
  · exact ⟨j, hSame.trans hJob, rfl, .inl rfl⟩
  · rcases hBelongs _ hUpdate with ⟨old, hOld, hTenant⟩
    rw [Db.id_of_job? hRow, hJob] at hOld
    cases hOld
    exact ⟨row, hRow, hTenant.symm, .inr hUpdate⟩
  · rw [hJob] at hNone
    cases hNone

/- A dead job stays dead. -/
theorem job?_performAll_of_refers
    {id : Uuid}
    {j : Job}
    (hRefers : ∀ w ∈ writes, Refers db w)
    (hJob : db.job? id = some j)
    (hDead : j.state = .dead) :
    (postgres.performAll db writes).job? id = some j := by
  rcases
    job?_performAll_of_belongs
      (fun w hw => (hRefers w hw).belongs) hJob
  with ⟨j', hJob', _, hSame | hUpdate⟩
  · rw [← hSame]
    exact hJob'
  · have hOld : db.job? j'.id = some j := by
      rw [Db.id_of_job? hJob']
      exact hJob
    exact absurd hDead
      ((hRefers _ hUpdate).updateJob _ j rfl hOld)

theorem RunsLinked.performAll
    (hRuns : RunsLinked db)
    (hBelongs : ∀ w ∈ writes, Belongs db w) :
    RunsLinked (postgres.performAll db writes) := by
  intro id r hRun
  have hBefore : db.JobOf r.jobId r.tenantId := by
    rcases run?_performAll db writes id with
      hSame | ⟨row, hRow, hUpdate | ⟨hInsert, _⟩⟩
    · rw [hSame] at hRun
      exact hRuns id r hRun
    · rw [hRow] at hRun
      cases hRun
      rcases hBelongs _ hUpdate with
        ⟨old, hOld, hJobId, hTenant⟩
      rw [hJobId, hTenant]
      exact hRuns _ old hOld
    · rw [hRow] at hRun
      cases hRun
      exact hBelongs _ hInsert
  rcases hBefore with ⟨j, hJob, hTenant⟩
  rcases job?_performAll_of_belongs hBelongs hJob with
    ⟨j', hJob', hSame, _⟩
  exact ⟨j', hJob', hSame.trans hTenant⟩

/- Jobs may go if their runs go with them. -/
theorem RunsLinked.prune
    {doomed : List Uuid}
    (hRuns : RunsLinked db)
    (hKept :
      ∀ id j, db.job? id = some j → id ∉ doomed →
        db'.job? id = some j)
    (hGone :
      ∀ id r, db'.run? id = some r →
        db.run? id = some r ∧ r.jobId ∉ doomed) :
    RunsLinked db' := by
  intro id r hRun
  rcases hGone id r hRun with ⟨hBefore, hStays⟩
  rcases hRuns id r hBefore with ⟨j, hJob, hTenant⟩
  exact ⟨j, hKept _ j hJob hStays, hTenant⟩

/- The writes of a statement keep every reference. -/
theorem Linked.performAll
    (hLinked : Linked db)
    (hRefers : ∀ w ∈ writes, Refers db w) :
    Linked (postgres.performAll db writes) where
  runs :=
    hLinked.runs.performAll
      (fun w hw => (hRefers w hw).belongs)
  deadLetters := by
    intro jobId d hEntry
    have hBefore :
        ∃ j, db.job? jobId = some j ∧
          j.tenantId = d.tenantId ∧ j.state = .dead := by
      rcases deadLetter?_performAll hEntry with
        hOld | hInsert
      · exact hLinked.deadLetters jobId d hOld
      · have hId : d.jobId = jobId :=
          Table.key_of_find? hEntry
        rw [← hId]
        have hRefers := hRefers _ hInsert
        rcases hRefers.belongs with ⟨j, hJob, hTenant⟩
        exact ⟨j, hJob, hTenant,
          hRefers.insertDeadLetter d j rfl hJob⟩
    rcases hBefore with ⟨j, hJob, hTenant, hDead⟩
    exact
      ⟨j, job?_performAll_of_refers hRefers hJob hDead,
        hTenant, hDead⟩

theorem Linked.statement
    (hLinked : Linked db)
    (hReplay :
      ∀ jobId tenantId, call ≠ .replayJob jobId tenantId)
    (hApply :
      db.apply (call.statement pc start scan locked db) =
        some db') :
    Linked db' := by
  rcases Db.apply_eq_some hApply with
    ⟨writes, locks, hOutcome, rfl⟩
  exact hLinked.performAll (statement_refers hReplay hOutcome)

------------------------------------------------------------
-- A Replay
------------------------------------------------------------

/- What a replay does: the job is pending, its entry gone. -/
theorem replay_eq_map
    (jobId tenantId : Uuid) :
    replay jobId tenantId start db =
      (matchJob jobId
          (fun j =>
            j.tenantId = tenantId && j.state = .dead)
          db).map
        (fun j =>
          { db with
            jobs := db.jobs.put (j.replay start)
            deadLetter := db.deadLetter.delete jobId }) := by
  unfold replay replayUpdate
  cases
      matchJob jobId
        (fun j => j.tenantId = tenantId && j.state = .dead)
        db with
  | none => rfl
  | some j =>
      change
        Db.apply
            { db with jobs := db.jobs.put (j.replay start) }
            (replayDelete jobId
              { db with
                jobs := db.jobs.put (j.replay start) }) =
          _
      unfold replayDelete
      split
      · rename_i hNone
        have hSame :
            db.deadLetter.delete jobId = db.deadLetter :=
          Table.delete_of_absent hNone
        rw [Option.map_some, hSame]
        rfl
      · rfl

theorem replay_eq_some
    {jobId tenantId : Uuid}
    (hReplay : replay jobId tenantId start db = some db') :
    ∃ j, db.job? jobId = some j ∧
      j.tenantId = tenantId ∧ j.state = .dead ∧
        db' =
          ({ db with
              jobs := db.jobs.put (j.replay start)
              deadLetter := db.deadLetter.delete jobId } :
            Db) := by
  rw [replay_eq_map] at hReplay
  rcases Option.map_eq_some_iff.mp hReplay with
    ⟨j, hMatch, hDb⟩
  rcases matchJob_eq_some_iff.mp hMatch with ⟨hJob, hGuard⟩
  simp only [Bool.and_eq_true, decide_eq_true_eq] at hGuard
  exact ⟨j, hJob, hGuard.1, hGuard.2, hDb.symm⟩

theorem Linked.replay
    {jobId tenantId : Uuid}
    (hLinked : Linked db)
    (hReplay :
      Storage.replay jobId tenantId start db = some db') :
    Linked db' := by
  rcases replay_eq_some hReplay with
    ⟨j, hJob, _, _, rfl⟩
  have hId := Db.id_of_job? hJob
  have hJobs :
      ∀ id, (db.jobs.put (j.replay start)).find? id =
        if id = jobId then some (j.replay start)
        else db.job? id := by
    intro id
    rw [Table.find?_put]
    by_cases hSame : id = jobId
    · have hKey : id = Keyed.key (j.replay start) :=
        hSame.trans hId.symm
      rw [if_pos hKey, if_pos hSame, hSame]
      change (db.job? jobId).map _ = _
      rw [hJob]
      rfl
    · have hKey : id ≠ Keyed.key (j.replay start) := by
        intro hKey
        exact hSame (hKey.trans hId)
      rw [if_neg hKey, if_neg hSame]
      rfl
  refine ⟨?_, ?_⟩
  · intro id r hRun
    rcases hLinked.runs id r hRun with
      ⟨old, hOld, hTenant⟩
    change ∃ j', (db.jobs.put (j.replay start)).find?
      r.jobId = some j' ∧ _
    rw [hJobs]
    by_cases hSame : r.jobId = jobId
    · rw [hSame, hJob] at hOld
      cases hOld
      rw [if_pos hSame]
      exact ⟨_, rfl, hTenant⟩
    · rw [if_neg hSame]
      exact ⟨old, hOld, hTenant⟩
  · intro id d hEntry
    change (db.deadLetter.delete jobId).find? id = _ at hEntry
    rw [Table.find?_delete] at hEntry
    split at hEntry
    · cases hEntry
    · rename_i hOther
      rcases hLinked.deadLetters id d hEntry with
        ⟨old, hOld, hTenant, hDead⟩
      refine ⟨old, ?_, hTenant, hDead⟩
      change (db.jobs.put (j.replay start)).find? id = _
      rw [hJobs, if_neg hOther]
      exact hOld

end Storage

end Sluice
