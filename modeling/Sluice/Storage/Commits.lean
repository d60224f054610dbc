import Sluice.Storage.Lifecycle

/-
  What a commit does to the rows of a job.

  Every pending write is justified against the committed
  rows, and stays so because the rows a transaction has
  written are locked.

  Key definitions include:
    * `Justified`
    * `ClaimWrites`
    * `Sound`

  Key theorems include:
    * `statement_justified`
    * `claimWrites_advance`
    * `sessions_sound`
-/

------------------------------------------------------------
-- Rows After Several Writes
------------------------------------------------------------

namespace Sluice

namespace Storage

open Foundations ReadCommitted

/- A jobs row is kept, or it is one that was written. -/
theorem job?_performAll
    (db : Db)
    (writes : List Write)
    (id : Uuid) :
    (postgres.performAll db writes).job? id = db.job? id ∨
      ∃ row, (postgres.performAll db writes).job? id =
          some row ∧
        (.updateJob row ∈ writes ∨
          (.insertJob row ∈ writes ∧
            db.job? id = none)) := by
  have hCases := postgres.performAll_look
    (fun db => db.job? id)
    (fun w row => w = .updateJob row)
    (fun w row => w = .insertJob row)
    ?_ db writes
  · simpa only [exists_eq_right] using hCases
  · intro db w
    have hFirst := Db.job?_perform db w id
    change (db.perform w).job? id = _ ∨
      ∃ row, (db.perform w).job? id = _ ∧ _
    cases w with
    | insertJob row =>
        simp only at hFirst
        split at hFirst
        · rename_i hNew
          exact .inr ⟨row, hFirst, .inr ⟨rfl, hNew.2⟩⟩
        · exact .inl hFirst
    | updateJob row =>
        simp only at hFirst
        split at hFirst
        · cases hOld : db.job? id with
          | none =>
              rw [hOld] at hFirst
              exact .inl hFirst
          | some old =>
              rw [hOld] at hFirst
              exact .inr ⟨row, hFirst, .inl rfl⟩
        · exact .inl hFirst
    | insertRun | updateRun | insertDeadLetter
    | deleteDeadLetter => exact .inl hFirst

/- A run is kept, or it is one that was written. -/
theorem run?_performAll
    (db : Db)
    (writes : List Write)
    (id : Uuid) :
    (postgres.performAll db writes).run? id = db.run? id ∨
      ∃ row, (postgres.performAll db writes).run? id =
          some row ∧
        (.updateRun row ∈ writes ∨
          (.insertRun row ∈ writes ∧
            db.run? id = none)) := by
  have hCases := postgres.performAll_look
    (fun db => db.run? id)
    (fun w row => w = .updateRun row)
    (fun w row => w = .insertRun row)
    ?_ db writes
  · simpa only [exists_eq_right] using hCases
  · intro db w
    have hFirst := Db.run?_perform db w id
    change (db.perform w).run? id = _ ∨
      ∃ row, (db.perform w).run? id = _ ∧ _
    cases w with
    | insertRun row =>
        simp only at hFirst
        split at hFirst
        · rename_i hNew
          exact .inr ⟨row, hFirst, .inr ⟨rfl, hNew.2⟩⟩
        · exact .inl hFirst
    | updateRun row =>
        simp only at hFirst
        split at hFirst
        · cases hOld : db.run? id with
          | none =>
              rw [hOld] at hFirst
              exact .inl hFirst
          | some old =>
              rw [hOld] at hFirst
              exact .inr ⟨row, hFirst, .inl rfl⟩
        · exact .inl hFirst
    | insertJob | updateJob | insertDeadLetter
    | deleteDeadLetter => exact .inl hFirst

------------------------------------------------------------
-- Justified Writes
------------------------------------------------------------

/-
  What stands behind a pending write: the call that made it,
  the lock that protects it and the committed row that it
  replaces.
-/
def Justified
    (db : Db)
    (e : Sess) :
    Write → Prop
| .insertJob row =>
    (∃ j, e.call = .insertJob j ∧ row = j.inserted) ∧
      .job row.id ∈ e.locks ∧ db.job? row.id = none
| .updateJob row =>
    .job row.id ∈ e.locks ∧
      ∃ old, db.job? row.id = some old ∧
        e.call.changes e.start old row
| .insertRun row => e.call.newRun? = some row.id
| .updateRun row =>
    .run row.id ∈ e.locks ∧
      ∃ old, db.run? row.id = some old ∧
        e.call.closes e.start old row
| .insertDeadLetter _ =>
    ∃ limit, e.call = .moveToDeadLetter limit
| .deleteDeadLetter jobId =>
    (∃ tenantId, e.call = .replayJob jobId tenantId) ∧
      .deadLetter jobId ∈ e.locks

/- All pending writes of a session are justified. -/
def AllJustified (db : Db) (e : Sess) : Prop :=
  ∀ w ∈ e.writes, Justified db e w

variable {db : Db}
variable {e f : Sess}
variable {locked : RowKey → Bool}
variable {writes : List Write}
variable {locks : List RowKey}

/- More locks keep a write justified. -/
theorem Justified.mono
    {w : Write}
    (hJustified : Justified db e w)
    (hCall : f.call = e.call)
    (hStart : f.start = e.start)
    (hLocks : e.locks ⊆ f.locks) :
    Justified db f w := by
  cases w with
  | insertJob row =>
      rcases hJustified with ⟨hInsert, hLock, hNone⟩
      refine ⟨?_, hLocks hLock, hNone⟩
      rw [hCall]
      exact hInsert
  | updateJob row =>
      rcases hJustified with ⟨hLock, hChange⟩
      refine ⟨hLocks hLock, ?_⟩
      rw [hCall, hStart]
      exact hChange
  | insertRun row =>
      unfold Justified
      rw [hCall]
      exact hJustified
  | updateRun row =>
      rcases hJustified with ⟨hLock, hCloses⟩
      refine ⟨hLocks hLock, ?_⟩
      rw [hCall, hStart]
      exact hCloses
  | insertDeadLetter row =>
      unfold Justified
      rw [hCall]
      exact hJustified
  | deleteDeadLetter jobId =>
      rcases hJustified with ⟨hDelete, hLock⟩
      refine ⟨?_, hLocks hLock⟩
      rw [hCall]
      exact hDelete

/- A jobs row that a session has not locked is kept by it. -/
theorem job?_performAll_of_unlocked
    (hAll : AllJustified db e)
    {id : Uuid}
    (hUnlocked : .job id ∉ e.locks) :
    (postgres.performAll db e.writes).job? id =
      db.job? id := by
  rcases job?_performAll db e.writes id with
    hSame | ⟨row, hRow, hWrite⟩
  · exact hSame
  · have hId : row.id = id := Db.id_of_job? hRow
    rcases hWrite with hUpdate | ⟨hInsert, _⟩
    · exact absurd (hId ▸ (hAll _ hUpdate).1) hUnlocked
    · exact absurd (hId ▸ (hAll _ hInsert).2.1) hUnlocked

/- A run that a session has not locked is kept by it. -/
theorem run?_performAll_of_unlocked
    (hAll : AllJustified db e)
    {id : Uuid}
    {old : RunRow}
    (hOld : db.run? id = some old)
    (hUnlocked : .run id ∉ e.locks) :
    (postgres.performAll db e.writes).run? id =
      some old := by
  rcases run?_performAll db e.writes id with
    hSame | ⟨row, hRow, hWrite⟩
  · rw [hSame, hOld]
  · have hId : row.id = id := Db.id_of_run? hRow
    rcases hWrite with hUpdate | ⟨_, hNone⟩
    · exact absurd (hId ▸ (hAll _ hUpdate).1) hUnlocked
    · rw [hOld] at hNone
      cases hNone

/-
  The commit of a session with other locks keeps a write
  justified.
-/
theorem Justified.frame
    {w : Write}
    (hJustified : Justified db e w)
    (hOther : AllJustified db f)
    (hLocks : ∀ k ∈ f.locks, k ∉ e.locks) :
    Justified (postgres.performAll db f.writes) e w := by
  have hUnlocked : ∀ k ∈ e.locks, k ∉ f.locks :=
    fun k he hf => hLocks k hf he
  cases w with
  | insertJob row =>
      rcases hJustified with ⟨hCall, hLock, hNone⟩
      refine ⟨hCall, hLock, ?_⟩
      rw [job?_performAll_of_unlocked hOther
        (hUnlocked _ hLock)]
      exact hNone
  | updateJob row =>
      rcases hJustified with ⟨hLock, old, hOld, hChange⟩
      refine ⟨hLock, old, ?_, hChange⟩
      rw [job?_performAll_of_unlocked hOther
        (hUnlocked _ hLock)]
      exact hOld
  | insertRun row => exact hJustified
  | updateRun row =>
      rcases hJustified with ⟨hLock, old, hOld, hCloses⟩
      exact ⟨hLock, old,
        run?_performAll_of_unlocked hOther hOld
          (hUnlocked _ hLock),
        hCloses⟩
  | insertDeadLetter row => exact hJustified
  | deleteDeadLetter jobId => exact hJustified

------------------------------------------------------------
-- Statements Make Justified Writes
------------------------------------------------------------

section

variable {call : Call}
variable {start : Time}
variable {db : Db}
variable {writes : List Write}
variable {locks : List RowKey}

theorem matchJob_eq_some_iff
    {jobId : Uuid}
    {p : Job → Bool}
    {j : Job} :
    matchJob jobId p db = some j ↔
      db.job? jobId = some j ∧ p j = true := by
  unfold matchJob
  exact Option.filter_eq_some_iff

variable {f : RunRow → Option RunRow}
variable {locked : RowKey → Bool}

/- Every row of a mapped list comes from a row of the list. -/
theorem exists_of_mem_mapM
    {rows new : List RunRow}
    (hMap : rows.mapM f = some new) :
    ∀ row ∈ new, ∃ old ∈ rows, f old = some row := by
  induction rows generalizing new with
  | nil =>
      cases hMap
      intro row hRow
      cases hRow
  | cons r rows ih =>
      rw [List.mapM_cons] at hMap
      rcases Option.bind_eq_some_iff.mp hMap with
        ⟨r', hHead, hRest⟩
      rcases Option.bind_eq_some_iff.mp hRest with
        ⟨rest, hTail, hNew⟩
      cases hNew
      intro row hRow
      rcases List.mem_cons.mp hRow with hFirst | hLater
      · subst hFirst
        exact ⟨r, List.mem_cons_self, hHead⟩
      · rcases ih hTail row hLater with ⟨old, hOld, hEq⟩
        exact ⟨old, List.mem_cons_of_mem _ hOld, hEq⟩

/- The runs that an update writes, and the rows they replace. -/
theorem updateRuns_closes
    {p : RunRow → Bool}
    {runs : List RunRow}
    (hCloses :
      ∀ old new, p old = true → f old = some new →
        call.closes start old new)
    (hRuns : updateRuns p f db = some runs) :
    ∀ row ∈ runs, ∃ old, db.run? row.id = some old ∧
      call.closes start old row := by
  intro row hRow
  rcases exists_of_mem_mapM hRuns row hRow with
    ⟨old, hOld, hNew⟩
  have hFilter := List.mem_filter.mp hOld
  have hClose := hCloses old row hFilter.2 hNew
  refine ⟨old, ?_, hClose⟩
  rw [(Call.closes_fixed hClose).1]
  exact Table.find?_of_mem hFilter.1

/- A session that has run one statement. -/
def afterFirst
    (call : Call)
    (start : Time)
    (writes : List Write)
    (locks : List RowKey) :
    Sess :=
  (Session.opened call start).advance writes locks

theorem noRows_justified
    (hResult : noRows = .proceed writes locks) :
    AllJustified db
      (afterFirst call start writes locks) := by
  cases hResult
  intro w hw
  cases hw

theorem jobResult_justified
    {old new : Job}
    (hOld : db.job? old.id = some old)
    (hChange : call.changes start old new)
    (hResult : jobResult new = .proceed writes locks) :
    AllJustified db
      (afterFirst call start writes locks) := by
  cases hResult
  intro w hw
  rw [List.mem_singleton.mp hw]
  rw [← (Call.changes_fixed hChange).id] at hOld
  exact ⟨List.mem_cons_self, old, hOld, hChange⟩

theorem claim_justified
    {a : ClaimArgs}
    {claimed : Job × RunRow}
    (hClaim : call.claimArgs? = some a)
    (hSQL : claimSQL a locked db = some claimed)
    (hResult : claimResult claimed = .proceed writes locks) :
    AllJustified db
      (afterFirst call start writes locks) := by
  unfold claimSQL at hSQL
  rcases Option.map_eq_some_iff.mp hSQL with
    ⟨j, hMatch, hClaimed⟩
  subst hClaimed
  rcases matchJob_eq_some_iff.mp hMatch with ⟨hJob, hGuard⟩
  have hId : j.id = a.jobId := Db.id_of_job? hJob
  have hPending : j.state = .pending := by
    simp only [Bool.and_eq_true, decide_eq_true_eq]
      at hGuard
    exact hGuard.1
  have hChange : call.changes start j (j.claim a) := by
    cases call <;>
      simp only [Call.claimArgs?, Option.some.injEq,
        reduceCtorEq] at hClaim
    · subst hClaim
      exact ⟨hId, hPending, rfl⟩
    · subst hClaim
      exact ⟨hId, hPending, rfl⟩
  cases hResult
  intro w hw
  rcases List.mem_cons.mp hw with hFirst | hSecond
  · subst hFirst
    refine ⟨List.mem_cons_self, j, ?_, hChange⟩
    rw [(Call.changes_fixed hChange).id, hId]
    exact hJob
  · rw [List.mem_singleton.mp hSecond]
    change call.claimArgs?.map _ = some a.runId
    rw [hClaim]
    rfl

theorem endClaim_justified
    {jobId runId : Uuid}
    {old new : Job}
    (hOld : db.job? old.id = some old)
    (hChange : call.changes start old new)
    (hCloses :
      ∀ r r', r.jobId = jobId → r.id = runId →
        f r = some r' → call.closes start r r')
    (hResult :
      endClaim jobId runId new f db =
        .proceed writes locks) :
    AllJustified db
      (afterFirst call start writes locks) := by
  unfold endClaim at hResult
  split at hResult
  · cases hResult
  · rename_i runs hRuns
    have hFound :
        ∀ r r',
          (decide (r.jobId = jobId) &&
              decide (r.id = runId)) = true →
            f r = some r' → call.closes start r r' := by
      intro r r' hGuard hNew
      simp only [Bool.and_eq_true, decide_eq_true_eq]
        at hGuard
      exact hCloses r r' hGuard.1 hGuard.2 hNew
    have hClosed := updateRuns_closes hFound hRuns
    cases hResult
    intro w hw
    rcases List.mem_cons.mp hw with hFirst | hRun
    · subst hFirst
      rw [← (Call.changes_fixed hChange).id] at hOld
      exact ⟨List.mem_cons_self, old, hOld, hChange⟩
    · rcases List.mem_map.mp hRun with ⟨row, hRow, hEq⟩
      subst hEq
      refine ⟨List.mem_cons_of_mem _ ?_, hClosed row hRow⟩
      exact List.mem_map.mpr ⟨row, hRow, rfl⟩

theorem runResult_justified
    {p : RunRow → Bool}
    {runs : List RunRow}
    (hCloses :
      ∀ old new, p old = true → f old = some new →
        call.closes start old new)
    (hRuns : updateRuns p f db = some runs)
    (hResult : runResult runs = .proceed writes locks) :
    AllJustified db
      (afterFirst call start writes locks) := by
  intro w hw
  rcases mem_runResult hResult w hw with
    ⟨row, hRow, hEq, hLock⟩
  subst hEq
  exact ⟨hLock, updateRuns_closes hCloses hRuns row hRow⟩

theorem promoted_justified
    {rows : List Job}
    {release : Job → Job}
    (hChange :
      ∀ j ∈ rows, db.job? j.id = some j ∧
        call.changes start j (release j))
    (hResult :
      promoted (rows.map release) =
        .proceed writes locks) :
    AllJustified db
      (afterFirst call start writes locks) := by
  cases hResult
  intro w hw
  simp only [afterFirst, Session.advance_writes,
    Session.opened, List.nil_append, List.map_map,
    List.mem_map] at hw
  rcases hw with ⟨j, hj, hEq⟩
  subst hEq
  rcases hChange j hj with ⟨hJob, hMove⟩
  refine ⟨?_, j, ?_, hMove⟩
  · simp only [afterFirst, Session.advance_locks,
      Session.opened, List.nil_append, List.map_map,
      List.mem_map]
    exact ⟨j, hj, rfl⟩
  · rw [(Call.changes_fixed hMove).id]
    exact hJob

/- The jobs that a promotion selects. -/
theorem mem_dueJobs
    {state : JobState}
    {limit : Nat}
    {scan : Scan}
    {j : Job}
    (hMem : j ∈ dueJobs state limit start scan locked db) :
    db.job? j.id = some j ∧ j.state = state ∧
      j.runAt ≤ start := by
  unfold dueJobs at hMem
  have hSorted := List.mem_of_mem_take hMem
  rw [List.mem_insertionSort] at hSorted
  have hFilter := List.mem_filter.mp hSorted
  have hRow : j ∈ db.jobs.rows :=
    (List.mem_insertionSort _).mp hFilter.1
  have hGuard := hFilter.2
  simp only [Bool.and_eq_true, decide_eq_true_eq]
    at hGuard
  exact ⟨Table.find?_of_mem hRow, hGuard.1.1, hGuard.1.2⟩

/- The row that a guarded update finds and replaces. -/
theorem matchJob_row
    {jobId : Uuid}
    {p : Job → Bool}
    {old : Job}
    (hMatch : matchJob jobId p db = some old) :
    db.job? old.id = some old ∧ old.id = jobId ∧
      p old = true := by
  rcases matchJob_eq_some_iff.mp hMatch with ⟨hJob, hGuard⟩
  have hId : old.id = jobId := Db.id_of_job? hJob
  refine ⟨?_, hId, hGuard⟩
  rw [hId]
  exact hJob

theorem matchClaim_row
    {jobId token : Uuid}
    {old : Job}
    (hMatch : matchClaim jobId token db = some old) :
    db.job? old.id = some old ∧ old.id = jobId ∧
      old.claimToken = some token ∧
        old.inFlight = true := by
  rcases matchJob_row hMatch with ⟨hJob, hId, hGuard⟩
  simp only [Bool.and_eq_true, decide_eq_true_eq] at hGuard
  exact ⟨hJob, hId, hGuard⟩

section Statements

variable {jobId runId token tenantId : Uuid}
variable {scan : Scan}
variable {locked : RowKey → Bool}

theorem insertJob_justified
    {j : Job}
    (hOutcome : insertJob j db = .proceed writes locks) :
    AllJustified db
      (afterFirst (.insertJob j) start writes locks) := by
  unfold insertJob at hOutcome
  split at hOutcome
  · cases hOutcome
  · rename_i hAbsent
    have hNone : db.job? j.id = none := by
      simpa using hAbsent
    split at hOutcome
    · cases hOutcome
      intro w hw
      rw [List.mem_singleton.mp hw]
      exact ⟨⟨j, rfl, rfl⟩, List.mem_cons_self, hNone⟩
    · split at hOutcome
      · cases hOutcome
      · cases hOutcome
        intro w hw
        rw [List.mem_singleton.mp hw]
        exact ⟨⟨j, rfl, rfl⟩, List.mem_cons_self, hNone⟩

theorem tryClaim_justified
    {a : ClaimArgs}
    (hOutcome :
      tryClaim a locked db = .proceed writes locks) :
    AllJustified db
      (afterFirst (.tryClaim a) start writes locks) := by
  unfold tryClaim at hOutcome
  split at hOutcome
  · exact noRows_justified hOutcome
  · rename_i hSQL
    exact claim_justified rfl hSQL hOutcome

theorem lockTenant_justified
    (hOutcome :
      lockTenant tenantId db = .proceed writes locks) :
    AllJustified db
      (afterFirst call start writes locks) := by
  unfold lockTenant at hOutcome
  split at hOutcome
  · cases hOutcome
    intro w hw
    cases hw
  · exact noRows_justified hOutcome

theorem countRunning_justified
    {limit : Int}
    (hOutcome :
      countRunning tenantId limit db =
        .proceed writes locks) :
    AllJustified db
      (afterFirst call start writes locks) := by
  unfold countRunning at hOutcome
  split at hOutcome
  · cases hOutcome
  · exact noRows_justified hOutcome

theorem claimLimited_justified
    {a : ClaimArgs}
    {limit : Int}
    (hOutcome :
      claimLimited a locked db = .proceed writes locks) :
    AllJustified db
      (afterFirst (.tryClaimLimited a tenantId limit) start
        writes locks) := by
  unfold claimLimited at hOutcome
  split at hOutcome
  · cases hOutcome
  · rename_i hSQL
    exact claim_justified rfl hSQL hOutcome

theorem extendDeadline_justified
    {deadline : Time}
    (hOutcome :
      extendDeadline jobId token deadline db =
        .proceed writes locks) :
    AllJustified db
      (afterFirst (.extendDeadline jobId token deadline)
        start writes locks) := by
  unfold extendDeadline at hOutcome
  split at hOutcome
  · exact noRows_justified hOutcome
  · rename_i j hMatch
    rcases matchClaim_row hMatch with
      ⟨hJob, hId, hToken, hInFlight⟩
    exact jobResult_justified hJob
      ⟨hId, hToken, hInFlight, rfl⟩ hOutcome

variable {now : Time}
variable {limit : Nat}

theorem completeJob_justified
    (hOutcome :
      completeJob jobId runId token now db =
        .proceed writes locks) :
    AllJustified db
      (afterFirst (.completeJob jobId runId token now) start
        writes locks) := by
  unfold completeJob at hOutcome
  split at hOutcome
  · exact noRows_justified hOutcome
  · rename_i j hMatch
    rcases matchClaim_row hMatch with
      ⟨hJob, hId, hToken, hInFlight⟩
    refine endClaim_justified hJob
      ⟨hId, hToken, hInFlight, rfl⟩ ?_ hOutcome
    intro r r' hRunJob hRun hNew
    exact ⟨hRunJob, hRun, hNew⟩

theorem failJob_justified
    {errMsg : String}
    {nextRunAt : Option Time}
    (hOutcome :
      failJob jobId runId token errMsg nextRunAt now db =
        .proceed writes locks) :
    AllJustified db
      (afterFirst
        (.failJob jobId runId token errMsg nextRunAt now)
        start writes locks) := by
  unfold failJob at hOutcome
  split at hOutcome
  · exact noRows_justified hOutcome
  · rename_i j hMatch
    rcases matchClaim_row hMatch with
      ⟨hJob, hId, hToken, hInFlight⟩
    refine endClaim_justified hJob
      ⟨hId, hToken, hInFlight, rfl⟩ ?_ hOutcome
    intro r r' hRunJob hRun hNew
    refine ⟨hRunJob, hRun, _, ?_, hNew⟩
    unfold Job.fail
    split <;> simp

theorem promoteDueScheduled_justified
    (hOutcome :
      promoteDueScheduled limit start scan locked db =
        .proceed writes locks) :
    AllJustified db
      (afterFirst (.promoteDueScheduled limit) start writes
        locks) := by
  refine promoted_justified ?_ hOutcome
  intro j hj
  rcases mem_dueJobs hj with ⟨hJob, hState, hDue⟩
  exact ⟨hJob, hState, hDue, rfl⟩

theorem promoteReadyFailed_justified
    (hOutcome :
      promoteReadyFailed limit start scan locked db =
        .proceed writes locks) :
    AllJustified db
      (afterFirst (.promoteReadyFailed limit) start writes
        locks) := by
  refine promoted_justified ?_ hOutcome
  intro j hj
  rcases mem_dueJobs hj with ⟨hJob, hState, hDue⟩
  exact ⟨hJob, hState, hDue, rfl⟩

theorem closeStaleRuns_justified
    (hOutcome :
      closeStaleRuns jobId now db = .proceed writes locks) :
    AllJustified db
      (afterFirst (.requeueStaleJob jobId now) start writes
        locks) := by
  unfold closeStaleRuns at hOutcome
  split at hOutcome
  · cases hOutcome
  · rename_i hRuns
    refine runResult_justified ?_ hRuns hOutcome
    intro old new hOpen hNew
    exact ⟨hOpen, hNew⟩

theorem requeueJob_justified
    (hOutcome :
      requeueJob jobId start db = .proceed writes locks) :
    AllJustified db
      (afterFirst (.requeueStaleJob jobId now) start writes
        locks) := by
  unfold requeueJob at hOutcome
  split at hOutcome
  · exact noRows_justified hOutcome
  · rename_i j hMatch
    rcases matchJob_row hMatch with ⟨hJob, hId, hStale⟩
    exact jobResult_justified hJob ⟨hId, hStale, rfl⟩
      hOutcome

theorem moveToDeadLetter_justified
    (hOutcome :
      moveToDeadLetter limit start scan db =
        .proceed writes locks) :
    AllJustified db
      (afterFirst (.moveToDeadLetter limit) start writes
        locks) := by
  cases hOutcome
  intro w hw
  rcases List.mem_map.mp hw with ⟨j, _, hEq⟩
  subst hEq
  exact ⟨_, rfl⟩

theorem cancelJob_justified
    (hOutcome :
      cancelJob jobId tenantId start db =
        .proceed writes locks) :
    AllJustified db
      (afterFirst (.cancelJob jobId tenantId) start writes
        locks) := by
  unfold cancelJob at hOutcome
  split at hOutcome
  · exact noRows_justified hOutcome
  · rename_i j hMatch
    rcases matchJob_row hMatch with ⟨hJob, hId, hGuard⟩
    simp only [Bool.and_eq_true, decide_eq_true_eq]
      at hGuard
    exact jobResult_justified hJob
      ⟨hId, hGuard.1, hGuard.2, rfl⟩ hOutcome

theorem replayUpdate_justified
    (hOutcome :
      replayUpdate jobId tenantId start db =
        .proceed writes locks) :
    AllJustified db
      (afterFirst (.replayJob jobId tenantId) start writes
        locks) := by
  unfold replayUpdate at hOutcome
  split at hOutcome
  · cases hOutcome
  · rename_i j hMatch
    rcases matchJob_row hMatch with ⟨hJob, hId, hGuard⟩
    simp only [Bool.and_eq_true, decide_eq_true_eq]
      at hGuard
    exact jobResult_justified hJob
      ⟨hId, hGuard.1, hGuard.2, rfl⟩ hOutcome

theorem replayDelete_justified
    (hOutcome :
      replayDelete jobId db = .proceed writes locks) :
    AllJustified db
      (afterFirst (.replayJob jobId tenantId) start writes
        locks) := by
  unfold replayDelete at hOutcome
  split at hOutcome
  · exact noRows_justified hOutcome
  · cases hOutcome
    intro w hw
    rw [List.mem_singleton.mp hw]
    exact ⟨⟨_, rfl⟩, List.mem_cons_self⟩

theorem forceFailJob_justified
    (hOutcome :
      forceFailJob jobId db = .proceed writes locks) :
    AllJustified db
      (afterFirst (.forceFail jobId) start writes
        locks) := by
  unfold forceFailJob at hOutcome
  split at hOutcome
  · cases hOutcome
  · rename_i j hMatch
    rcases matchJob_row hMatch with ⟨hJob, hId, hGuard⟩
    exact jobResult_justified hJob ⟨hId, hGuard, rfl⟩
      hOutcome

theorem forceFailRuns_justified
    (hOutcome :
      forceFailRuns jobId start db =
        .proceed writes locks) :
    AllJustified db
      (afterFirst (.forceFail jobId) start writes
        locks) := by
  unfold forceFailRuns at hOutcome
  split at hOutcome
  · cases hOutcome
  · rename_i hRuns
    refine runResult_justified ?_ hRuns hOutcome
    intro old new hOpen hNew
    exact ⟨hOpen, hNew⟩

/- Every statement makes writes that are justified. -/
theorem first_justified
    {pc : Nat}
    (hOutcome :
      call.statement pc start scan locked db =
        .proceed writes locks) :
    AllJustified db
      (afterFirst call start writes locks) := by
  unfold Call.statement at hOutcome
  split at hOutcome
  · exact insertJob_justified hOutcome
  · exact tryClaim_justified hOutcome
  · exact lockTenant_justified hOutcome
  · exact countRunning_justified hOutcome
  · exact claimLimited_justified hOutcome
  · exact extendDeadline_justified hOutcome
  · exact completeJob_justified hOutcome
  · exact failJob_justified hOutcome
  · exact promoteDueScheduled_justified hOutcome
  · exact promoteReadyFailed_justified hOutcome
  · exact closeStaleRuns_justified hOutcome
  · exact requeueJob_justified hOutcome
  · exact moveToDeadLetter_justified hOutcome
  · exact cancelJob_justified hOutcome
  · exact replayUpdate_justified hOutcome
  · exact replayDelete_justified hOutcome
  · exact forceFailJob_justified hOutcome
  · exact forceFailRuns_justified hOutcome
  · cases hOutcome

end Statements

/- A statement of a session keeps its writes justified. -/
theorem statement_justified
    {e : Sess}
    {scan : Scan}
    (hAll : AllJustified db e)
    (hOutcome :
      e.call.statement e.pc e.start scan locked db =
        .proceed writes locks) :
    AllJustified db (e.advance writes locks) := by
  intro w hw
  rcases List.mem_append.mp hw with hOld | hNew
  · exact (hAll w hOld).mono rfl rfl
      (List.subset_append_left _ _)
  · exact (first_justified hOutcome w hNew).mono rfl rfl
      (List.subset_append_right _ _)

end

------------------------------------------------------------
-- Sessions In Progress
------------------------------------------------------------

/-
  The pending writes of a claim: none, or the claimed row
  and the run it opens.
-/
def ClaimWrites (db : Db) (e : Sess) : Prop :=
  ∀ a, e.call.claimArgs? = some a →
    e.writes = [] ∨
      ∃ old, db.job? a.jobId = some old ∧
        old.state = .pending ∧ .job a.jobId ∈ e.locks ∧
          e.writes =
            [.updateJob (old.claim a),
              .insertRun (RunRow.opened a (old.claim a))]

theorem claimSQL_writes
    {a : ClaimArgs}
    {claimed : Job × RunRow}
    (hSQL : claimSQL a locked db = some claimed)
    (hResult : claimResult claimed = .proceed writes locks) :
    ∃ old, db.job? a.jobId = some old ∧
      old.state = .pending ∧ .job a.jobId ∈ locks ∧
        writes =
          [.updateJob (old.claim a),
            .insertRun (RunRow.opened a (old.claim a))] := by
  unfold claimSQL at hSQL
  rcases Option.map_eq_some_iff.mp hSQL with
    ⟨j, hMatch, hClaimed⟩
  subst hClaimed
  cases hResult
  rcases matchJob_row hMatch with ⟨hJob, hId, hGuard⟩
  simp only [Bool.and_eq_true, decide_eq_true_eq] at hGuard
  rw [hId] at hJob
  refine ⟨j, hJob, hGuard.1, ?_, rfl⟩
  rw [← hId]
  exact List.mem_cons_self

/- A statement of a claim writes nothing or the claim. -/
theorem claimWrites_advance
    {scan : Scan}
    (hShaped : Shaped e)
    (hOutcome :
      e.call.statement e.pc e.start scan locked db =
        .proceed writes locks) :
    ClaimWrites db (e.advance writes locks) := by
  rcases e with ⟨call, start, pc, old, held⟩
  intro a hClaim
  cases call <;>
    simp only [Session.advance_call, Call.claimArgs?,
      Option.some.injEq, reduceCtorEq] at hClaim
  case tryClaim b =>
    subst hClaim
    cases pc with
    | zero =>
        have hNone : old = [] := hShaped
        subst hNone
        simp only [Call.statement, tryClaim] at hOutcome
        split at hOutcome
        · cases hOutcome
          exact .inl rfl
        · rename_i hSQL
          rcases claimSQL_writes hSQL hOutcome with
            ⟨j, hJob, hPending, hLock, hWrites⟩
          exact .inr ⟨j, hJob, hPending,
            List.mem_append_right _ hLock, hWrites⟩
    | succ pc => cases hOutcome
  case tryClaimLimited b tenantId limit =>
    subst hClaim
    rcases pc with _ | _ | _ | pc
    · have hNone : old = [] := hShaped
      subst hNone
      simp only [Call.statement, lockTenant] at hOutcome
      split at hOutcome
      · cases hOutcome
        exact .inl rfl
      · cases hOutcome
        exact .inl rfl
    · have hNone : old = [] := hShaped
      subst hNone
      simp only [Call.statement, countRunning] at hOutcome
      split at hOutcome
      · cases hOutcome
      · cases hOutcome
        exact .inl rfl
    · have hNone : old = [] := hShaped
      subst hNone
      simp only [Call.statement, claimLimited] at hOutcome
      split at hOutcome
      · cases hOutcome
      · rename_i hSQL
        rcases claimSQL_writes hSQL hOutcome with
          ⟨j, hJob, hPending, hLock, hWrites⟩
        exact .inr ⟨j, hJob, hPending,
          List.mem_append_right _ hLock, hWrites⟩
    · cases hOutcome

/- What holds of every session in progress. -/
structure Sound (db : Db) (e : Sess) : Prop where
  shaped : Shaped e
  justified : AllJustified db e
  claimWrites : ClaimWrites db e

theorem sound_opened
    (db : Db)
    (call : Call)
    (clock : Time) :
    Sound db (Session.opened call clock) where
  shaped := by
    cases call <;> rfl
  justified := by
    intro w hw
    cases hw
  claimWrites := by
    intro a _
    exact .inl rfl

/- The commit of a session with other locks keeps a claim. -/
theorem ClaimWrites.frame
    (hClaim : ClaimWrites db e)
    (hOther : AllJustified db f)
    (hLocks : ∀ k ∈ f.locks, k ∉ e.locks) :
    ClaimWrites (postgres.performAll db f.writes) e := by
  intro a ha
  rcases hClaim a ha with
    hNone | ⟨old, hOld, hPending, hLock, hWrites⟩
  · exact .inl hNone
  · refine .inr ⟨old, ?_, hPending, hLock, hWrites⟩
    rw [job?_performAll_of_unlocked hOther
      (fun hf => hLocks _ hf hLock)]
    exact hOld

/- A statement keeps a session sound. -/
theorem Sound.advance
    {scan : Scan}
    (hSound : Sound db e)
    (hOutcome :
      e.call.statement e.pc e.start scan locked db =
        .proceed writes locks) :
    Sound db (e.advance writes locks) where
  shaped := shaped_advance hSound.shaped hOutcome
  justified := statement_justified hSound.justified hOutcome
  claimWrites := claimWrites_advance hSound.shaped hOutcome

/- The commit of a session with other locks keeps it sound. -/
theorem Sound.frame
    (hSound : Sound db e)
    (hOther : Sound db f)
    (hLocks : ∀ k ∈ f.locks, k ∉ e.locks) :
    Sound (postgres.performAll db f.writes) e where
  shaped := hSound.shaped
  justified := fun w hw =>
    (hSound.justified w hw).frame hOther.justified hLocks
  claimWrites :=
    hSound.claimWrites.frame hOther.justified hLocks

variable {ok : Sys → Step → Prop}
variable {s : Sys}

/- Whatever the database held at first. -/
theorem sessions_sound_from
    {init : Db → Prop}
    (hReach : (postgres.machine init).ReachableWith ok s) :
    ∀ e ∈ s.sessions, Sound s.db e := by
  refine Engine.sessions_invariant sound_opened ?_ ?_ hReach
  · intro db e scan locked writes locks hSound hOutcome
    have hView := statement_view hSound.shaped scan locked db
    exact hSound.advance (hView.symm.trans hOutcome)
  · intro db e f hSound hOther hLocks
    exact hSound.frame hOther hLocks

theorem sessions_sound
    (hReach : sluice.ReachableWith ok s) :
    ∀ e ∈ s.sessions, Sound s.db e :=
  sessions_sound_from hReach

end Storage

end Sluice
