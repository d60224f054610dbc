import Sluice.Storage.Fencing

/-
  What the calls that end an execution write.

  The open runs of a job are to be those of its current
  claim. While they are, a statement of `CompleteJob`,
  `FailJob`, `RequeueStaleJob` or a force-fail leaves pending
  writes of few shapes: nothing, or the end of a claim along
  with the end of its run.

  Key definitions include:
    * `openRuns` and `Claimant`
    * `RunsMatch`
    * `EndsExecution`
    * `RunWrites`

  Key theorems include:
    * `RunsMatch.openRuns_of_token`
    * `runWrites_advance`
-/

------------------------------------------------------------
-- Runs And Tokens
------------------------------------------------------------

namespace Sluice

namespace Storage

open Foundations ReadCommitted

/- The runs of a job that have not finished. -/
def openRuns (db : Db) (jobId : Uuid) : List RunRow :=
  db.jobRuns.rows.filter (openRun jobId)

/- A claim of the job that has committed. -/
def Claimant
    (history : List Entry)
    (jobId : Uuid)
    (a : ClaimArgs) :
    Prop :=
  ∃ c ∈ history, c.call.claimArgs? = some a ∧
    claims jobId a.token c = true

/- The job is in flight and its deadline has passed. -/
def expired
    (db : Db)
    (jobId : Uuid)
    (now : Time) :
    Bool :=
  (db.job? jobId).any (Job.stale now)

/-
  The open runs are those of the current claims, one for
  each, and no run that is open or succeeded has an error.
-/
structure RunsMatch
    (db : Db)
    (history : List Entry) : Prop where
  running : ∀ jobId token,
    currentToken db jobId = some token →
      ∃ a, Claimant history jobId a ∧ a.token = token ∧
        (∃ r, db.run? a.runId = some r ∧
          openRun jobId r = true) ∧
          ∀ runId r, db.run? runId = some r →
            openRun jobId r = true → runId = a.runId
  resting : ∀ runId r, db.run? runId = some r →
    r.finishedAt = none →
      ∃ token, currentToken db r.jobId = some token
  open_error : ∀ runId r, db.run? runId = some r →
    r.finishedAt = none → r.error = none
  succeeded_error : ∀ runId r, db.run? runId = some r →
    r.state = .succeeded → r.error = none

theorem openRun_iff
    {jobId : Uuid}
    {r : RunRow} :
    openRun jobId r = true ↔
      r.jobId = jobId ∧ r.finishedAt = none := by
  simp [openRun]

section

variable {db : Db}
variable {history : List Entry}
variable {jobId : Uuid}

/- The one open run of a job with a current token. -/
theorem RunsMatch.openRuns_of_token
    (hMatch : RunsMatch db history)
    {token : Uuid}
    (hToken : currentToken db jobId = some token) :
    ∃ a r, Claimant history jobId a ∧ a.token = token ∧
      db.run? a.runId = some r ∧ openRun jobId r = true ∧
        openRuns db jobId = [r] := by
  rcases hMatch.running jobId token hToken with
    ⟨a, hClaimant, hSame, ⟨r, hRun, hOpen⟩, hOnly⟩
  exact ⟨a, r, hClaimant, hSame, hRun, hOpen,
    Table.filter_eq_singleton hRun hOpen hOnly⟩

/- A job without a token has no open run. -/
theorem RunsMatch.openRuns_of_none
    (hMatch : RunsMatch db history)
    (hNone : ∀ token, currentToken db jobId ≠ some token) :
    openRuns db jobId = [] := by
  apply Table.filter_eq_nil
  intro runId r hRun
  cases hOpen : openRun jobId r with
  | false => rfl
  | true =>
      rcases openRun_iff.mp hOpen with ⟨hJob, hFinished⟩
      rcases hMatch.resting runId r hRun hFinished with
        ⟨token, hToken⟩
      rw [hJob] at hToken
      exact absurd hToken (hNone token)

/- All open runs of a job are the same run. -/
theorem RunsMatch.open_unique
    (hMatch : RunsMatch db history)
    {r r' : RunRow}
    (hRun : db.run? r.id = some r)
    (hOpen : openRun jobId r = true)
    (hRun' : db.run? r'.id = some r')
    (hOpen' : openRun jobId r' = true) :
    r.id = r'.id := by
  rcases openRun_iff.mp hOpen with ⟨hJob, hFinished⟩
  rcases hMatch.resting r.id r hRun hFinished with
    ⟨token, hToken⟩
  rw [hJob] at hToken
  rcases hMatch.running jobId token hToken with
    ⟨a, _, _, _, hOnly⟩
  rw [hOnly r.id r hRun hOpen, hOnly r'.id r' hRun' hOpen']

end

/- A commit that touches neither tokens nor runs. -/
theorem RunsMatch.of_same
    {db db' : Db}
    {history : List Entry}
    (hMatch : RunsMatch db history)
    (c : Entry)
    (hTokens :
      ∀ jobId, currentToken db' jobId =
        currentToken db jobId)
    (hRuns : ∀ runId, db'.run? runId = db.run? runId) :
    RunsMatch db' (c :: history) := by
  constructor
  · intro jobId token hToken
    rw [hTokens] at hToken
    rcases hMatch.running jobId token hToken with
      ⟨a, ⟨c', hc', hClaims⟩, hSame, hRun, hOnly⟩
    simp only [hRuns]
    exact ⟨a, ⟨c', List.mem_cons_of_mem _ hc', hClaims⟩,
      hSame, hRun, hOnly⟩
  · intro runId r hRun hFinished
    rw [hRuns] at hRun
    rw [hTokens]
    exact hMatch.resting runId r hRun hFinished
  · intro runId r hRun
    rw [hRuns] at hRun
    exact hMatch.open_error runId r hRun
  · intro runId r hRun
    rw [hRuns] at hRun
    exact hMatch.succeeded_error runId r hRun

------------------------------------------------------------
-- Sessions That End An Execution
------------------------------------------------------------

/- A finished version of a run. -/
structure Closed (r r' : RunRow) : Prop where
  same_id : r'.id = r.id
  finished : r'.finishedAt ≠ none
  error : r'.state = .succeeded → r'.error = r.error

/- The session has locked the row of the job. -/
structure HoldsJob
    (db : Db)
    (e : Sess)
    (jobId : Uuid)
    (j : Job) : Prop where
  row : db.job? jobId = some j
  lock : .job jobId ∈ e.locks

/- The session has locked an open run of the job. -/
structure HoldsRun
    (db : Db)
    (e : Sess)
    (jobId : Uuid)
    (r : RunRow) : Prop where
  row : db.run? r.id = some r
  is_open : openRun jobId r = true
  lock : .run r.id ∈ e.locks

/-
  The session's writes take the job's token and finish its
  open run.
-/
def EndsExecution
    (db : Db)
    (e : Sess)
    (jobId : Uuid) :
    Prop :=
  ∃ j j' r r', HoldsJob db e jobId j ∧
    j.claimToken ≠ none ∧ j'.id = jobId ∧
      j'.claimToken = none ∧ HoldsRun db e jobId r ∧
        Closed r r' ∧
          (e.writes = [.updateJob j', .updateRun r'] ∨
            e.writes = [.updateRun r', .updateJob j'])

/-
  What the calls that can end an execution have pending. The
  first statement of a requeue has closed the run of an
  expired job, or nothing.
-/
def RunWrites (db : Db) (e : Sess) : Prop :=
  match e.call, e.pc with
  | .completeJob jobId _ _ _, 1 =>
      e.writes = [] ∨ EndsExecution db e jobId
  | .failJob jobId _ _ _ _ _, 1 =>
      e.writes = [] ∨ EndsExecution db e jobId
  | .requeueStaleJob jobId _, 1 =>
      (expired db jobId e.start = false ∧ e.writes = []) ∨
        (expired db jobId e.start = true ∧
          ∃ r r', HoldsRun db e jobId r ∧ Closed r r' ∧
            e.writes = [.updateRun r'])
  | .requeueStaleJob jobId _, 2 =>
      e.writes = [] ∨ EndsExecution db e jobId
  | .forceFail jobId, 1 =>
      ∃ j, HoldsJob db e jobId j ∧
        e.writes = [.updateJob j.forceFail]
  | .forceFail jobId, 2 =>
      EndsExecution db e jobId ∨
        ∃ j, HoldsJob db e jobId j ∧
          j.claimToken = none ∧
            e.writes = [.updateJob j.forceFail]
  | _, _ => True

theorem closed_of_finish
    {r r' : RunRow}
    {state : JobState}
    {now : Time}
    {error : Option String}
    (hFinish : r.finish state now error = some r')
    (hError : state = .succeeded → error = r.error) :
    Closed r r' := by
  have hFixed := RunRow.finish_fixed hFinish
  constructor
  · exact hFixed.1
  · rw [hFixed.2.2.2.1]
    simp
  · intro hSucceeded
    rw [hFixed.2.2.2.2.2]
    exact hError (hFixed.2.2.2.2.1.symm.trans hSucceeded)

/- An update that finds one run writes that run. -/
theorem updateRuns_singleton
    {db : Db}
    {p : RunRow → Bool}
    {f : RunRow → Option RunRow}
    {r : RunRow}
    {runs : List RunRow}
    (hFilter : db.jobRuns.rows.filter p = [r])
    (hRuns : updateRuns p f db = some runs) :
    ∃ r', f r = some r' ∧ runs = [r'] := by
  unfold updateRuns at hRuns
  rw [hFilter] at hRuns
  cases hNew : f r with
  | none =>
      simp [List.mapM_cons, hNew] at hRuns
  | some r' =>
      simp [List.mapM_cons, hNew] at hRuns
      exact ⟨r', rfl, hRuns.symm⟩

theorem updateRuns_nil
    {db : Db}
    {p : RunRow → Bool}
    {f : RunRow → Option RunRow}
    {runs : List RunRow}
    (hFilter : db.jobRuns.rows.filter p = [])
    (hRuns : updateRuns p f db = some runs) :
    runs = [] := by
  unfold updateRuns at hRuns
  rw [hFilter] at hRuns
  cases hRuns
  rfl

section

variable {db : Db}
variable {e : Sess}
variable {jobId : Uuid}
variable {writes : List Write}
variable {locks : List RowKey}

/- Further statements keep what a session holds. -/
theorem HoldsJob.advance
    {j : Job}
    (hHolds : HoldsJob db e jobId j) :
    HoldsJob db (e.advance writes locks) jobId j :=
  ⟨hHolds.row, List.mem_append_left _ hHolds.lock⟩

theorem HoldsRun.advance
    {r : RunRow}
    (hHolds : HoldsRun db e jobId r) :
    HoldsRun db (e.advance writes locks) jobId r :=
  ⟨hHolds.row, hHolds.is_open,
    List.mem_append_left _ hHolds.lock⟩

/-
  A worker's report ends the execution when the run it names
  is the open one.
-/
theorem endClaim_ends
    {runId : Uuid}
    {j j' : Job}
    {r : RunRow}
    {f : RunRow → Option RunRow}
    (hNone : e.writes = [])
    (hJob : db.job? jobId = some j)
    (hToken : j.claimToken ≠ none)
    (hSame : j'.id = j.id)
    (hCleared : j'.claimToken = none)
    (hRun : db.run? runId = some r)
    (hOpen : openRun jobId r = true)
    (hClosed : ∀ r', f r = some r' → Closed r r')
    (hResult :
      endClaim jobId runId j' f db =
        .proceed writes locks) :
    EndsExecution db (e.advance writes locks) jobId := by
  have hId : j.id = jobId := Db.id_of_job? hJob
  have hRunId : r.id = runId := Db.id_of_run? hRun
  have hFilter :
      db.jobRuns.rows.filter
          (fun r =>
            decide (r.jobId = jobId) &&
              decide (r.id = runId)) =
        [r] := by
    refine Table.filter_eq_singleton hRun ?_ ?_
    · simp [(openRun_iff.mp hOpen).1, hRunId]
    · intro k r' hRow hMeets
      simp only [Bool.and_eq_true, decide_eq_true_eq]
        at hMeets
      exact (Db.id_of_run? hRow).symm.trans hMeets.2
  unfold endClaim at hResult
  split at hResult
  · cases hResult
  · rename_i runs hRuns
    rcases updateRuns_singleton hFilter hRuns with
      ⟨r', hNew, hOne⟩
    subst hOne
    cases hResult
    have hClose := hClosed r' hNew
    refine ⟨j, j', r, r', ⟨hJob, ?_⟩, hToken,
      hSame.trans hId, hCleared, ⟨?_, hOpen, ?_⟩, hClose, ?_⟩
    · rw [← hId, ← hSame]
      exact List.mem_append_right _ List.mem_cons_self
    · rw [hRunId]
      exact hRun
    · rw [← hClose.same_id]
      apply List.mem_append_right _
      exact List.mem_cons_of_mem _ List.mem_cons_self
    · rw [Session.advance_writes, hNone]
      exact .inl rfl

end

------------------------------------------------------------
-- Statements
------------------------------------------------------------

/- The job, run and token of a worker's report. -/
def Call.report? : Call → Option (Uuid × Uuid × Uuid)
| .completeJob jobId runId token _ =>
    some (jobId, runId, token)
| .failJob jobId runId token _ _ _ =>
    some (jobId, runId, token)
| _ => none

section

variable {db : Db}
variable {history : List Entry}
variable {clock : Time}
variable {e : Sess}
variable {scan : Scan}
variable {locked : RowKey → Bool}
variable {writes : List Write}
variable {locks : List RowKey}
variable {jobId : Uuid}

/- A job is in flight exactly while it has a token. -/
theorem inFlight_iff_token
    (hRows :
      ∀ id j, db.job? id = some j → j.RowOk clock)
    {j : Job}
    (hJob : db.job? jobId = some j) :
    j.inFlight = true ↔
      ∃ token, currentToken db jobId = some token := by
  have hOk := hRows jobId j hJob
  rw [hOk.inFlight_iff, ← hOk.claimToken,
    Option.isSome_iff_exists]
  simp only [currentToken, hJob, Option.bind_some]

/- The statements that close the open runs of a job. -/
theorem closeRuns_cases
    (hMatch : RunsMatch db history)
    {f : RunRow → Option RunRow}
    {runs : List RunRow}
    (hRuns : updateRuns (openRun jobId) f db = some runs)
    (hResult : runResult runs = .proceed writes locks) :
    ((∀ token, currentToken db jobId ≠ some token) ∧
        writes = []) ∨
      ∃ r r' token, currentToken db jobId = some token ∧
        db.run? r.id = some r ∧ openRun jobId r = true ∧
          f r = some r' ∧ writes = [.updateRun r'] ∧
            .run r'.id ∈ locks := by
  cases hToken : currentToken db jobId with
  | none =>
      have hNil := hMatch.openRuns_of_none
        (by
          intro token hSome
          cases hToken.symm.trans hSome)
      have hNone := updateRuns_nil hNil hRuns
      subst hNone
      cases hResult
      exact .inl ⟨by simp, rfl⟩
  | some token =>
      rcases hMatch.openRuns_of_token hToken with
        ⟨a, r, _, _, hRun, hOpen, hOne⟩
      rcases updateRuns_singleton hOne hRuns with
        ⟨r', hNew, hSingle⟩
      subst hSingle
      cases hResult
      have hId : r.id = a.runId := Db.id_of_run? hRun
      refine .inr ⟨r, r', token, rfl, ?_, hOpen, hNew, rfl,
        List.mem_cons_self⟩
      rw [hId]
      exact hRun

variable {now : Time}
variable {runId token : Uuid}

/- The first statement of a requeue. -/
theorem runWrites_closeStaleRuns
    (hMatch : RunsMatch db history)
    (hRows :
      ∀ id j, db.job? id = some j → j.RowOk clock)
    (hCall : e.call = .requeueStaleJob jobId now)
    (hPc : e.pc = 0)
    (hNone : e.writes = [])
    (hClean :
      ∀ j, db.job? jobId = some j → j.inFlight = true →
        j.stale e.start = true)
    (hOutcome :
      closeStaleRuns jobId now db =
        .proceed writes locks) :
    RunWrites db (e.advance writes locks) := by
  unfold closeStaleRuns at hOutcome
  split at hOutcome
  · cases hOutcome
  · rename_i runs hRuns
    simp only [RunWrites, Session.advance_call, hCall,
      Session.advance_pc, hPc, Session.advance_start,
      Session.advance_writes, hNone, List.nil_append]
    rcases closeRuns_cases hMatch hRuns hOutcome with
      ⟨hFree, hWrites⟩ |
        ⟨r, r', token, hToken, hRun, hOpen, hNew, hWrites,
          hLock⟩
    · refine .inl ⟨?_, hWrites⟩
      cases hJob : db.job? jobId with
      | none => simp [expired, hJob]
      | some j =>
          cases hStale : j.stale e.start with
          | false => simp [expired, hJob, hStale]
          | true =>
              rcases (inFlight_iff_token hRows hJob).mp
                (inFlight_of_stale hStale) with
                ⟨token, hToken⟩
              exact absurd hToken (hFree token)
    · refine .inr ⟨?_, r, r', ⟨hRun, hOpen, ?_⟩, ?_, hWrites⟩
      · rcases currentToken_eq_some_iff.mp hToken with
          ⟨j, hJob, _⟩
        have hStale := hClean j hJob
          ((inFlight_iff_token hRows hJob).mpr
            ⟨token, hToken⟩)
        simp [expired, hJob, hStale]
      · rw [← (RunRow.finish_fixed hNew).1]
        exact List.mem_append_right _ hLock
      · exact closed_of_finish hNew (fun h => by cases h)

/- The second statement of a requeue. -/
theorem runWrites_requeueJob
    (hRows :
      ∀ id j, db.job? id = some j → j.RowOk clock)
    (hCall : e.call = .requeueStaleJob jobId now)
    (hPc : e.pc = 1)
    (hWrites : RunWrites db e)
    (hOutcome :
      requeueJob jobId e.start db =
        .proceed writes locks) :
    RunWrites db (e.advance writes locks) := by
  simp only [RunWrites, hCall, hPc] at hWrites
  simp only [RunWrites, Session.advance_call, hCall,
    Session.advance_pc, hPc]
  unfold requeueJob at hOutcome
  rcases hWrites with
    ⟨hFresh, hNone⟩ | ⟨hStale, r, r', hHolds, hClosed, hOne⟩
  · left
    split at hOutcome
    · cases hOutcome
      rw [Session.advance_writes, hNone]
      rfl
    · rename_i j hMatch
      rcases matchJob_row hMatch with ⟨hJob, hId, hGuard⟩
      rw [hId] at hJob
      simp [expired, hJob, hGuard] at hFresh
  · right
    split at hOutcome
    · rename_i hMatch
      rcases (Option.any_eq_true _ _).mp hStale with
        ⟨j, hJob, hGuard⟩
      rw [matchJob_eq_some_iff.mpr ⟨hJob, hGuard⟩] at hMatch
      cases hMatch
    · rename_i j hMatch
      rcases matchJob_row hMatch with ⟨hJob, hId, hGuard⟩
      rw [hId] at hJob
      cases hOutcome
      have hRunning := (hRows jobId j hJob).inFlight_iff.mp
        (inFlight_of_stale hGuard)
      have hToken : j.claimToken ≠ none := by
        have hSome :=
          (hRows jobId j hJob).claimToken.mpr hRunning
        intro hNone
        rw [hNone] at hSome
        cases hSome
      refine ⟨j, j.requeue, r, r', ⟨hJob, ?_⟩, hToken, hId,
        rfl, hHolds.advance, hClosed, .inr ?_⟩
      · rw [← hId]
        exact List.mem_append_right _ List.mem_cons_self
      · rw [Session.advance_writes, hOne]
        rfl

/- The second statement of a forced failure. -/
theorem runWrites_forceFailRuns
    (hMatch : RunsMatch db history)
    (hCall : e.call = .forceFail jobId)
    (hPc : e.pc = 1)
    (hWrites : RunWrites db e)
    {start : Time}
    (hOutcome :
      forceFailRuns jobId start db =
        .proceed writes locks) :
    RunWrites db (e.advance writes locks) := by
  simp only [RunWrites, hCall, hPc] at hWrites
  simp only [RunWrites, Session.advance_call, hCall,
    Session.advance_pc, hPc]
  rcases hWrites with ⟨j, hHolds, hJobWrites⟩
  have hTokens :
      currentToken db jobId = j.claimToken := by
    simp only [currentToken, hHolds.row, Option.bind_some]
  unfold forceFailRuns at hOutcome
  split at hOutcome
  · cases hOutcome
  · rename_i runs hRuns
    rcases closeRuns_cases hMatch hRuns hOutcome with
      ⟨hFree, hNone⟩ |
        ⟨r, r', token, hToken, hRun, hOpen, hNew, hOne,
          hLock⟩
    · refine .inr ⟨j, hHolds.advance, ?_, ?_⟩
      · cases hToken : j.claimToken with
        | none => rfl
        | some token =>
            exact absurd (hTokens.trans hToken) (hFree token)
      · rw [Session.advance_writes, hJobWrites, hNone]
        rfl
    · have hId : j.id = jobId := Db.id_of_job? hHolds.row
      refine .inl ⟨j, j.forceFail, r, r', hHolds.advance, ?_,
        hId, rfl, ⟨hRun, hOpen, ?_⟩, ?_, .inl ?_⟩
      · rw [← hTokens, hToken]
        simp
      · rw [← (RunRow.finish_fixed hNew).1]
        exact List.mem_append_right _ hLock
      · exact closed_of_finish hNew (fun h => by cases h)
      · rw [Session.advance_writes, hJobWrites, hOne]
        rfl

/-
  A worker's report does nothing, or it ends the execution:
  `row` is what becomes of the job and `close` of its run.
-/
theorem runWrites_report
    (row : Job → Job)
    (close : Job → RunRow → Option RunRow)
    (hNone : e.writes = [])
    (hOwn :
      currentToken db jobId = some token →
        ∃ r, db.run? runId = some r ∧
          openRun jobId r = true)
    (hSame : ∀ j, (row j).id = j.id)
    (hCleared : ∀ j, (row j).claimToken = none)
    (hClosed :
      ∀ j r r', close j r = some r' → Closed r r')
    (hOutcome :
      (match matchClaim jobId token db with
        | none => noRows
        | some j =>
            endClaim jobId runId (row j) (close j) db) =
        .proceed writes locks) :
    (e.advance writes locks).writes = [] ∨
      EndsExecution db (e.advance writes locks) jobId := by
  split at hOutcome
  · cases hOutcome
    rw [Session.advance_writes, hNone]
    exact .inl rfl
  · rename_i j hMatch
    right
    rcases matchClaim_row hMatch with ⟨hJob, hId, hToken, _⟩
    rw [hId] at hJob
    rcases hOwn (currentToken_eq_some_iff.mpr
      ⟨j, hJob, hToken⟩) with ⟨r, hRun, hOpen⟩
    refine endClaim_ends hNone hJob ?_ (hSame j) (hCleared j)
      hRun hOpen (hClosed j r) hOutcome
    rw [hToken]
    simp

theorem runWrites_completeJob
    (hCall : e.call = .completeJob jobId runId token now)
    (hPc : e.pc = 0)
    (hNone : e.writes = [])
    (hOwn :
      currentToken db jobId = some token →
        ∃ r, db.run? runId = some r ∧
          openRun jobId r = true)
    (hOutcome :
      completeJob jobId runId token now db =
        .proceed writes locks) :
    RunWrites db (e.advance writes locks) := by
  simp only [RunWrites, Session.advance_call, hCall,
    Session.advance_pc, hPc]
  refine runWrites_report (fun j => j.complete now) _ hNone
    hOwn (fun _ => rfl) (fun _ => rfl) ?_ hOutcome
  intro j r r' hNew
  exact closed_of_finish hNew (fun _ => rfl)

theorem runWrites_failJob
    {errMsg : String}
    {nextRunAt : Option Time}
    (hCall :
      e.call =
        .failJob jobId runId token errMsg nextRunAt now)
    (hPc : e.pc = 0)
    (hNone : e.writes = [])
    (hOwn :
      currentToken db jobId = some token →
        ∃ r, db.run? runId = some r ∧
          openRun jobId r = true)
    (hOutcome :
      failJob jobId runId token errMsg nextRunAt now db =
        .proceed writes locks) :
    RunWrites db (e.advance writes locks) := by
  simp only [RunWrites, Session.advance_call, hCall,
    Session.advance_pc, hPc]
  refine runWrites_report
    (fun j => j.fail errMsg nextRunAt) _ hNone hOwn
    (fun _ => rfl) (fun _ => rfl) ?_ hOutcome
  intro j r r' hNew
  apply closed_of_finish hNew
  unfold Job.fail
  intro hState
  split at hState <;> cases hState

/- The first statement of a force-fail. -/
theorem runWrites_forceFailJob
    (hCall : e.call = .forceFail jobId)
    (hPc : e.pc = 0)
    (hNone : e.writes = [])
    (hOutcome :
      forceFailJob jobId db = .proceed writes locks) :
    RunWrites db (e.advance writes locks) := by
  simp only [RunWrites, Session.advance_call, hCall,
    Session.advance_pc, hPc]
  unfold forceFailJob at hOutcome
  split at hOutcome
  · cases hOutcome
  · rename_i j hRow
    rcases matchJob_row hRow with ⟨hJob, hId, _⟩
    rw [hId] at hJob
    cases hOutcome
    refine ⟨j, ⟨hJob, ?_⟩, ?_⟩
    · rw [← hId]
      exact List.mem_append_right _ List.mem_cons_self
    · rw [Session.advance_writes, hNone]
      rfl

/- Every statement keeps the shape of the pending writes. -/
theorem runWrites_advance
    (hMatch : RunsMatch db history)
    (hRows :
      ∀ id j, db.job? id = some j → j.RowOk clock)
    (hShaped : Shaped e)
    (hWrites : RunWrites db e)
    (hOwn :
      ∀ jobId runId token,
        e.call.report? = some (jobId, runId, token) →
          currentToken db jobId = some token →
            ∃ r, db.run? runId = some r ∧
              openRun jobId r = true)
    (hClean :
      ∀ jobId now, e.call = .requeueStaleJob jobId now →
        e.pc = 0 → ∀ j, db.job? jobId = some j →
          j.inFlight = true → j.stale e.start = true)
    (hOutcome :
      e.call.statement e.pc e.start scan locked db =
        .proceed writes locks) :
    RunWrites db (e.advance writes locks) := by
  cases hCall : e.call with
  | completeJob jobId runId token now =>
      rw [hCall] at hOutcome
      rcases hPc : e.pc with _ | pc
      · rw [hPc] at hOutcome
        exact runWrites_completeJob hCall hPc
          (by simpa [Shaped, hCall, hPc] using hShaped)
          (hOwn jobId runId token (by rw [hCall]; rfl))
          hOutcome
      · rw [hPc] at hOutcome
        cases hOutcome
  | failJob jobId runId token errMsg nextRunAt now =>
      rw [hCall] at hOutcome
      rcases hPc : e.pc with _ | pc
      · rw [hPc] at hOutcome
        exact runWrites_failJob hCall hPc
          (by simpa [Shaped, hCall, hPc] using hShaped)
          (hOwn jobId runId token (by rw [hCall]; rfl))
          hOutcome
      · rw [hPc] at hOutcome
        cases hOutcome
  | requeueStaleJob jobId now =>
      rw [hCall] at hOutcome
      rcases hPc : e.pc with _ | _ | pc
      · rw [hPc] at hOutcome
        exact runWrites_closeStaleRuns hMatch hRows hCall
          hPc (by simpa [Shaped, hCall, hPc] using hShaped)
          (hClean jobId now hCall hPc) hOutcome
      · rw [hPc] at hOutcome
        exact runWrites_requeueJob hRows hCall hPc hWrites
          hOutcome
      · rw [hPc] at hOutcome
        cases hOutcome
  | forceFail jobId =>
      rw [hCall] at hOutcome
      rcases hPc : e.pc with _ | _ | pc
      · rw [hPc] at hOutcome
        exact runWrites_forceFailJob hCall hPc
          (by simpa [Shaped, hCall, hPc] using hShaped)
          hOutcome
      · rw [hPc] at hOutcome
        exact runWrites_forceFailRuns hMatch hCall hPc
          hWrites hOutcome
      · rw [hPc] at hOutcome
        cases hOutcome
  | insertJob | tryClaim | tryClaimLimited | extendDeadline
  | promoteDueScheduled | promoteReadyFailed
  | moveToDeadLetter | cancelJob | replayJob =>
      simp only [RunWrites, Session.advance_call, hCall]

end

end Storage

end Sluice
