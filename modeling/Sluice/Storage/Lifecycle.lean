import Sluice.Storage.Insertion
import Sluice.Storage.Sessions

/-
  What a call can do to one job: the life cycle of a jobs
  row and of a run.

  `Call.changes` and `Call.closes` say once what a call may
  do to a jobs row and to a run. No statement of a call
  reads back what an earlier statement of the same call has
  written, so each one acts on the committed rows.

  Main declarations:
    * `Call.changes` and `Call.closes`
    * `Shaped`
    * `statement_view`
-/

------------------------------------------------------------
-- The Life Cycle Of A Job
------------------------------------------------------------

namespace Sluice

namespace Storage

open Foundations ReadCommitted

namespace Call

/- The new version a call may give to a jobs row. -/
def changes
    (call : Call)
    (start : Time)
    (old new : Job) :
    Prop :=
  match call with
  | .insertJob _ => False
  | .tryClaim a =>
      old.id = a.jobId ∧ old.state = .pending ∧
        new = old.claim a
  | .tryClaimLimited a _ _ =>
      old.id = a.jobId ∧ old.state = .pending ∧
        new = old.claim a
  | .extendDeadline jobId token deadline =>
      old.id = jobId ∧ old.claimToken = some token ∧
        old.inFlight = true ∧ new = old.extend deadline
  | .completeJob jobId _ token now =>
      old.id = jobId ∧ old.claimToken = some token ∧
        old.inFlight = true ∧ new = old.complete now
  | .failJob jobId _ token errMsg nextRunAt _ =>
      old.id = jobId ∧ old.claimToken = some token ∧
        old.inFlight = true ∧
          new = old.fail errMsg nextRunAt
  | .promoteDueScheduled _ =>
      old.state = .scheduled ∧ old.runAt ≤ start ∧
        new = old.releaseScheduled
  | .promoteReadyFailed _ =>
      old.state = .failed ∧ old.runAt ≤ start ∧
        new = old.releaseFailed start
  | .requeueStaleJob jobId _ =>
      old.id = jobId ∧ old.stale start = true ∧
        new = old.requeue
  | .moveToDeadLetter _ => False
  | .cancelJob jobId tenantId =>
      old.id = jobId ∧ old.tenantId = tenantId ∧
        old.cancellable = true ∧ new = old.cancel start
  | .replayJob jobId tenantId =>
      old.id = jobId ∧ old.tenantId = tenantId ∧
        old.state = .dead ∧ new = old.replay start
  | .forceFail jobId =>
      old.id = jobId ∧ old.forceFailable = true ∧
        new = old.forceFail

/- The new version a call may give to a run. -/
def closes
    (call : Call)
    (start : Time)
    (old new : RunRow) :
    Prop :=
  match call with
  | .completeJob jobId runId _ now =>
      old.jobId = jobId ∧ old.id = runId ∧
        old.finish .succeeded now old.error = some new
  | .failJob jobId runId _ errMsg _ now =>
      old.jobId = jobId ∧ old.id = runId ∧
        ∃ state, state ≠ .succeeded ∧
          old.finish state now (some errMsg) = some new
  | .requeueStaleJob jobId now =>
      openRun jobId old = true ∧
        old.finish .failed now
            (some "worker heartbeat expired") =
          some new
  | .forceFail jobId =>
      openRun jobId old = true ∧
        old.finish .dead start
            (some "force-failed by operator") =
          some new
  | _ => False

end Call

------------------------------------------------------------
-- Columns That No Call Touches
------------------------------------------------------------

section

variable {call : Call}
variable {start : Time}
variable {old new : Job}

/- The columns that are set at submission and kept. -/
structure SameSubmission (old new : Job) : Prop where
  id : new.id = old.id
  tenantId : new.tenantId = old.tenantId
  priority : new.priority = old.priority
  createdAt : new.createdAt = old.createdAt
  maxRetries : new.maxRetries = old.maxRetries
  backoffSeconds : new.backoffSeconds = old.backoffSeconds

/- No call changes what was submitted. -/
theorem Call.changes_submission
    (hChange : call.changes start old new) :
    new.submission = old.submission := by
  cases call <;> simp only [Call.changes] at hChange
  case tryClaim | tryClaimLimited | promoteDueScheduled |
      promoteReadyFailed | requeueStaleJob | forceFail =>
    rw [hChange.2.2]
    rfl
  case extendDeadline | completeJob | failJob | cancelJob |
      replayJob =>
    rw [hChange.2.2.2]
    rfl

theorem Call.changes_fixed
    (hChange : call.changes start old new) :
    SameSubmission old new := by
  have hSame := Call.changes_submission hChange
  exact
    { id := (congrArg Job.id hSame :)
      tenantId := (congrArg Job.tenantId hSame :)
      priority := (congrArg Job.priority hSame :)
      createdAt := (congrArg Job.createdAt hSame :)
      maxRetries := (congrArg Job.maxRetries hSame :)
      backoffSeconds := (congrArg Job.backoffSeconds hSame :) }

/- The change that a claim makes. -/
theorem Call.claim_changes
    {a : ClaimArgs}
    (hChange : call.changes start old new)
    (hClaim : call.claimArgs? = some a) :
    old.id = a.jobId ∧ old.state = .pending ∧
      new = old.claim a := by
  cases call <;>
    simp only [Call.claimArgs?, Option.some.injEq,
      reduceCtorEq] at hClaim
  · subst hClaim
    exact hChange
  · subst hClaim
    exact hChange

/-
  A change that is no claim and leaves a token in the row
  found it there, and does not count an attempt.
-/
theorem Call.changes_token
    {token : Uuid}
    (hChange : call.changes start old new)
    (hNoClaim : call.claimArgs? = none)
    (hToken : new.claimToken = some token) :
    old.claimToken = some token ∧
      new.attempt = old.attempt := by
  cases call <;>
    simp only [Call.changes, Call.claimArgs?,
      reduceCtorEq] at hChange hNoClaim
  case extendDeadline | cancelJob =>
    rw [hChange.2.2.2] at hToken ⊢
    exact ⟨hToken, rfl⟩
  case promoteDueScheduled | promoteReadyFailed =>
    rw [hChange.2.2] at hToken ⊢
    exact ⟨hToken, rfl⟩
  case completeJob | failJob | replayJob =>
    rw [hChange.2.2.2] at hToken
    cases hToken
  case requeueStaleJob | forceFail =>
    rw [hChange.2.2] at hToken
    cases hToken

/-
  Apart from claims, the only change that leaves a job in
  flight is a heartbeat.
-/
theorem Call.extends_of_inFlight
    (hChange : call.changes start old new)
    (hNoClaim : call.claimArgs? = none)
    (hInFlight : new.inFlight = true) :
    ∃ token deadline,
      call = .extendDeadline old.id token deadline ∧
        old.claimToken = some token ∧
          old.inFlight = true ∧
            new = old.extend deadline := by
  cases call <;> simp only [Call.changes] at hChange
  case extendDeadline jobId token deadline =>
    rcases hChange with ⟨hId, hToken, hFlight, hNew⟩
    subst hId
    exact ⟨token, deadline, rfl, hToken, hFlight, hNew⟩
  case tryClaim | tryClaimLimited => cases hNoClaim
  case promoteDueScheduled | promoteReadyFailed | forceFail =>
    rw [hChange.2.2] at hInFlight
    cases hInFlight
  case cancelJob | replayJob | completeJob =>
    rw [hChange.2.2.2] at hInFlight
    cases hInFlight
  case failJob =>
    rw [hChange.2.2.2] at hInFlight
    unfold Job.fail Job.inFlight at hInFlight
    split at hInFlight <;> simp at hInFlight
  case requeueStaleJob =>
    rw [hChange.2.2] at hInFlight
    unfold Job.requeue Job.inFlight at hInFlight
    split at hInFlight <;> simp at hInFlight

/- Closing a run keeps everything it was opened with. -/
theorem RunRow.finish_fixed
    {r r' : RunRow}
    {state : JobState}
    {now : Time}
    {error : Option String}
    (hFinish : r.finish state now error = some r') :
    r'.id = r.id ∧ r'.jobId = r.jobId ∧
      r'.attempt = r.attempt ∧
        r'.finishedAt = some now ∧ r'.state = state ∧
          r'.error = error := by
  unfold RunRow.finish at hFinish
  rcases Option.map_eq_some_iff.mp hFinish with
    ⟨ms, _, hRow⟩
  subst hRow
  exact ⟨rfl, rfl, rfl, rfl, rfl, rfl⟩

/- Whatever closes a run finishes it. -/
theorem Call.finish_of_closes
    {r r' : RunRow}
    (hCloses : call.closes start r r') :
    ∃ state now error,
      r.finish state now error = some r' := by
  cases call <;> simp only [Call.closes] at hCloses
  case completeJob jobId runId token now =>
    exact ⟨_, _, _, hCloses.2.2⟩
  case failJob jobId runId token errMsg nextRunAt now =>
    rcases hCloses.2.2 with ⟨state, _, hFinish⟩
    exact ⟨state, _, _, hFinish⟩
  case requeueStaleJob jobId now =>
    exact ⟨_, _, _, hCloses.2⟩
  case forceFail jobId =>
    exact ⟨_, _, _, hCloses.2⟩

theorem Call.closes_fixed
    {r r' : RunRow}
    (hCloses : call.closes start r r') :
    r'.id = r.id ∧ r'.jobId = r.jobId ∧
      r'.attempt = r.attempt := by
  rcases Call.finish_of_closes hCloses with
    ⟨state, now, error, hFinish⟩
  have hFixed := RunRow.finish_fixed hFinish
  exact ⟨hFixed.1, hFixed.2.1, hFixed.2.2.1⟩

end

------------------------------------------------------------
-- A Transaction Does Not Reread Its Writes
------------------------------------------------------------

/-
  The kinds of rows a session has written before its last
  statement.
-/
def Shaped (e : Sess) : Prop :=
  match e.call, e.pc with
  | .tryClaimLimited _ _ _, 1 => e.writes = []
  | .tryClaimLimited _ _ _, 2 => e.writes = []
  | .requeueStaleJob _ _, 1 =>
      ∀ w ∈ e.writes, ∃ row, w = .updateRun row
  | .replayJob _ _, 1 =>
      ∀ w ∈ e.writes, ∃ row, w = .updateJob row
  | .forceFail _, 1 =>
      ∀ w ∈ e.writes, ∃ row, w = .updateJob row
  | _, 0 => e.writes = []
  | _, _ => True

variable {writes : List Write}

theorem mem_runResult
    {runs : List RunRow}
    {locks : List RowKey}
    (hResult : runResult runs = .proceed writes locks) :
    ∀ w ∈ writes, ∃ row ∈ runs,
      w = .updateRun row ∧ .run row.id ∈ locks := by
  unfold runResult at hResult
  cases hResult
  intro w hw
  rcases List.mem_map.mp hw with ⟨row, hRow, hEq⟩
  exact ⟨row, hRow, hEq.symm,
    List.mem_map.mpr ⟨row, hRow, rfl⟩⟩

/- A statement keeps the shape. -/
theorem shaped_advance
    {e : Sess}
    {db : Db}
    {scan : Scan}
    {locked : RowKey → Bool}
    {locks : List RowKey}
    (hShaped : Shaped e)
    (hOutcome :
      e.call.statement e.pc e.start scan locked db =
        .proceed writes locks) :
    Shaped (e.advance writes locks) := by
  rcases e with ⟨call, start, pc, old, held⟩
  cases pc with
  | zero =>
      have hOld : old = [] := by
        cases call <;> exact hShaped
      subst hOld
      cases call with
      | tryClaimLimited a tenantId limit =>
          simp only [Call.statement, lockTenant] at hOutcome
          split at hOutcome
          · cases hOutcome
            rfl
          · cases hOutcome
            rfl
      | requeueStaleJob jobId now =>
          simp only [Call.statement, closeStaleRuns]
            at hOutcome
          split at hOutcome
          · cases hOutcome
          · intro w hw
            rcases mem_runResult hOutcome w hw with
              ⟨row, _, hEq, _⟩
            exact ⟨row, hEq⟩
      | replayJob jobId tenantId =>
          simp only [Call.statement, replayUpdate]
            at hOutcome
          split at hOutcome
          · cases hOutcome
          · cases hOutcome
            intro w hw
            exact ⟨_, List.mem_singleton.mp hw⟩
      | forceFail jobId =>
          simp only [Call.statement, forceFailJob]
            at hOutcome
          split at hOutcome
          · cases hOutcome
          · cases hOutcome
            intro w hw
            exact ⟨_, List.mem_singleton.mp hw⟩
      | insertJob | tryClaim | extendDeadline
      | completeJob | failJob | promoteDueScheduled
      | promoteReadyFailed | moveToDeadLetter
      | cancelJob => trivial
  | succ pc =>
      cases call with
      | tryClaimLimited a tenantId limit =>
          cases pc with
          | zero =>
              have hOld : old = [] := hShaped
              subst hOld
              simp only [Call.statement, countRunning]
                at hOutcome
              split at hOutcome
              · cases hOutcome
              · cases hOutcome
                rfl
          | succ pc => trivial
      | insertJob | tryClaim | extendDeadline
      | completeJob | failJob | promoteDueScheduled
      | promoteReadyFailed | moveToDeadLetter
      | cancelJob | requeueStaleJob | replayJob
      | forceFail => trivial

/- Updated runs leave the other tables alone. -/
theorem performAll_updateRun
    (hRuns : ∀ w ∈ writes, ∃ row, w = .updateRun row)
    (db : Db) :
    (postgres.performAll db writes).jobs = db.jobs := by
  induction writes generalizing db with
  | nil => rfl
  | cons w writes ih =>
      rcases hRuns w List.mem_cons_self with ⟨row, hEq⟩
      subst hEq
      rw [Engine.performAll_cons,
        ih (fun w hw => hRuns w
          (List.mem_cons_of_mem _ hw))]
      rfl

/- Updated jobs leave the other tables alone. -/
theorem performAll_updateJob
    (hJobs : ∀ w ∈ writes, ∃ row, w = .updateJob row)
    (db : Db) :
    (postgres.performAll db writes).jobRuns =
        db.jobRuns ∧
      (postgres.performAll db writes).deadLetter =
        db.deadLetter := by
  induction writes generalizing db with
  | nil => exact ⟨rfl, rfl⟩
  | cons w writes ih =>
      rcases hJobs w List.mem_cons_self with ⟨row, hEq⟩
      subst hEq
      have hRest := ih
        (fun w hw => hJobs w (List.mem_cons_of_mem _ hw))
        (db.perform (.updateJob row))
      exact hRest

/-
  A statement computes the same on the session's view as on
  the committed state.
-/
theorem statement_view
    {e : Sess}
    (hShaped : Shaped e)
    (scan : Scan)
    (locked : RowKey → Bool)
    (db : Db) :
    e.call.statement e.pc e.start scan locked
        (postgres.performAll db e.writes) =
      e.call.statement e.pc e.start scan locked db := by
  rcases e with ⟨call, start, pc, writes, locks⟩
  cases pc with
  | zero =>
      have hNone : writes = [] := by
        cases call <;> exact hShaped
      subst hNone
      rfl
  | succ pc =>
      cases call with
      | tryClaimLimited a tenantId limit =>
          cases pc with
          | zero =>
              have hNone : writes = [] := hShaped
              subst hNone
              rfl
          | succ pc =>
              cases pc with
              | zero =>
                  have hNone : writes = [] := hShaped
                  subst hNone
                  rfl
              | succ pc => rfl
      | requeueStaleJob jobId now =>
          cases pc with
          | zero =>
              have hJobs := performAll_updateRun hShaped db
              simp only [Call.statement, requeueJob,
                matchJob, Db.job?]
              rw [hJobs]
          | succ pc => rfl
      | replayJob jobId tenantId =>
          cases pc with
          | zero =>
              have hRows := performAll_updateJob hShaped db
              simp only [Call.statement, replayDelete,
                Db.deadLetter?]
              rw [hRows.2]
          | succ pc => rfl
      | forceFail jobId =>
          cases pc with
          | zero =>
              have hRows := performAll_updateJob hShaped db
              simp only [Call.statement, forceFailRuns,
                updateRuns]
              rw [hRows.1]
          | succ pc => rfl
      | insertJob | tryClaim | extendDeadline
      | completeJob | failJob | promoteDueScheduled
      | promoteReadyFailed | moveToDeadLetter
      | cancelJob => rfl

end Storage

end Sluice
