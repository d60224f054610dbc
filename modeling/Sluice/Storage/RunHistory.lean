import Sluice.Storage.RunWrites

/-
  The run history of a job matches its claims.

  `RequeueStaleJob` closes the open runs of a job before it
  looks at the job's deadline, and commits even if it then
  leaves the job alone. Where a reaper closes runs only of a
  job that has expired or is not in flight, and nothing
  revives or expires the job between its two statements, a
  running job has exactly the run that its claim opened, and
  no other job has an open run.

  Main declarations:
    * `RunsOk`
    * `reapsCleanly`
    * `RunInv`
    * `runs_ok_of_clean_reaps`
    * `late_reap_closes_live_run`
-/

------------------------------------------------------------
-- The Property
------------------------------------------------------------

namespace Sluice

namespace Storage

open Foundations ReadCommitted

/-
  A running job has one open run, which its current claim
  opened; any other job has none; a succeeded run has no
  error; and a requeue that leaves the job alone changes
  nothing.
-/
structure RunsOk (s : Sys) : Prop where
  running : ∀ jobId j, s.db.job? jobId = some j →
    j.state = .running →
      ∃ r a, openRuns s.db jobId = [r] ∧
        Claimant s.history jobId a ∧
          j.claimToken = some a.token ∧ r.id = a.runId
  resting : ∀ jobId j, s.db.job? jobId = some j →
    j.state ≠ .running → openRuns s.db jobId = []
  succeeded : ∀ runId r, s.db.run? runId = some r →
    r.state = .succeeded → r.error = none
  requeued : ∀ c ∈ s.history, ∀ jobId now,
    c.call = .requeueStaleJob jobId now →
      c.after.job? jobId = c.before.job? jobId →
        c.after = c.before

/-
  The call does not change whether the job has expired at
  the given time: it is not a heartbeat that moves the deadline
  across that time, nor a claim that is already past it.
-/
def Call.keepsExpiry
    (jobId : Uuid)
    (now : Time)
    (db : Db) :
    Call → Bool
| .extendDeadline id token deadline =>
    id ≠ jobId ||
      (db.job? jobId).all
        (fun j =>
          j.claimToken ≠ some token ||
            j.stale now = decide (deadline < now))
| .tryClaim a => a.jobId ≠ jobId || now ≤ a.deadline
| .tryClaimLimited a _ _ =>
    a.jobId ≠ jobId || now ≤ a.deadline
| _ => true

/-
  A reaper starts on a job only if it has expired or is not
  in flight, and no commit between its two statements changes
  whether the job has expired.
-/
def reapsCleanly (s : Sys) : Step → Bool
| .statement i _ =>
    match s.sessions[i]? with
    | none => true
    | some e =>
        match e.call, e.pc with
        | .requeueStaleJob jobId _, 0 =>
            (s.db.job? jobId).all
              (fun j => !j.inFlight || j.stale e.start)
        | _, _ => true
| .commit i =>
    match s.sessions[i]? with
    | none => true
    | some e =>
        s.sessions.all
          (fun f =>
            match f.call, f.pc with
            | .requeueStaleJob jobId _, 1 =>
                e.call.keepsExpiry jobId f.start s.db
            | _, _ => true)
| _ => true

------------------------------------------------------------
-- Commits
------------------------------------------------------------

section

variable {db : Db}
variable {history : List Entry}
variable {e : Sess}
variable {jobId : Uuid}

theorem currentToken_updateJob
    {j j' : Job}
    (hJob : db.job? jobId = some j)
    (hId : j'.id = jobId)
    (id : Uuid) :
    currentToken (db.perform (.updateJob j')) id =
      if id = jobId then j'.claimToken
      else currentToken db id := by
  unfold currentToken
  rw [Db.job?_perform]
  simp only [hId]
  split
  · rename_i hSame
    subst hSame
    rw [hJob]
    rfl
  · rfl

theorem currentToken_run
    (db : Db)
    (r : RunRow)
    (id : Uuid) :
    currentToken (db.perform (.updateRun r)) id =
      currentToken db id := by
  unfold currentToken
  rw [Db.job?_perform]

theorem run?_updateRun
    {r r' : RunRow}
    (hRun : db.run? r.id = some r)
    (hId : r'.id = r.id)
    (id : Uuid) :
    (db.perform (.updateRun r')).run? id =
      if id = r.id then some r' else db.run? id := by
  rw [Db.run?_perform]
  simp only [hId]
  split
  · rename_i hSame
    rw [hSame, hRun]
    rfl
  · rfl

theorem run?_updateJob
    (db : Db)
    (j : Job)
    (id : Uuid) :
    (db.perform (.updateJob j)).run? id = db.run? id := by
  rw [Db.run?_perform]

/- What the commit of an ended execution changes. -/
theorem EndsExecution.effect
    (hEnds : EndsExecution db e jobId) :
    ∃ token r r', currentToken db jobId = some token ∧
      HoldsRun db e jobId r ∧ Closed r r' ∧
        (∀ id,
          currentToken (postgres.performAll db e.writes) id =
            if id = jobId then none
            else currentToken db id) ∧
          ∀ id,
            (postgres.performAll db e.writes).run? id =
              if id = r.id then some r'
              else db.run? id := by
  rcases hEnds with
    ⟨j, j', r, r', hJob, hToken, hId, hCleared, hRun,
      hClosed, hWrites⟩
  rcases Option.ne_none_iff_exists'.mp hToken with
    ⟨token, hSome⟩
  refine ⟨token, r, r', ?_, hRun, hClosed, ?_, ?_⟩
  · exact currentToken_eq_some_iff.mpr
      ⟨j, hJob.row, hSome⟩
  · intro id
    have hUpdate := currentToken_updateJob hJob.row hId id
    rw [hCleared] at hUpdate
    rcases hWrites with hFirst | hLast
    · rw [hFirst]
      change currentToken
        ((db.perform (.updateJob j')).perform
          (.updateRun r')) id = _
      rw [currentToken_run]
      exact hUpdate
    · rw [hLast]
      change currentToken
        ((db.perform (.updateRun r')).perform
          (.updateJob j')) id = _
      have hKept :
          (db.perform (.updateRun r')).job? jobId =
            some j := by
        rw [Db.job?_perform]
        exact hJob.row
      rw [currentToken_updateJob hKept hId, hCleared,
        currentToken_run]
  · intro id
    rcases hWrites with hFirst | hLast
    · rw [hFirst]
      change
        ((db.perform (.updateJob j')).perform
          (.updateRun r')).run? id = _
      have hKept :
          (db.perform (.updateJob j')).run? r.id =
            some r := by
        rw [run?_updateJob]
        exact hRun.row
      rw [run?_updateRun hKept hClosed.same_id,
        run?_updateJob]
    · rw [hLast]
      change
        ((db.perform (.updateRun r')).perform
          (.updateJob j')).run? id = _
      rw [run?_updateJob,
        run?_updateRun hRun.row hClosed.same_id]

/- The commit of an ended execution keeps runs and claims. -/
theorem RunsMatch.ended
    (hMatch : RunsMatch db history)
    (hEnds : EndsExecution db e jobId)
    (c : Entry) :
    RunsMatch (postgres.performAll db e.writes)
      (c :: history) := by
  rcases hEnds.effect with
    ⟨token, r, r', hToken, hRun, hClosed, hTokens, hRuns⟩
  have hOld :
      ∀ runId row,
        (postgres.performAll db e.writes).run? runId =
            some row →
          row.finishedAt = none →
            runId ≠ r.id ∧ db.run? runId = some row := by
    intro runId row hRow hFinished
    rw [hRuns] at hRow
    split at hRow
    · cases hRow
      exact absurd hFinished hClosed.finished
    · rename_i hOther
      exact ⟨hOther, hRow⟩
  constructor
  · intro id token' hCurrent
    rw [hTokens] at hCurrent
    split at hCurrent
    · cases hCurrent
    · rename_i hOther
      rcases hMatch.running id token' hCurrent with
        ⟨a, ⟨c', hc', hClaims⟩, hSame, ⟨row, hRow, hOpen⟩,
          hOnly⟩
      refine ⟨a, ⟨c', List.mem_cons_of_mem _ hc', hClaims⟩,
        hSame, ⟨row, ?_, hOpen⟩, ?_⟩
      · rw [hRuns, if_neg]
        · exact hRow
        · intro hSameRun
          rw [hSameRun, hRun.row] at hRow
          cases hRow
          exact hOther
            ((openRun_iff.mp hOpen).1.symm.trans
              (openRun_iff.mp hRun.is_open).1)
      · intro runId row' hRow' hOpen'
        exact hOnly runId row'
          (hOld runId row' hRow'
            (openRun_iff.mp hOpen').2).2 hOpen'
  · intro runId row hRow hFinished
    rcases hOld runId row hRow hFinished with
      ⟨hOther, hBefore⟩
    rcases hMatch.resting runId row hBefore hFinished with
      ⟨token', hCurrent⟩
    refine ⟨token', ?_⟩
    rw [hTokens, if_neg]
    · exact hCurrent
    · -- Another open run of this job would be the same run.
      intro hJob
      have hId : row.id = runId := Db.id_of_run? hBefore
      rw [← hId] at hBefore
      apply hOther
      rw [← hId]
      exact hMatch.open_unique hBefore
        (openRun_iff.mpr ⟨hJob, hFinished⟩) hRun.row
        hRun.is_open
  · intro runId row hRow hFinished
    exact hMatch.open_error runId row
      (hOld runId row hRow hFinished).2 hFinished
  · intro runId row hRow hSucceeded
    rw [hRuns] at hRow
    split at hRow
    · cases hRow
      rw [hClosed.error hSucceeded]
      exact hMatch.open_error r.id r hRun.row
        (openRun_iff.mp hRun.is_open).2
    · exact hMatch.succeeded_error runId row hRow hSucceeded

section Claims

variable {a : ClaimArgs}
variable {old : Job}

/- The tokens after the commit of a claim. -/
theorem currentToken_claimed
    (hOld : db.job? a.jobId = some old)
    (hWrites :
      e.writes =
        [.updateJob (old.claim a),
          .insertRun (RunRow.opened a (old.claim a))])
    (id : Uuid) :
    currentToken (postgres.performAll db e.writes) id =
      if id = a.jobId then some a.token
      else currentToken db id := by
  have hOldId : old.id = a.jobId := Db.id_of_job? hOld
  have hId : (old.claim a).id = a.jobId := hOldId
  rw [hWrites]
  exact currentToken_updateJob hOld hId id

/- The runs after the commit of a claim. -/
theorem run?_claimed
    (hFresh : db.run? a.runId = none)
    (hWrites :
      e.writes =
        [.updateJob (old.claim a),
          .insertRun (RunRow.opened a (old.claim a))])
    (id : Uuid) :
    (postgres.performAll db e.writes).run? id =
      if id = a.runId then
        some (RunRow.opened a (old.claim a))
      else db.run? id := by
  have hAfter :
      postgres.performAll db e.writes =
        (db.perform (.updateJob (old.claim a))).perform
          (.insertRun (RunRow.opened a (old.claim a))) := by
    rw [hWrites]
    rfl
  rw [hAfter, Db.run?_perform]
  simp only [run?_updateJob]
  by_cases hSame : id = a.runId
  · subst hSame
    rw [if_pos ⟨rfl, hFresh⟩, if_pos rfl]
  · rw [if_neg (fun h => hSame h.1), if_neg hSame]

/- The commit of a claim keeps runs and claims. -/
theorem RunsMatch.claimed
    (hMatch : RunsMatch db history)
    (hOld : db.job? a.jobId = some old)
    (hFree : old.claimToken = none)
    (hFresh : db.run? a.runId = none)
    (hClaim : e.call.claimArgs? = some a)
    (hWrites :
      e.writes =
        [.updateJob (old.claim a),
          .insertRun (RunRow.opened a (old.claim a))]) :
    RunsMatch (postgres.performAll db e.writes)
      (postgres.entry db e :: history) := by
  have hOldId : old.id = a.jobId := Db.id_of_job? hOld
  have hId : (old.claim a).id = a.jobId := hOldId
  have hTokens := currentToken_claimed hOld hWrites
  have hRuns := run?_claimed hFresh hWrites
  have hNone : currentToken db a.jobId = none := by
    simp only [currentToken, hOld, Option.bind_some, hFree]
  have hKept :
      ∀ runId row, db.run? runId = some row →
        (postgres.performAll db e.writes).run? runId =
          some row := by
    intro runId row hRow
    rw [hRuns, if_neg]
    · exact hRow
    · intro hSame
      rw [hSame, hFresh] at hRow
      cases hRow
  constructor
  · intro id token hCurrent
    rw [hTokens] at hCurrent
    split at hCurrent
    · rename_i hSame
      subst hSame
      refine ⟨a, ⟨_, List.mem_cons_self, hClaim, ?_⟩,
        Option.some.inj hCurrent,
        ⟨_, (hRuns a.runId).trans (if_pos rfl), ?_⟩, ?_⟩
      · simp [claims, hNone, hTokens]
      · simp [openRun, RunRow.opened, hId]
      · intro runId row hRow hOpen
        rw [hRuns] at hRow
        split at hRow
        · assumption
        · -- A job that was pending had no open run.
          rcases openRun_iff.mp hOpen with
            ⟨hJob, hFinished⟩
          rcases hMatch.resting runId row hRow hFinished with
            ⟨token', hSome⟩
          rw [hJob, hNone] at hSome
          cases hSome
    · rename_i hOther
      rcases hMatch.running id token hCurrent with
        ⟨b, ⟨c', hc', hClaims⟩, hSame, ⟨row, hRow, hOpen⟩,
          hOnly⟩
      refine ⟨b, ⟨c', List.mem_cons_of_mem _ hc', hClaims⟩,
        hSame, ⟨row, hKept _ _ hRow, hOpen⟩, ?_⟩
      intro runId row' hRow' hOpen'
      rw [hRuns] at hRow'
      split at hRow'
      · cases hRow'
        exact absurd
          ((openRun_iff.mp hOpen').1.symm.trans hId) hOther
      · exact hOnly runId row' hRow' hOpen'
  · intro runId row hRow hFinished
    rw [hRuns] at hRow
    split at hRow
    · cases hRow
      refine ⟨a.token, ?_⟩
      rw [hTokens]
      exact if_pos hId
    · rcases hMatch.resting runId row hRow hFinished with
        ⟨token, hCurrent⟩
      refine ⟨token, ?_⟩
      rw [hTokens, if_neg]
      · exact hCurrent
      · intro hSame
        rw [hSame, hNone] at hCurrent
        cases hCurrent
  · intro runId row hRow
    rw [hRuns] at hRow
    split at hRow
    · cases hRow
      exact fun _ => rfl
    · exact hMatch.open_error runId row hRow
  · intro runId row hRow
    rw [hRuns] at hRow
    split at hRow
    · cases hRow
      exact fun _ => rfl
    · exact hMatch.succeeded_error runId row hRow

end Claims

/- A call that neither claims nor ends keeps the tokens. -/
theorem currentToken_kept
    {c : Entry}
    {clock : Time}
    (hLawful : Lawful c)
    (hRows :
      ∀ id j, c.before.job? id = some j → j.RowOk clock)
    (hNoClaim : c.call.claimArgs? = none)
    (hNoEnd :
      ∀ jobId token,
        c.call.endsClaim jobId token = false)
    (id : Uuid) :
    currentToken c.after id = currentToken c.before id := by
  have hNotEnds :
      ∀ token, ends id token c = false := by
    intro token
    cases hEnds : ends id token c with
    | false => rfl
    | true =>
        have hCall := (hLawful.jobs id).endsClaim_of_ends
          (hRows id) hEnds
        rw [hNoEnd] at hCall
        cases hCall
  have hNotClaims :
      ∀ token, claims id token c = false := by
    intro token
    cases hClaims : claims id token c with
    | false => rfl
    | true =>
        rcases (hLawful.jobs id).claimArgs_of_claims hClaims
          with ⟨a, hArgs, _⟩
        rw [hNoClaim] at hArgs
        cases hArgs
  cases hBefore : currentToken c.before id with
  | some token =>
      have hNot := hNotEnds token
      simpa [ends, hBefore] using hNot
  | none =>
      cases hAfter : currentToken c.after id with
      | none => rfl
      | some token =>
          have hNot := hNotClaims token
          simp [claims, hBefore, hAfter] at hNot

/- A call that neither opens nor closes keeps the runs. -/
theorem run?_kept
    {c : Entry}
    (hLawful : Lawful c)
    (hNoClaim : c.call.claimArgs? = none)
    (hNoClose :
      ∀ old new, ¬c.call.closes c.start old new)
    (id : Uuid) :
    c.after.run? id = c.before.run? id := by
  cases hLawful.runs id with
  | kept hSame => exact hSame
  | opened hNew _ =>
      unfold Call.newRun? at hNew
      rw [hNoClaim] at hNew
      cases hNew
  | closed old new _ _ hCloses =>
      exact absurd hCloses (hNoClose old new)

/- A waiting job has neither a token nor an open run. -/
theorem RunsMatch.forceFailed
    {j : Job}
    (hMatch : RunsMatch db history)
    (hJob : db.job? jobId = some j)
    (hFree : j.claimToken = none)
    (c : Entry) :
    RunsMatch
      (postgres.performAll db [.updateJob j.forceFail])
      (c :: history) := by
  have hId : j.id = jobId := Db.id_of_job? hJob
  have hNewId : j.forceFail.id = jobId := hId
  refine hMatch.of_same c ?_ (run?_updateJob db _)
  intro id
  apply (currentToken_updateJob hJob hNewId id).trans
  split
  · rename_i hSame
    subst hSame
    simp [currentToken, hJob, hFree, Job.forceFail]
  · rfl

/- Every commit keeps runs and claims. -/
theorem RunsMatch.commit
    {clock : Time}
    (hMatch : RunsMatch db history)
    (hRows :
      ∀ id j, db.job? id = some j → j.RowOk clock)
    (hSound : Sound db e)
    (hLawful : Lawful (postgres.entry db e))
    (hFresh :
      ∀ a, e.call.claimArgs? = some a →
        db.run? a.runId = none)
    (hPc : e.pc = e.call.length)
    (hWrites : RunWrites db e) :
    RunsMatch (postgres.performAll db e.writes)
      (postgres.entry db e :: history) := by
  have hIdle : e.writes = [] →
      RunsMatch (postgres.performAll db e.writes)
        (postgres.entry db e :: history) := by
    intro hNone
    rw [hNone]
    exact hMatch.of_same _ (fun _ => rfl) (fun _ => rfl)
  have hEnded : ∀ jobId,
      (e.writes = [] ∨ EndsExecution db e jobId) →
        RunsMatch (postgres.performAll db e.writes)
          (postgres.entry db e :: history) := by
    rintro jobId (hNone | hEnds)
    · exact hIdle hNone
    · exact hMatch.ended hEnds _
  have hClaim : ∀ a, e.call.claimArgs? = some a →
      RunsMatch (postgres.performAll db e.writes)
        (postgres.entry db e :: history) := by
    intro a hArgs
    rcases hSound.claimWrites a hArgs with
      hNone | ⟨old, hOld, hPending, _, hBoth⟩
    · exact hIdle hNone
    · have hCleared :=
        (hRows a.jobId old hOld).of_not_running
          (by simp [hPending])
      exact hMatch.claimed hOld hCleared.1
        (hFresh a hArgs) hArgs hBoth
  have hPlain :
      e.call.claimArgs? = none →
        (∀ jobId token,
          e.call.endsClaim jobId token = false) →
          (∀ old new, ¬e.call.closes e.start old new) →
            RunsMatch (postgres.performAll db e.writes)
              (postgres.entry db e :: history) := by
    intro hNoClaim hNoEnd hNoClose
    exact hMatch.of_same _
      (currentToken_kept hLawful hRows hNoClaim hNoEnd)
      (run?_kept hLawful hNoClaim hNoClose)
  cases hCall : e.call with
  | completeJob jobId runId token now =>
      have hOne : e.pc = 1 := by
        rw [hPc, hCall]
        rfl
      simp only [RunWrites, hCall, hOne] at hWrites
      exact hEnded jobId hWrites
  | failJob jobId runId token errMsg nextRunAt now =>
      have hOne : e.pc = 1 := by
        rw [hPc, hCall]
        rfl
      simp only [RunWrites, hCall, hOne] at hWrites
      exact hEnded jobId hWrites
  | requeueStaleJob jobId now =>
      have hTwo : e.pc = 2 := by
        rw [hPc, hCall]
        rfl
      simp only [RunWrites, hCall, hTwo] at hWrites
      exact hEnded jobId hWrites
  | forceFail jobId =>
      have hTwo : e.pc = 2 := by
        rw [hPc, hCall]
        rfl
      simp only [RunWrites, hCall, hTwo] at hWrites
      rcases hWrites with
        hEnds | ⟨j, hHolds, hFree, hOne⟩
      · exact hMatch.ended hEnds _
      · rw [hOne]
        exact hMatch.forceFailed hHolds.row hFree _
  | tryClaim a => exact hClaim a (by rw [hCall]; rfl)
  | tryClaimLimited a tenantId limit =>
      exact hClaim a (by rw [hCall]; rfl)
  | insertJob | extendDeadline | promoteDueScheduled
  | promoteReadyFailed | moveToDeadLetter | cancelJob
  | replayJob =>
      apply hPlain (by rw [hCall]; rfl)
        (fun _ _ => by rw [hCall]; rfl)
      intro old new hCloses
      rw [hCall] at hCloses
      exact hCloses

end

------------------------------------------------------------
-- Commits Of Other Sessions
------------------------------------------------------------

section

variable {db : Db}
variable {history : List Entry}
variable {clock : Time}
variable {e g : Sess}
variable {jobId : Uuid}

theorem HoldsJob.frame
    {j : Job}
    (hHolds : HoldsJob db g jobId j)
    (hAll : AllJustified db e)
    (hLocks : ∀ k ∈ e.locks, k ∉ g.locks) :
    HoldsJob (postgres.performAll db e.writes) g jobId j := by
  refine ⟨?_, hHolds.lock⟩
  rw [job?_performAll_of_unlocked hAll
    (fun hk => hLocks _ hk hHolds.lock)]
  exact hHolds.row

theorem HoldsRun.frame
    {r : RunRow}
    (hHolds : HoldsRun db g jobId r)
    (hAll : AllJustified db e)
    (hLocks : ∀ k ∈ e.locks, k ∉ g.locks) :
    HoldsRun (postgres.performAll db e.writes) g jobId r :=
  ⟨run?_performAll_of_unlocked hAll hHolds.row
      (fun hk => hLocks _ hk hHolds.lock),
    hHolds.is_open, hHolds.lock⟩

theorem EndsExecution.frame
    (hEnds : EndsExecution db g jobId)
    (hAll : AllJustified db e)
    (hLocks : ∀ k ∈ e.locks, k ∉ g.locks) :
    EndsExecution (postgres.performAll db e.writes) g
      jobId := by
  rcases hEnds with
    ⟨j, j', r, r', hJob, hToken, hId, hCleared, hRun,
      hClosed, hWrites⟩
  exact ⟨j, j', r, r', hJob.frame hAll hLocks, hToken, hId,
    hCleared, hRun.frame hAll hLocks, hClosed, hWrites⟩

/- A heartbeat that keeps the expiry of its job. -/
theorem stale_extend
    {call : Call}
    {j : Job}
    {token : Uuid}
    {deadline now : Time}
    (hKeeps : call.keepsExpiry jobId now db = true)
    (hJob : db.job? jobId = some j)
    (hCall : call = .extendDeadline j.id token deadline)
    (hToken : j.claimToken = some token)
    (hFlight : j.inFlight = true) :
    (j.extend deadline).stale now = j.stale now := by
  have hId : j.id = jobId := Db.id_of_job? hJob
  have hSame : (j.extend deadline).inFlight = true := hFlight
  rw [hCall] at hKeeps
  have hStale : j.stale now = decide (deadline < now) := by
    simpa [Call.keepsExpiry, hId, hJob, hToken] using hKeeps
  rw [hStale]
  unfold Job.stale
  rw [hSame]
  rfl

/- A kept expiry stays false. -/
theorem expired_of_keeps_false
    {now : Time}
    (hLawful : Lawful (postgres.entry db e))
    (hInsert :
      ∀ j, e.call = .insertJob j →
        j.inserted.inFlight = false)
    (hKeeps : e.call.keepsExpiry jobId now db = true)
    (hBefore : expired db jobId now = false) :
    expired (postgres.performAll db e.writes) jobId now =
      false := by
  cases hAfter :
      expired (postgres.performAll db e.writes) jobId
        now with
  | false => rfl
  | true =>
      rcases (Option.any_eq_true _ _).mp hAfter with
        ⟨new, hNew, hStale⟩
      have hFlight := inFlight_of_stale hStale
      cases hLawful.jobs jobId with
      | kept hSame =>
          unfold expired at hBefore
          rw [← show _ = db.job? jobId from hSame] at hBefore
          exact absurd (hBefore.symm.trans hAfter) (by simp)
      | inserted j hCall _ hSome =>
          cases hNew.symm.trans hSome
          rw [hInsert j hCall] at hFlight
          cases hFlight
      | changed old new' hOld hSome hChange =>
          cases hNew.symm.trans hSome
          have hId : old.id = jobId := Db.id_of_job? hOld
          rw [Engine.entry_call] at hChange
          cases hArgs : e.call.claimArgs? with
          | some a =>
              rcases Call.claim_changes hChange hArgs with
                ⟨hJob, _, hEq⟩
              subst hEq
              have hLate : a.deadline < now := by
                unfold Job.stale at hStale
                simpa [Job.claim, Job.inFlight] using hStale
              have hOnTime : now ≤ a.deadline := by
                cases hCall : e.call <;>
                  rw [hCall] at hArgs hKeeps <;>
                  simp only [Call.claimArgs?, reduceCtorEq,
                    Option.some.injEq] at hArgs
                all_goals
                  subst hArgs
                  simpa [Call.keepsExpiry, ← hJob, hId]
                    using hKeeps
              exact absurd hLate (Int.not_lt.mpr hOnTime)
          | none =>
              rcases Call.extends_of_inFlight hChange hArgs
                hFlight with
                ⟨token, deadline, hCall, hToken, hOldFlight,
                  hEq⟩
              subst hEq
              rw [stale_extend hKeeps hOld hCall hToken
                hOldFlight] at hStale
              unfold expired at hBefore
              rw [show db.job? jobId = some old from hOld]
                at hBefore
              exact absurd (hBefore.symm.trans hStale)
                (by simp)

/-
  A commit that takes the token of a job with a run has the
  job's open run locked.
-/
theorem EndsExecution.of_ends
    (hPc : e.pc = e.call.length)
    (hWrites : RunWrites db e)
    {token : Uuid}
    (hCall : e.call.endsClaim jobId token = true)
    (hToken : currentToken db jobId = some token)
    (hGone :
      currentToken (postgres.performAll db e.writes) jobId ≠
        some token) :
    EndsExecution db e jobId := by
  have hActs : e.writes ≠ [] := by
    intro hNone
    rw [hNone] at hGone
    exact hGone hToken
  unfold Call.endsClaim at hCall
  split at hCall
  · rename_i jobId' runId token' now hShape
    rw [hShape] at hPc
    simp only [RunWrites, hShape, hPc, Call.length]
      at hWrites
    simp only [Bool.and_eq_true, decide_eq_true_eq] at hCall
    rw [← hCall.1]
    exact hWrites.resolve_left hActs
  · rename_i jobId' runId token' errMsg nextRunAt now hShape
    rw [hShape] at hPc
    simp only [RunWrites, hShape, hPc, Call.length]
      at hWrites
    simp only [Bool.and_eq_true, decide_eq_true_eq] at hCall
    rw [← hCall.1]
    exact hWrites.resolve_left hActs
  · rename_i jobId' now hShape
    rw [hShape] at hPc
    simp only [RunWrites, hShape, hPc, Call.length]
      at hWrites
    rw [← of_decide_eq_true hCall]
    exact hWrites.resolve_left hActs
  · rename_i jobId' hShape
    rw [hShape] at hPc
    simp only [RunWrites, hShape, hPc, Call.length]
      at hWrites
    have hSame := of_decide_eq_true hCall
    subst hSame
    rcases hWrites with hEnds | ⟨j, hHolds, hFree, _⟩
    · exact hEnds
    · simp [currentToken, hHolds.row, hFree] at hToken
  · cases hCall

/-
  An expired job whose open run another session has locked
  stays expired.
-/
theorem expired_of_keeps_true
    (hMatch : RunsMatch db history)
    (hRows :
      ∀ id j, db.job? id = some j → j.RowOk clock)
    (hRowsAfter :
      ∀ id j,
        (postgres.performAll db e.writes).job? id =
            some j →
          j.RowOk clock)
    (hLawful : Lawful (postgres.entry db e))
    (hPc : e.pc = e.call.length)
    (hWrites : RunWrites db e)
    (hLocks : ∀ k ∈ e.locks, k ∉ g.locks)
    {now : Time}
    {r : RunRow}
    (hRun : HoldsRun db g jobId r)
    (hKeeps : e.call.keepsExpiry jobId now db = true)
    (hBefore : expired db jobId now = true) :
    expired (postgres.performAll db e.writes) jobId now =
      true := by
  rcases (Option.any_eq_true _ _).mp hBefore with
    ⟨j, hJob, hStale⟩
  have hFlight := inFlight_of_stale hStale
  rcases (inFlight_iff_token hRows hJob).mp hFlight with
    ⟨token, hToken⟩
  -- The commit cannot have locked the same open run.
  have hStays :
      currentToken (postgres.performAll db e.writes) jobId =
        some token := by
    by_contra hGone
    have hEnd : ends jobId token (postgres.entry db e) =
        true := by
      simp [ends, hToken, hGone]
    have hCall := (hLawful.jobs jobId).endsClaim_of_ends
      (hRows jobId) hEnd
    rcases EndsExecution.of_ends hPc hWrites hCall hToken
      hGone with
      ⟨_, _, r', _, _, _, _, _, hRun', _, _⟩
    have hSame := hMatch.open_unique hRun'.row hRun'.is_open
      hRun.row hRun.is_open
    apply hLocks _ hRun'.lock
    rw [hSame]
    exact hRun.lock
  rcases currentToken_eq_some_iff.mp hStays with
    ⟨new, hNew, hNewToken⟩
  cases hLawful.jobs jobId with
  | kept hSame =>
      unfold expired
      rw [show
        (postgres.performAll db e.writes).job? jobId =
          db.job? jobId from hSame]
      exact hBefore
  | inserted j' _ hNone _ =>
      cases hJob.symm.trans hNone
  | changed old new' hOld hSome hChange =>
      cases hJob.symm.trans hOld
      cases hNew.symm.trans hSome
      have hNewFlight :=
        (inFlight_iff_token hRowsAfter hNew).mpr
          ⟨token, hStays⟩
      have hNoClaim : e.call.claimArgs? = none := by
        cases hArgs : e.call.claimArgs? with
        | none => rfl
        | some a =>
            rcases Call.claim_changes hChange hArgs with
              ⟨_, hPending, _⟩
            simp [Job.inFlight, hPending] at hFlight
      rcases Call.extends_of_inFlight hChange hNoClaim
        hNewFlight with
        ⟨token', deadline, hCall, hOldToken, _, hEq⟩
      have hSame := stale_extend hKeeps hJob hCall hOldToken
        hFlight
      unfold expired
      rw [hNew, hEq]
      exact hSame.trans hStale

/- The commit of one session keeps the writes of another. -/
theorem RunWrites.frame
    (hOther : RunWrites db g)
    (hAll : AllJustified db e)
    (hLocks : ∀ k ∈ e.locks, k ∉ g.locks)
    (hExpiry :
      ∀ jobId now, g.call = .requeueStaleJob jobId now →
        g.pc = 1 →
          (expired db jobId g.start = false →
            expired (postgres.performAll db e.writes) jobId
                g.start = false) ∧
          ∀ r, HoldsRun db g jobId r →
            expired db jobId g.start = true →
              expired (postgres.performAll db e.writes) jobId
                g.start = true) :
    RunWrites (postgres.performAll db e.writes) g := by
  have hEnd : ∀ jobId,
      g.writes = [] ∨ EndsExecution db g jobId →
        g.writes = [] ∨
          EndsExecution (postgres.performAll db e.writes) g
            jobId :=
    fun _ h => h.imp_right (fun h => h.frame hAll hLocks)
  unfold RunWrites at hOther ⊢
  split at hOther
  · exact hEnd _ hOther
  · exact hEnd _ hOther
  · rename_i jobId now hCall hPc
    have hKept := hExpiry jobId now hCall hPc
    rcases hOther with
      ⟨hFresh, hNone⟩ |
        ⟨hStale, r, r', hHolds, hClosed, hOne⟩
    · exact .inl ⟨hKept.1 hFresh, hNone⟩
    · exact .inr ⟨hKept.2 r hHolds hStale, r, r',
        hHolds.frame hAll hLocks, hClosed, hOne⟩
  · exact hEnd _ hOther
  · rcases hOther with ⟨j, hHolds, hOne⟩
    exact ⟨j, hHolds.frame hAll hLocks, hOne⟩
  · rcases hOther with hEnds | ⟨j, hHolds, hFree, hOne⟩
    · exact .inl (hEnds.frame hAll hLocks)
    · exact .inr
        ⟨j, hHolds.frame hAll hLocks, hFree, hOne⟩
  · trivial

end

------------------------------------------------------------
-- Runs With Clean Reaps
------------------------------------------------------------

section

variable {ok : Sys → Step → Prop}
variable {s : Sys}

/- A worker reports on a claim that was made. -/
theorem calls_issued
    (hReach : sluice.ReachableWith ok s) :
    ∀ call ∈ s.calls, ∀ jobId runId token,
      call.report? = some (jobId, runId, token) →
        ∃ claim ∈ s.calls, ∃ a,
          claim.claimArgs? = some a ∧ a.jobId = jobId ∧
            a.runId = runId ∧ a.token = token := by
  refine Engine.calls_invariant
    (I := fun _ calls =>
      ∀ call ∈ calls, ∀ jobId runId token,
        call.report? = some (jobId, runId, token) →
          ∃ claim ∈ calls, ∃ a,
            claim.claimArgs? = some a ∧ a.jobId = jobId ∧
              a.runId = runId ∧ a.token = token)
    ?_ ?_ ?_ hReach
  · intro clock call hCall
    cases hCall
  · intro s call _ hInv hAdmits call' hCall' jobId runId
      token hReport
    rcases List.mem_cons.mp hCall' with hNew | hOld
    · subst hNew
      have hIssued :
          Call.admitted.issued s.calls jobId runId token =
            true := by
        cases call' <;>
          simp only [Call.report?, Option.some.injEq,
            Prod.mk.injEq, reduceCtorEq] at hReport
        all_goals
          rcases hReport with ⟨rfl, rfl, rfl⟩
          exact (Bool.and_eq_true_iff.mp hAdmits).2
      rcases List.any_eq_true.mp hIssued with
        ⟨claim, hClaim, hMatch⟩
      rcases (Option.any_eq_true _ _).mp hMatch with
        ⟨a, hArgs, hSame⟩
      simp only [Bool.and_eq_true, decide_eq_true_eq]
        at hSame
      exact ⟨claim, List.mem_cons_of_mem _ hClaim, a, hArgs,
        hSame.1.1, hSame.1.2, hSame.2⟩
    · rcases hInv call' hOld jobId runId token hReport with
        ⟨claim, hClaim, hArgs⟩
      exact ⟨claim, List.mem_cons_of_mem _ hClaim, hArgs⟩
  · intro clock calls n hInv
    exact hInv

/-
  The run that a worker reports on is the open run of the
  job, as long as the worker's token is current: no two
  claims bring the same token.
-/
theorem own_run
    (hReach : sluice.ReachableWith ok s)
    (hMatch : RunsMatch s.db s.history)
    {e : Sess}
    (he : e ∈ s.sessions)
    {jobId runId token : Uuid}
    (hReport : e.call.report? = some (jobId, runId, token))
    (hToken : currentToken s.db jobId = some token) :
    ∃ r, s.db.run? runId = some r ∧
      openRun jobId r = true := by
  have hBooked := Engine.booked hReach
  rcases calls_issued hReach e.call
    (hBooked.sessions e he).1 jobId runId token hReport with
    ⟨claim, hClaim, a, hArgs, _, hRunId, hSame⟩
  rcases hMatch.running jobId token hToken with
    ⟨b, ⟨c, hc, hCall, _⟩, hTokenB, ⟨r, hRun, hOpen⟩, _⟩
  have hOne : claim = c.call := by
    refine Engine.call_of_nonce Call.newToken?
      Call.newToken_fresh hReach claim hClaim c.call
      (hBooked.history c hc).1 token ?_ ?_
    · simp [Call.newToken?, hArgs, hSame]
    · simp [Call.newToken?, hCall, hTokenB]
  rw [hOne, hCall] at hArgs
  cases hArgs
  rw [← hRunId]
  exact ⟨r, hRun, hOpen⟩

end

/-
  The runs match the claims, and the sessions have pending
  what keeps it so.
-/
structure RunInv (s : Sys) : Prop where
  runs : RunsMatch s.db s.history
  writes : ∀ e ∈ s.sessions, RunWrites s.db e

variable {s : Sys}

theorem RunInv.opened
    (hInv : RunInv s)
    (call : Call)
    (calls : List Call) :
    RunInv
      { s with
        sessions :=
          Session.opened call s.clock :: s.sessions
        calls := calls } := by
  refine ⟨hInv.runs, ?_⟩
  intro e he
  rcases List.mem_cons.mp he with hNew | hOld
  · subst hNew
    cases call <;> trivial
  · exact hInv.writes e hOld

/- A reaper's first statement finds the job as it should. -/
theorem clean_of_reapsCleanly
    {l₁ l₂ : List Sess}
    {e : Sess}
    {scan : Scan}
    (hSplit : s.sessions = l₁ ++ e :: l₂)
    (hClean :
      reapsCleanly s (.statement l₁.length scan) = true) :
    ∀ jobId now, e.call = .requeueStaleJob jobId now →
      e.pc = 0 → ∀ j, s.db.job? jobId = some j →
        j.inFlight = true → j.stale e.start = true := by
  intro jobId now hCall hPc j hJob hFlight
  have hGet := getElem?_of_split hSplit
  simpa [reapsCleanly, hGet, hCall, hPc, hJob, hFlight]
    using hClean

/- A commit keeps the expiry that open reaps have seen. -/
theorem keepsExpiry_of_reapsCleanly
    {l₁ l₂ : List Sess}
    {e g : Sess}
    (hSplit : s.sessions = l₁ ++ e :: l₂)
    (hClean : reapsCleanly s (.commit l₁.length) = true)
    (hMem : g ∈ s.sessions) :
    ∀ jobId now, g.call = .requeueStaleJob jobId now →
      g.pc = 1 →
        e.call.keepsExpiry jobId g.start s.db = true := by
  intro jobId now hCall hPc
  have hGet := getElem?_of_split hSplit
  simp only [reapsCleanly, hGet, List.all_eq_true] at hClean
  have hKeeps := hClean g hMem
  simpa [hCall, hPc] using hKeeps

/- Runs match claims while every reap is clean. -/
theorem runInv_of_clean
    (hReach :
      sluice.ReachableWith
        (fun s label => reapsCleanly s label = true) s) :
    RunInv s := by
  refine Engine.reachableWith_invariant ?_ ?_ ?_ ?_ ?_ ?_
    hReach
  · intro db clock hDb
    refine ⟨⟨?_, ?_, ?_, ?_⟩, ?_⟩
    · intro jobId token hToken
      simp [currentToken, hDb.job?] at hToken
    all_goals simp [hDb.run?]
  · intro s call _ hInv _ _
    exact hInv.opened call _
  · intro s l₁ e l₂ scan writes locks hPrev hInv hClean
      hSplit _ hOutcome _
    have hMem : e ∈ s.sessions := self_mem_of_split hSplit
    have hSound := sessions_sound hPrev e hMem
    have hView := statement_view hSound.shaped scan
      (lockedBy (l₁ ++ l₂)) s.db
    refine ⟨hInv.runs, ?_⟩
    intro f hf
    rcases mem_split_iff.mp hf with hMoved | hOther
    · subst hMoved
      change RunWrites s.db _
      exact runWrites_advance hInv.runs (jobs_rowOk hPrev)
        hSound.shaped (hInv.writes e hMem)
        (fun _ _ _ hReport hToken =>
          own_run hPrev hInv.runs hMem hReport hToken)
        (clean_of_reapsCleanly hSplit hClean)
        (hView.symm.trans hOutcome)
    · exact hInv.writes f (mem_of_split hSplit hOther)
  · intro s l₁ e l₂ _ hInv hSplit
    refine ⟨hInv.runs, ?_⟩
    intro f hf
    exact hInv.writes f (mem_of_split hSplit hf)
  · intro s l₁ e l₂ hPrev hInv hClean hSplit hPc
    have hMem : e ∈ s.sessions := self_mem_of_split hSplit
    have hSound := sessions_sound hPrev e hMem
    have hLawful := lawful_entry hPrev hMem
    have hRows := jobs_rowOk hPrev
    refine ⟨hInv.runs.commit hRows hSound hLawful
      (fun a hArgs => run?_of_claim hPrev hMem
        (newRun?_of_claim hArgs))
      hPc (hInv.writes e hMem), ?_⟩
    intro g hg
    have hOther := mem_of_split hSplit hg
    have hLocks : ∀ k ∈ e.locks, k ∉ g.locks :=
      fun _ hk =>
        Engine.not_mem_locks_of_split hPrev hSplit hg hk
    apply (hInv.writes g hOther).frame hSound.justified
      hLocks
    intro jobId now hCall hOne
    have hKeeps := keepsExpiry_of_reapsCleanly hSplit hClean
      hOther jobId now hCall hOne
    refine ⟨expired_of_keeps_false hLawful ?_ hKeeps, ?_⟩
    · intro j hInsert
      exact inFlight_inserted
        (session_insertable hPrev hMem j hInsert)
    · intro r hRun
      refine expired_of_keeps_true hInv.runs hRows ?_ hLawful
        hPc (hInv.writes e hMem) hLocks hRun hKeeps
      intro id j hJob
      exact (hLawful.jobs id).rowOk
        ((Engine.booked hPrev).sessions e hMem).2.1
        (session_insertable hPrev hMem) (hRows id) hJob
  · intro s n _ hInv
    exact ⟨hInv.runs, hInv.writes⟩

/- A requeue that keeps its job commits no write. -/
theorem requeue_keeps_nothing
    (hReach :
      sluice.ReachableWith
        (fun s label => reapsCleanly s label = true) s) :
    ∀ c ∈ s.history, ∀ jobId now,
      c.call = .requeueStaleJob jobId now →
        c.after.job? jobId = c.before.job? jobId →
          c.after = c.before := by
  refine Engine.history_invariant ?_ hReach
  intro s e hPrev hMem hPc jobId now hCall hSame
  have hWrites := (runInv_of_clean hPrev).writes e hMem
  rw [Engine.entry_call] at hCall
  have hTwo : e.pc = 2 := by
    rw [hPc, hCall]
    rfl
  simp only [RunWrites, hCall, hTwo] at hWrites
  rcases hWrites with hNone | hEnds
  · rw [Engine.entry_after, Engine.entry_before, hNone]
    rfl
  · rcases hEnds.effect with
      ⟨token, _, _, hToken, _, _, hTokens, _⟩
    have hGone := hTokens jobId
    have hKept :
        (postgres.performAll s.db e.writes).job? jobId =
          s.db.job? jobId := hSame
    rw [if_pos rfl, currentToken, hKept] at hGone
    rw [currentToken, hGone] at hToken
    cases hToken

/-
  In every run whose reaps are clean, the open runs are those
  of the current claims.
-/
theorem runs_ok_of_clean_reaps
    (hReach :
      sluice.ReachableWith
        (fun s label => reapsCleanly s label = true) s) :
    RunsOk s := by
  have hRuns := (runInv_of_clean hReach).runs
  have hRows := jobs_rowOk hReach
  constructor
  · intro jobId j hJob hRunning
    have hFlight := (hRows jobId j hJob).inFlight_iff.mpr
      hRunning
    rcases (inFlight_iff_token hRows hJob).mp hFlight with
      ⟨token, hToken⟩
    rcases hRuns.openRuns_of_token hToken with
      ⟨a, r, hClaimant, hSame, hRun, _, hOne⟩
    refine ⟨r, a, hOne, hClaimant, ?_, Db.id_of_run? hRun⟩
    simp only [currentToken, hJob, Option.bind_some]
      at hToken
    rw [hToken, hSame]
  · intro jobId j hJob hResting
    apply hRuns.openRuns_of_none
    intro token hToken
    refine hResting ((hRows jobId j hJob).inFlight_iff.mp ?_)
    exact (inFlight_iff_token hRows hJob).mpr
      ⟨token, hToken⟩
  · exact hRuns.succeeded_error
  · exact requeue_keeps_nothing hReach

/-
  A claim that is lost and requeued; a second claim that
  succeeds.
-/
theorem runs_ok_after_requeue :
    ∃ s,
      sluice.ReachableWith
          (fun s label => reapsCleanly s label = true) s ∧
        (s.db.run? 1).map RunRow.state = some .failed ∧
          (s.db.run? 2).map RunRow.state =
              some .succeeded ∧
            RunsOk s := by
  rcases
    Machine.exists_reachableWith_of_run Sample.init_start
      reapsCleanly
      ((Call.insertJob (Sample.job 7)).whole ++
        (Call.tryClaim (Sample.claim 7 1)).whole ++
          [Label.tick 60000000] ++
            (Call.requeueStaleJob 7 60000000).whole ++
              ((Call.promoteReadyFailed 10).whole ++
                (Call.tryClaim
                  (Sample.claim 7 2)).whole ++
                  (Call.completeJob 7 2 2
                    60000000).whole))
      (fun s =>
        (s.db.run? 1).map RunRow.state = some .failed ∧
          (s.db.run? 2).map RunRow.state = some .succeeded)
      (by decide +kernel)
  with ⟨s, hReach, hFailed, hSucceeded⟩
  exact ⟨s, hReach, hFailed, hSucceeded,
    runs_ok_of_clean_reaps hReach⟩

/-
  A reaper that acts on an old list: the worker extends its
  deadline before the reaper gets to the job. The requeue
  leaves the job alone, but has closed its run as failed.
-/
theorem late_reap_closes_live_run :
    ∃ listed s, sluice.Reachable listed ∧
      (getStaleClaims listed.clock listed.db).map Job.id =
          [7] ∧
        sluice.run
            ((Call.extendDeadline 7 1 90000000).whole ++
              (Call.requeueStaleJob 7 60000000).whole)
            listed =
          some s ∧
        sluice.Reachable s ∧
          (s.db.job? 7).map Job.state = some .running ∧
            openRuns s.db 7 = [] ∧ ¬RunsOk s := by
  rcases
    Machine.exists_reachable_of_run Sample.init_start
      ((Call.insertJob (Sample.job 7)).whole ++
        (Call.tryClaim (Sample.claim 7 1)).whole ++
          [Label.tick 60000000])
      (fun listed =>
        (getStaleClaims listed.clock listed.db).map Job.id =
            [7] ∧
          ∃ s ∈ sluice.run
              ((Call.extendDeadline 7 1 90000000).whole ++
                (Call.requeueStaleJob 7 60000000).whole)
              listed,
            (s.db.job? 7).map Job.state = some .running ∧
              openRuns s.db 7 = [])
      (by decide +kernel)
  with ⟨listed, hReach, hListed, s, hReaped, hRunning,
    hNone⟩
  refine ⟨listed, s, hReach, hListed, hReaped,
    hReach.of_run hReaped, hRunning, hNone, ?_⟩
  intro hOk
  rcases Option.map_eq_some_iff.mp hRunning with
    ⟨j, hJob, hState⟩
  rcases hOk.running 7 j hJob hState with ⟨r, a, hOne, _⟩
  rw [hNone] at hOne
  cases hOne

end Storage

end Sluice
