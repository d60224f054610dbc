import Sluice.Job.Backoff
import Sluice.Storage.RunHistory

/-
  A failed execution, as the worker and the database see it.

  The worker decides on the job that its claim returned, the
  database on the row it finds when the failure is recorded.
  They agree because nothing changes `attempt` or
  `max_retries` while the claim's token is in the row. The
  next run lies after the failure; when recording it takes
  longer than the backoff, the job is due as soon as it is
  recorded.

  Key definitions include:
    * `ClaimedBy`
    * `finalState` and `failureCall`
    * `Kept`
    * `FailWrites`

  Key theorems include:
    * `snapshots_kept`
    * `sessions_failWrites`
    * `failure_recorded_as_decided`
    * `failed_job_due_when_recorded`
-/

------------------------------------------------------------
-- What The Worker Decides
------------------------------------------------------------

namespace Sluice

namespace Worker

open Foundations ReadCommitted Storage

/- The commit of a claim, and the job that it returned. -/
structure ClaimedBy
    (k : Entry)
    (a : ClaimArgs)
    (snapshot : Job) :
    Prop where
  call : k.call.claimArgs? = some a
  claimed : claims a.jobId a.token k = true
  returned : k.after.job? a.jobId = some snapshot

/- The state that `process` reports in its metrics. -/
def finalState (snapshot : Job) : JobState :=
  if snapshot.shouldRetry then .failed else .dead

/- The worker's `nextRunAt` for a failure at a time. -/
def nextRunAt
    (snapshot : Job)
    (failedAt : Time)
    (draw : Nat) :
    Option Time :=
  if snapshot.shouldRetry then
    some
      (nextRetryAt snapshot.attempt snapshot.backoffSeconds
        failedAt draw)
  else none

/-
  The call of `FailJob` that `process` makes, once or several
  times. Each one takes its own `now`.
-/
def failureCall
    (a : ClaimArgs)
    (snapshot : Job)
    (errMsg : String)
    (failedAt : Time)
    (draw : Nat)
    (now : Time) :
    Call :=
  .failJob a.jobId a.runId a.token errMsg
    (nextRunAt snapshot failedAt draw) now

/-
  As long as the claim's token is in the row, the columns
  that decide on a retry are those of the snapshot. The run
  of the claim stays.
-/
structure Kept
    (db : Db)
    (a : ClaimArgs)
    (snapshot : Job) :
    Prop where
  row :
    ∀ j, db.job? a.jobId = some j →
      j.claimToken = some a.token →
        j.attempt = snapshot.attempt ∧
          j.maxRetries = snapshot.maxRetries
  run :
    ∃ r, db.run? a.runId = some r ∧ r.jobId = a.jobId

------------------------------------------------------------
-- Snapshots
------------------------------------------------------------

section

variable {ok : Sys → Step → Prop}
variable {s : Sys}
variable {c k : Entry}
variable {a : ClaimArgs}
variable {snapshot : Job}

/- What a claim returns and opens. -/
theorem ClaimedBy.kept
    (hClaimed : ClaimedBy k a snapshot)
    (hLawful : Lawful k) :
    Kept k.after a snapshot := by
  constructor
  · intro j hJob _
    cases hClaimed.returned.symm.trans hJob
    exact ⟨rfl, rfl⟩
  · rcases hLawful.claims a hClaimed.call with
      hSame | ⟨old, _, _, hAfter, _, hRun⟩
    · have hClaims := hClaimed.claimed
      simp [claims, hSame] at hClaims
    · exact ⟨_, hRun, Db.id_of_job? hAfter⟩

/- The commit of another call keeps a snapshot. -/
theorem Kept.commit
    (hKept : Kept c.before a snapshot)
    (hLawful : Lawful c)
    (hOther : c.call.newToken? ≠ some a.token) :
    Kept c.after a snapshot := by
  constructor
  · intro j hJob hToken
    cases hLawful.jobs a.jobId with
    | kept hSame =>
        exact hKept.row j (hSame.symm.trans hJob) hToken
    | inserted new _ _ hNew =>
        cases hJob.symm.trans hNew
        cases hToken
    | changed old new hOld hNew hChange =>
        cases hJob.symm.trans hNew
        cases hClaim : c.call.claimArgs? with
        | some b =>
            -- A claim would have brought its own token.
            rw [(Call.claim_changes hChange hClaim).2.2]
              at hToken
            refine absurd ?_ hOther
            simp only [Call.newToken?, hClaim,
              Option.map_some]
            exact hToken
        | none =>
            rcases Call.changes_token hChange hClaim hToken
              with ⟨hOldToken, hAttempt⟩
            have hRow := hKept.row old hOld hOldToken
            have hFixed := Call.changes_fixed hChange
            exact ⟨hAttempt.trans hRow.1,
              hFixed.maxRetries.trans hRow.2⟩
  · rcases hKept.run with ⟨r, hRun, hJob⟩
    cases hLawful.runs a.runId with
    | kept hSame => exact ⟨r, hSame.trans hRun, hJob⟩
    | opened _ hNone =>
        rw [hRun] at hNone
        cases hNone
    | closed old new hOld hNew hCloses =>
        cases hOld.symm.trans hRun
        exact ⟨new, hNew,
          (Call.closes_fixed hCloses).2.1.trans hJob⟩

/-
  Every snapshot is kept by the database, and was kept when
  any later commit began to take effect.
-/
structure SnapshotsKept
    (db : Db)
    (history : List Entry) :
    Prop where
  now :
    ∀ k ∈ history, ∀ a snapshot,
      ClaimedBy k a snapshot → Kept db a snapshot
  before :
    history.Pairwise
      (fun c k =>
        ∀ a snapshot, ClaimedBy k a snapshot →
          Kept c.before a snapshot)

theorem snapshots_kept
    (hReach : sluice.ReachableWith ok s) :
    SnapshotsKept s.db s.history := by
  refine Engine.commits_invariant
    (I := SnapshotsKept) ?_ ?_ hReach
  · intro db _
    constructor
    · intro k hk
      cases hk
    · exact .nil
  · intro s l₁ e l₂ hPrev hInv _ hSplit _
    have he : e ∈ s.sessions := self_mem_of_split hSplit
    have hLawful := lawful_entry hPrev he
    constructor
    · intro k hk a snapshot hClaimed
      rcases List.mem_cons.mp hk with hNew | hOld
      · subst hNew
        exact hClaimed.kept hLawful
      · refine (hInv.now k hOld a snapshot hClaimed).commit
          (c := postgres.entry s.db e) hLawful ?_
        -- No two calls bring the same token.
        intro hToken
        have hNodup := Engine.nonces_nodup
          Call.newToken? Call.newToken_fresh hPrev
        have hDisjoint := (List.nodup_append.mp hNodup).2.2
        refine hDisjoint a.token
          (List.mem_filterMap.mpr ⟨e, he, hToken⟩) a.token
          (List.mem_filterMap.mpr ⟨k, hOld, ?_⟩) rfl
        simp only [Call.newToken?, hClaimed.call,
          Option.map_some]
    · exact List.pairwise_cons.mpr
        ⟨hInv.now, hInv.before⟩

/- The run that a report with a current token names. -/
theorem run_of_report
    (hReach : sluice.ReachableWith ok s)
    {call : Call}
    (hCall : call ∈ s.calls)
    {jobId runId token : Uuid}
    (hReport : call.report? = some (jobId, runId, token))
    (hToken : currentToken s.db jobId = some token) :
    ∃ r, s.db.run? runId = some r ∧ r.jobId = jobId := by
  have hLive := (live_iff hReach).mpr hToken
  have hClaims :
      0 < s.history.countP (claims jobId token) := by
    unfold Live at hLive
    omega
  rcases List.countP_pos_iff.mp hClaims with
    ⟨k, hk, hClaim⟩
  rcases history_claims hReach hk hClaim with
    ⟨b, hArgs, hJob, hSame⟩
  subst hJob hSame
  rcases calls_issued hReach call hCall _ _ _ hReport with
    ⟨claim, hMade, a, hClaimArgs, _, hRun, hTokens⟩
  -- The claim that was made and the one that committed.
  have hOne : claim = k.call := by
    refine Engine.call_of_nonce Call.newToken?
      Call.newToken_fresh hReach claim hMade k.call
      ((Engine.booked hReach).history k hk).1 b.token ?_ ?_
    · simp [Call.newToken?, hClaimArgs, hTokens]
    · simp [Call.newToken?, hArgs]
  rw [hOne, hArgs] at hClaimArgs
  cases hClaimArgs
  have hAfter := hClaim
  simp only [claims, Bool.and_eq_true, decide_eq_true_eq]
    at hAfter
  rcases currentToken_eq_some_iff.mp hAfter.2 with
    ⟨snapshot, hReturned, _⟩
  rw [← hRun]
  exact ((snapshots_kept hReach).now k hk b snapshot
    ⟨hArgs, hClaim, hReturned⟩).run

end

------------------------------------------------------------
-- What FailJob Writes
------------------------------------------------------------

variable {ok : Sys → Step → Prop}
variable {s : Sys}

/-
  The pending writes of `FailJob`: none, or the failed row
  and the finished run, with one state for both.
-/
def FailWrites (db : Db) (e : Sess) : Prop :=
  ∀ jobId runId token errMsg nextRunAt now,
    e.call = .failJob jobId runId token errMsg nextRunAt now →
      e.writes = [] ∨
        ∃ j r r', HoldsJob db e jobId j ∧
          j.claimToken = some token ∧
          db.run? runId = some r ∧ r.jobId = jobId ∧
          .run runId ∈ e.locks ∧
          r.finish (j.fail errMsg nextRunAt).state now
              (some errMsg) = some r' ∧
          e.writes =
            [.updateJob (j.fail errMsg nextRunAt),
              .updateRun r']

/- The statement of `FailJob`, when the named run exists. -/
theorem failJob_writes
    {db : Db}
    {e : Sess}
    {jobId runId token : Uuid}
    {errMsg : String}
    {nextRunAt : Option Time}
    {now : Time}
    {writes : List Write}
    {locks : List RowKey}
    (hNone : e.writes = [])
    (hRun :
      currentToken db jobId = some token →
        ∃ r, db.run? runId = some r ∧ r.jobId = jobId)
    (hOutcome :
      failJob jobId runId token errMsg nextRunAt now db =
        .proceed writes locks) :
    (e.advance writes locks).writes = [] ∨
      ∃ j r r',
        HoldsJob db (e.advance writes locks) jobId j ∧
          j.claimToken = some token ∧
          db.run? runId = some r ∧ r.jobId = jobId ∧
          .run runId ∈ (e.advance writes locks).locks ∧
          r.finish (j.fail errMsg nextRunAt).state now
              (some errMsg) = some r' ∧
          (e.advance writes locks).writes =
            [.updateJob (j.fail errMsg nextRunAt),
              .updateRun r'] := by
  rw [Session.advance_writes, Session.advance_locks, hNone,
    List.nil_append]
  unfold failJob at hOutcome
  split at hOutcome
  · cases hOutcome
    exact .inl rfl
  · rename_i j hMatch
    right
    rcases matchClaim_row hMatch with
      ⟨hJob, hId, hToken, _⟩
    rw [hId] at hJob
    rcases hRun (currentToken_eq_some_iff.mpr
      ⟨j, hJob, hToken⟩) with ⟨r, hRow, hRunJob⟩
    have hRunId : r.id = runId := Db.id_of_run? hRow
    have hFilter :
        db.jobRuns.rows.filter
            (fun r =>
              decide (r.jobId = jobId) &&
                decide (r.id = runId)) =
          [r] := by
      refine Table.filter_eq_singleton hRow ?_ ?_
      · simp [hRunJob, hRunId]
      · intro key r' hRow' hMeets
        simp only [Bool.and_eq_true, decide_eq_true_eq]
          at hMeets
        exact (Db.id_of_run? hRow').symm.trans hMeets.2
    unfold endClaim at hOutcome
    split at hOutcome
    · cases hOutcome
    · rename_i runs hRuns
      rcases updateRuns_singleton hFilter hRuns with
        ⟨r', hNew, hOne⟩
      subst hOne
      cases hOutcome
      have hSame : r'.id = runId :=
        (RunRow.finish_fixed hNew).1.trans hRunId
      refine ⟨j, r, r', ⟨hJob, ?_⟩, hToken, hRow, hRunJob,
        ?_, hNew, rfl⟩
      · rw [Session.advance_locks]
        apply List.mem_append_right
        rw [← hId]
        exact List.mem_cons_self
      · apply List.mem_append_right
        rw [← hSame]
        exact List.mem_cons_of_mem _ List.mem_cons_self

theorem sessions_failWrites
    (hReach : sluice.ReachableWith ok s) :
    ∀ e ∈ s.sessions, FailWrites s.db e := by
  refine Engine.reachable_sessions_invariant ?_ ?_ ?_ hReach
  · intro db call clock jobId runId token errMsg nextRunAt
      now _
    exact .inl rfl
  · intro s e scan locked writes locks hPrev he _ hOutcome
      jobId runId token errMsg nextRunAt now hCall
    have hShaped := (sessions_sound hPrev e he).shaped
    have hView :=
      (statement_view hShaped scan locked s.db).symm.trans
        hOutcome
    rw [Session.advance_call] at hCall
    have hMade := ((Engine.booked hPrev).sessions e he).1
    rcases e with ⟨call, start, pc, old, held⟩
    cases hCall
    cases pc with
    | succ pc => cases hView
    | zero =>
        exact failJob_writes hShaped
          (run_of_report hPrev hMade rfl) hView
  · intro s e f hPrev hf hWrites _ hLocks jobId runId token
      errMsg nextRunAt now hCall
    have hOther := (sessions_sound hPrev f hf).justified
    rcases hWrites jobId runId token errMsg nextRunAt now
        hCall with
      hNone | ⟨j, r, r', hHolds, hToken, hRun, hJob, hLock,
        hFinish, hSame⟩
    · exact .inl hNone
    · refine .inr ⟨j, r, r', ⟨?_, hHolds.lock⟩, hToken, ?_,
        hJob, hLock, hFinish, hSame⟩
      · rw [job?_performAll_of_unlocked hOther
          (fun hIn => hLocks _ hIn hHolds.lock)]
        exact hHolds.row
      · exact run?_performAll_of_unlocked hOther hRun
          (fun hIn => hLocks _ hIn hLock)

/-
  What the commit of `FailJob` does: nothing, or the same
  state for the job and its run.
-/
def RecordsFailure (c : Entry) : Prop :=
  ∀ jobId runId token errMsg nextRunAt now,
    c.call = .failJob jobId runId token errMsg nextRunAt now →
      c.after = c.before ∨
        ∃ j r', c.before.job? jobId = some j ∧
          j.claimToken = some token ∧
          c.after.job? jobId =
            some (j.fail errMsg nextRunAt) ∧
          c.after.run? runId = some r' ∧
          r'.jobId = jobId ∧
          r'.state = (j.fail errMsg nextRunAt).state

theorem FailWrites.records
    {db : Db}
    {e : Sess}
    (hWrites : FailWrites db e) :
    RecordsFailure (postgres.entry db e) := by
  intro jobId runId token errMsg nextRunAt now hCall
  rcases hWrites jobId runId token errMsg nextRunAt now
      hCall with
    hNone | ⟨j, r, r', hHolds, hToken, hRun, hJob, _,
      hFinish, hSame⟩
  · left
    rw [Engine.entry_after, hNone]
    rfl
  · right
    have hAfter :
        postgres.performAll db e.writes =
          (db.perform
            (.updateJob (j.fail errMsg nextRunAt))).perform
              (.updateRun r') := by
      rw [hSame]
      rfl
    have hId : jobId = (j.fail errMsg nextRunAt).id :=
      (Db.id_of_job? hHolds.row).symm
    have hFixed := RunRow.finish_fixed hFinish
    have hRunId : runId = r'.id :=
      ((hFixed.1.trans (Db.id_of_run? hRun))).symm
    refine ⟨j, r', hHolds.row, hToken, ?_, ?_,
      hFixed.2.1.trans hJob, hFixed.2.2.2.2.1⟩
    · simp only [Engine.entry_after, hAfter,
        Db.job?_perform, if_pos hId, hHolds.row,
        Option.map_some]
    · simp only [Engine.entry_after, hAfter,
        Db.run?_perform, if_pos hRunId, hRun,
        Option.map_some]

theorem history_failures
    (hReach : sluice.ReachableWith ok s) :
    ∀ c ∈ s.history, RecordsFailure c := by
  refine Engine.history_invariant ?_ hReach
  intro s e hPrev he _
  exact (sessions_failWrites hPrev e he).records

/- Stored jobs back off by a second at least. -/
theorem jobs_backoff
    (hReach : sluice.ReachableWith ok s) :
    (∀ id j, s.db.job? id = some j →
      1 ≤ j.backoffSeconds) ∧
      ∀ c ∈ s.history, ∀ id j, c.after.job? id = some j →
        1 ≤ j.backoffSeconds := by
  refine Engine.commits_invariant
    (I := fun db history =>
      (∀ id j, db.job? id = some j →
        1 ≤ j.backoffSeconds) ∧
        ∀ c ∈ history, ∀ id j, c.after.job? id = some j →
          1 ≤ j.backoffSeconds)
    ?_ ?_ hReach
  · intro db hDb
    constructor
    · intro id j hJob
      rw [hDb.job?] at hJob
      cases hJob
    · intro c hc
      cases hc
  · intro s l₁ e l₂ hPrev hInv _ hSplit _
    have he : e ∈ s.sessions := self_mem_of_split hSplit
    have hAfter :
        ∀ id j,
          (postgres.performAll s.db e.writes).job? id =
            some j → 1 ≤ j.backoffSeconds := by
      intro id j hJob
      cases moves_committed (sessions_sound hPrev e he) id with
      | kept hSame =>
          exact hInv.1 id j (hSame.symm.trans hJob)
      | inserted new hCall _ hNew =>
          cases hJob.symm.trans hNew
          have hInsertable :=
            session_insertable hPrev he new hCall
          simp only [Job.insertable, Bool.and_eq_true,
            decide_eq_true_eq] at hInsertable
          exact hInsertable.1.2
      | changed old new hOld hNew hChange =>
          cases hJob.symm.trans hNew
          rw [(Call.changes_fixed hChange).backoffSeconds]
          exact hInv.1 id old hOld
    refine ⟨hAfter, ?_⟩
    intro c hc
    rcases List.mem_cons.mp hc with hNew | hOld
    · subst hNew
      exact hAfter
    · exact hInv.2 c hOld

------------------------------------------------------------
-- Agreement
------------------------------------------------------------

/- The row that a failure leaves, when the columns agree. -/
theorem state_fail
    {j snapshot : Job}
    (hAttempt : j.attempt = snapshot.attempt)
    (hRetries : j.maxRetries = snapshot.maxRetries)
    (errMsg : String)
    (nextRunAt : Option Time) :
    (j.fail errMsg nextRunAt).state =
      finalState snapshot := by
  unfold Job.fail finalState Job.shouldRetry
  simp only [hAttempt, hRetries, decide_eq_true_eq]
  by_cases hRetry : snapshot.attempt < snapshot.maxRetries
  · rw [if_neg (by omega), if_pos hRetry]
  · rw [if_pos (by omega), if_neg hRetry]

theorem runAt_fail
    {j snapshot : Job}
    (hAttempt : j.attempt = snapshot.attempt)
    (hRetries : j.maxRetries = snapshot.maxRetries)
    (hRetry : snapshot.shouldRetry = true)
    (errMsg : String)
    (failedAt : Time)
    (draw : Nat) :
    (j.fail errMsg
        (nextRunAt snapshot failedAt draw)).runAt =
      nextRetryAt snapshot.attempt snapshot.backoffSeconds
        failedAt draw := by
  unfold nextRunAt
  rw [if_pos hRetry]
  unfold Job.shouldRetry at hRetry
  rw [decide_eq_true_eq] at hRetry
  unfold Job.fail
  simp only [hAttempt, hRetries]
  rw [if_neg (by omega)]
  rfl

/-
  When the failure of a claimed job is recorded, the row gets
  the state that the worker decided on, and the run gets the
  same one. A job to be retried runs again at the time the
  worker chose, which is later than the failure; until then
  no promotion takes it.
-/
theorem failure_recorded_as_decided
    (hReach : sluice.Reachable s)
    {c k : Entry}
    (hOrder : [c, k].Sublist s.history)
    {a : ClaimArgs}
    {snapshot : Job}
    (hClaimed : ClaimedBy k a snapshot)
    {errMsg : String}
    {failedAt : Time}
    {draw : Nat}
    {now : Time}
    (hCall :
      c.call =
        failureCall a snapshot errMsg failedAt draw now)
    (hEffect : c.after ≠ c.before) :
    ∃ j r, c.after.job? a.jobId = some j ∧
      c.after.run? a.runId = some r ∧
      r.jobId = a.jobId ∧ r.state = j.state ∧
      (j.state = .failed ↔ snapshot.shouldRetry = true) ∧
      (j.state = .dead ↔ snapshot.shouldRetry = false) ∧
      (j.state = .failed →
        nextRunAt snapshot failedAt draw = some j.runAt ∧
          failedAt < j.runAt ∧
          ∀ limit start scan locked db,
            start < j.runAt →
              j ∉ dueJobs .failed limit start scan locked
                db) := by
  have hc : c ∈ s.history :=
    hOrder.subset List.mem_cons_self
  have hk : k ∈ s.history :=
    hOrder.subset
      (List.mem_cons_of_mem _ List.mem_cons_self)
  have hKept := List.pairwise_iff_forall_sublist.mp
    (snapshots_kept hReach).before hOrder a snapshot hClaimed
  have hBackoff := (jobs_backoff hReach).2 k hk a.jobId
    snapshot hClaimed.returned
  rcases history_failures hReach c hc _ _ _ _ _ _ hCall with
    hSame | ⟨j, r, hJob, hToken, hNew, hRun, hRunJob, hState⟩
  · exact absurd hSame hEffect
  · rcases hKept.row j hJob hToken with
      ⟨hAttempt, hRetries⟩
    have hFinal := state_fail hAttempt hRetries errMsg
      (nextRunAt snapshot failedAt draw)
    refine ⟨_, r, hNew, hRun, hRunJob, hState, ?_, ?_, ?_⟩
    · rw [hFinal]
      unfold finalState
      split <;> simp_all
    · rw [hFinal]
      unfold finalState
      split <;> simp_all
    · intro hFailed
      have hRetry : snapshot.shouldRetry = true := by
        by_contra hNever
        rw [hFinal, finalState, if_neg hNever] at hFailed
        cases hFailed
      have hRunAt := runAt_fail hAttempt hRetries hRetry
        errMsg failedAt draw
      refine ⟨?_, ?_, ?_⟩
      · rw [hRunAt, nextRunAt, if_pos hRetry]
      · rw [hRunAt]
        exact lt_nextRetryAt snapshot.attempt hBackoff
          failedAt draw
      · intro limit start scan locked db hEarly hDue
        have hLe := (mem_dueJobs hDue).2.2
        exact absurd hLe (not_le.mpr hEarly)

namespace Sample

/- A job that is retried once, after a second. -/
def flaky : Job :=
  { Storage.Sample.job 7 with backoffSeconds := 1 }

/- What the claim of it returns. -/
def flakyClaimed : Job :=
  flaky.inserted.claim (Storage.Sample.claim 7 1)

/-
  The job is inserted and claimed, and fails at once. The
  failure is recorded after a delay.
-/
def failureRun (delay : Nat) : List Step :=
  (Call.insertJob flaky).whole ++
    (Call.tryClaim (Storage.Sample.claim 7 1)).whole ++
      .tick delay ::
        (failureCall (Storage.Sample.claim 7 1) flakyClaimed
          "timeout" 0 0 delay).whole

/- The last two commits are those of the failed claim. -/
def endsInFailure (delay : Time) (s : Sys) : Bool :=
  match s.history with
  | [c, k, _] =>
      decide
          (k.call.claimArgs? =
            some (Storage.Sample.claim 7 1)) &&
        claims 7 1 k &&
        decide (k.after.job? 7 = some flakyClaimed) &&
        decide
          (c.call =
            failureCall (Storage.Sample.claim 7 1)
              flakyClaimed "timeout" 0 0 delay) &&
        decide (c.after.job? 7 ≠ c.before.job? 7)
  | _ => false

theorem failure_of_endsInFailure
    {delay : Time}
    {s : Sys}
    (hEnds : endsInFailure delay s = true) :
    ∃ c k, [c, k].Sublist s.history ∧
      s.history.head? = some c ∧
      ClaimedBy k (Storage.Sample.claim 7 1) flakyClaimed ∧
      c.call =
        failureCall (Storage.Sample.claim 7 1) flakyClaimed
          "timeout" 0 0 delay ∧
      c.after ≠ c.before := by
  unfold endsInFailure at hEnds
  split at hEnds
  · rename_i c k first hHistory
    simp only [Bool.and_eq_true, decide_eq_true_eq] at hEnds
    rcases hEnds with
      ⟨⟨⟨⟨hArgs, hClaims⟩, hReturned⟩, hCall⟩, hMoved⟩
    refine ⟨c, k, ?_, ?_, ⟨hArgs, hClaims, hReturned⟩, hCall,
      ?_⟩
    · rw [hHistory]
      exact List.sublist_append_left [c, k] [first]
    · rw [hHistory]
      rfl
    · intro hSame
      rw [hSame] at hMoved
      exact hMoved rfl
  · cases hEnds

end Sample

/- A failure that is recorded at once. -/
theorem failure_recorded_as_decided_at_once :
    ∃ s c r, sluice.Reachable s ∧ c ∈ s.history ∧
      c.after.run? 1 = some r ∧ r.state = .failed := by
  rcases
    Machine.exists_reachable_of_run
      Storage.Sample.init_start
      (Sample.failureRun 0)
      (fun s => Sample.endsInFailure 0 s = true)
      (by decide +kernel)
  with ⟨s, hReach, hCheck⟩
  rcases Sample.failure_of_endsInFailure hCheck with
    ⟨c, k, hOrder, _, hClaimed, hCall, hEffect⟩
  rcases failure_recorded_as_decided hReach hOrder hClaimed
      hCall hEffect with
    ⟨j, r, _, hRun, _, hSame, hFailed, _, _⟩
  exact ⟨s, c, r, hReach,
    hOrder.subset List.mem_cons_self, hRun,
    hSame.trans (hFailed.mpr rfl)⟩

/-
  A failure that is recorded after two seconds, when the
  backoff of one second has passed: the failed job is due.
-/
theorem failed_job_due_when_recorded :
    ∃ s c k, sluice.Reachable s ∧
      s.history.head? = some c ∧ k ∈ s.history ∧
      ClaimedBy k (Storage.Sample.claim 7 1)
        Sample.flakyClaimed ∧
      c.call =
        failureCall (Storage.Sample.claim 7 1)
          Sample.flakyClaimed "timeout" 0 0 (2 * second) ∧
      ∃ j, s.db.job? 7 = some j ∧ j.state = .failed ∧
        j.runAt ≤ s.clock := by
  rcases
    Machine.exists_reachable_of_run
      Storage.Sample.init_start
      (Sample.failureRun 2000000)
      (fun s =>
        Sample.endsInFailure (2 * second) s = true ∧
          ∃ j ∈ s.db.job? 7, j.state = .failed ∧
            j.runAt ≤ s.clock)
      (by decide +kernel)
  with ⟨s, hReach, hEnds, j, hJob, hFailed, hDue⟩
  rcases Sample.failure_of_endsInFailure hEnds with
    ⟨c, k, hOrder, hHead, hClaimed, hCall, _⟩
  exact ⟨s, c, k, hReach, hHead,
    hOrder.subset
      (List.mem_cons_of_mem _ List.mem_cons_self),
    hClaimed, hCall, j, hJob, hFailed, hDue⟩

end Worker

end Sluice
