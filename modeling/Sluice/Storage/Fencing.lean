import Sluice.Storage.RowInvariant

/-
  Claim tokens fence off stale workers.

  A commit that installs a token claims the job, and one that
  removes it ends the claim. Because tokens are new, each is
  installed at most once; because only these two kinds of
  commits touch the column, a token that has been removed is
  never current again.

  Main declarations:
    * `currentToken`
    * `claims` and `ends`
    * `Live`
    * `claims_balance`
    * `claims_fenced`
-/

------------------------------------------------------------
-- Claims And Their Ends
------------------------------------------------------------

namespace Sluice

namespace Storage

open Foundations ReadCommitted

/- Column `claim_token` of a job. -/
def currentToken (db : Db) (jobId : Uuid) : Option Uuid :=
  (db.job? jobId).bind Job.claimToken

/- A commit that claims the job with this token. -/
def claims (jobId token : Uuid) (c : Entry) : Bool :=
  currentToken c.before jobId ≠ some token &&
    currentToken c.after jobId = some token

/- A commit that ends the claim with this token. -/
def ends (jobId token : Uuid) (c : Entry) : Bool :=
  currentToken c.before jobId = some token &&
    currentToken c.after jobId ≠ some token

/- A token that was given out and not yet taken back. -/
def Live (s : Sys) (jobId token : Uuid) : Prop :=
  s.history.countP (ends jobId token) <
    s.history.countP (claims jobId token)

namespace Call

/- The job and the token of a worker's later writes. -/
def record? : Call → Option (Uuid × Uuid)
| .extendDeadline jobId token _ => some (jobId, token)
| .completeJob jobId _ token _ => some (jobId, token)
| .failJob jobId _ token _ _ _ => some (jobId, token)
| _ => none

/- The calls that can end a claim. -/
def endsClaim (jobId token : Uuid) : Call → Bool
| .completeJob jobId' _ token' _ =>
    jobId' = jobId && token' = token
| .failJob jobId' _ token' _ _ _ =>
    jobId' = jobId && token' = token
| .requeueStaleJob jobId' _ => jobId' = jobId
| .forceFail jobId' => jobId' = jobId
| _ => false

end Call

variable {db : Db}
variable {c : Entry}
variable {jobId token : Uuid}
variable {writes : List Write}
variable {locks : List RowKey}

theorem currentToken_eq_some_iff
    {jobId token : Uuid} :
    currentToken db jobId = some token ↔
      ∃ j, db.job? jobId = some j ∧
        j.claimToken = some token := by
  unfold currentToken
  exact Option.bind_eq_some_iff

/- Only a claim with this token installs it. -/
theorem Moves.claimArgs_of_claims
    (hMoves : Moves c jobId)
    (hClaims : claims jobId token c = true) :
    ∃ a, c.call.claimArgs? = some a ∧ a.jobId = jobId ∧
      a.token = token := by
  unfold claims at hClaims
  simp only [Bool.and_eq_true, decide_eq_true_eq]
    at hClaims
  rcases hClaims with ⟨hBefore, hAfter⟩
  rcases currentToken_eq_some_iff.mp hAfter with
    ⟨j, hJob, hToken⟩
  cases hMoves with
  | kept hSame =>
      refine absurd ?_ hBefore
      exact currentToken_eq_some_iff.mpr
        ⟨j, hSame.symm.trans hJob, hToken⟩
  | inserted new _ _ hNew =>
      cases hJob.symm.trans hNew
      cases hToken
  | changed old new hOld hNew hChange =>
      cases hJob.symm.trans hNew
      cases hArgs : c.call.claimArgs? with
      | none =>
          have hOldToken :=
            (Call.changes_token hChange hArgs hToken).1
          exact absurd (currentToken_eq_some_iff.mpr
            ⟨old, hOld, hOldToken⟩) hBefore
      | some a =>
          rcases Call.claim_changes hChange hArgs with
            ⟨hId, _, rfl⟩
          exact ⟨a, rfl, hId.symm.trans (Db.id_of_job? hOld),
            Option.some.inj hToken⟩

/- Only the end of an execution removes a token. -/
theorem Moves.endsClaim_of_ends
    {clock : Time}
    (hMoves : Moves c jobId)
    (hRows :
      ∀ j, c.before.job? jobId = some j → j.RowOk clock)
    (hEnds : ends jobId token c = true) :
    c.call.endsClaim jobId token = true := by
  unfold ends at hEnds
  simp only [Bool.and_eq_true, decide_eq_true_eq] at hEnds
  rcases hEnds with ⟨hBefore, hAfter⟩
  rcases currentToken_eq_some_iff.mp hBefore with
    ⟨j, hJob, hToken⟩
  have hRunning : j.state = .running :=
    (hRows j hJob).claimToken.mp (by simp [hToken])
  cases hMoves with
  | kept hSame =>
      refine absurd ?_ hAfter
      exact currentToken_eq_some_iff.mpr
        ⟨j, hSame.trans hJob, hToken⟩
  | inserted new _ hNone _ =>
      rw [hJob] at hNone
      cases hNone
  | changed old new hOld hNew hChange =>
      cases hJob.symm.trans hOld
      have hNewToken : new.claimToken ≠ some token := by
        intro hSame
        exact hAfter (currentToken_eq_some_iff.mpr
          ⟨new, hNew, hSame⟩)
      have hId : j.id = jobId := Db.id_of_job? hOld
      cases hCall : c.call <;>
        simp only [hCall, Call.changes] at hChange
      case completeJob | failJob =>
        have hSame := hChange.2.1.symm.trans hToken
        simp [Call.endsClaim, ← hChange.1, hId,
          Option.some.inj hSame]
      case requeueStaleJob | forceFail =>
        simp [Call.endsClaim, ← hChange.1, hId]
      case extendDeadline | cancelJob =>
        rw [hChange.2.2.2] at hNewToken
        exact absurd hToken hNewToken
      all_goals
        simp [hRunning] at hChange

------------------------------------------------------------
-- Tokens Along A Run
------------------------------------------------------------

variable {ok : Sys → Step → Prop}
variable {s : Sys}

/-
  Every installation of a token but the current one has been
  matched by a removal. The two counts move only when the
  column changes.
-/
theorem claims_balance
    (hReach : sluice.ReachableWith ok s)
    (jobId token : Uuid) :
    s.history.countP (claims jobId token) =
      s.history.countP (ends jobId token) +
        (if currentToken s.db jobId = some token then 1
          else 0) := by
  refine Engine.commits_invariant
    (I := fun db history =>
      history.countP (claims jobId token) =
        history.countP (ends jobId token) +
          (if currentToken db jobId = some token then 1
            else 0))
    ?_ ?_ hReach
  · intro db hDb
    have hNone : currentToken db jobId ≠ some token := by
      simp [currentToken, hDb.job?]
    rw [if_neg hNone]
    rfl
  · intro s l₁ e l₂ _ hInv _ _ _
    simp only [Engine.committed, List.countP_cons, claims,
      ends]
    by_cases hBefore : currentToken s.db jobId = some token
    all_goals
      by_cases hAfter :
        currentToken (postgres.performAll s.db e.writes)
          jobId = some token
    all_goals
      simp [hBefore, hAfter] at hInv ⊢
      omega

theorem history_claims
    (hReach : sluice.ReachableWith ok s)
    (hc : c ∈ s.history)
    (hClaims : claims jobId token c = true) :
    ∃ a, c.call.claimArgs? = some a ∧ a.jobId = jobId ∧
      a.token = token :=
  ((history_lawful hReach c hc).jobs
    jobId).claimArgs_of_claims hClaims

/- A token is installed at most once. -/
theorem claims_once
    (hReach : sluice.ReachableWith ok s)
    (jobId token : Uuid) :
    s.history.countP (claims jobId token) ≤ 1 := by
  have hOnce := Engine.nonce_once Call.newToken?
    Call.newToken_fresh hReach token
  refine Nat.le_trans (List.countP_mono_left ?_) hOnce
  intro c hc hClaims
  rcases history_claims hReach hc hClaims with
    ⟨a, hArgs, _, hToken⟩
  simp only [Call.newToken?, hArgs, Option.map_some, hToken,
    decide_true]

/- A claim that changes anything installs its token. -/
theorem history_claim_succeeds
    (hReach : sluice.ReachableWith ok s) :
    ∀ c ∈ s.history, ∀ a, c.call.claimArgs? = some a →
      c.after = c.before ∨
        claims a.jobId a.token c = true := by
  refine history_forall ?_ hReach
  intro c clock hLawful hRows a hArgs
  rcases hLawful.claims a hArgs with
    hSame | ⟨old, hOld, hPending, hAfter, _⟩
  · exact .inl hSame
  · right
    have hCleared := (hRows _ old hOld).of_not_running
      (by simp [hPending])
    simp only [claims, currentToken, hOld, hAfter,
      Option.bind_some, hCleared.1, Job.claim]
    simp

theorem history_ends
    (hReach : sluice.ReachableWith ok s)
    (jobId token : Uuid) :
    ∀ c ∈ s.history, ends jobId token c = true →
      c.call.endsClaim jobId token = true := by
  refine history_forall ?_ hReach
  intro c clock hLawful hRows hEnds
  exact (hLawful.jobs jobId).endsClaim_of_ends
    (hRows jobId) hEnds

/- A token is live exactly while it is the current one. -/
theorem live_iff
    (hReach : sluice.ReachableWith ok s)
    {jobId token : Uuid} :
    Live s jobId token ↔
      currentToken s.db jobId = some token := by
  have hBalance := claims_balance hReach jobId token
  unfold Live
  by_cases hCurrent : currentToken s.db jobId = some token
  · rw [if_pos hCurrent] at hBalance
    simp only [hCurrent, iff_true]
    omega
  · rw [if_neg hCurrent] at hBalance
    simp only [hCurrent, iff_false]
    omega

------------------------------------------------------------
-- Stale Writes
------------------------------------------------------------

/- Without the current token there is no claim to match. -/
theorem matchClaim_eq_none
    (hStale : currentToken db jobId ≠ some token) :
    matchClaim jobId token db = none := by
  cases hMatch : matchClaim jobId token db with
  | none => rfl
  | some j =>
      rcases matchClaim_row hMatch with
        ⟨hJob, hId, hToken, _⟩
      rw [hId] at hJob
      exact absurd
        (currentToken_eq_some_iff.mpr ⟨j, hJob, hToken⟩)
        hStale

/- The statement of a stale worker writes nothing. -/
theorem statement_of_stale
    {call : Call}
    (hRecord : call.record? = some (jobId, token))
    (hStale : currentToken db jobId ≠ some token)
    (start : Time)
    (scan : Scan)
    (locked : RowKey → Bool) :
    call.statement 0 start scan locked db = noRows := by
  have hNone := matchClaim_eq_none hStale
  cases call <;>
    simp only [Call.record?, Option.some.injEq,
      Prod.mk.injEq, reduceCtorEq] at hRecord
  case extendDeadline id token' deadline =>
    rcases hRecord with ⟨rfl, rfl⟩
    simp only [Call.statement, extendDeadline, hNone]
  case completeJob id runId token' now =>
    rcases hRecord with ⟨rfl, rfl⟩
    simp only [Call.statement, completeJob, hNone]
  case failJob id runId token' errMsg nextRunAt now =>
    rcases hRecord with ⟨rfl, rfl⟩
    simp only [Call.statement, failJob, hNone]

theorem jobResult_locks
    {j : Job}
    (hResult : jobResult j = .proceed writes locks) :
    .job j.id ∈ locks := by
  cases hResult
  exact List.mem_cons_self

theorem endClaim_locks
    {jobId runId : Uuid}
    {j : Job}
    {f : RunRow → Option RunRow}
    (hResult :
      endClaim jobId runId j f db =
        .proceed writes locks) :
    .job j.id ∈ locks := by
  unfold endClaim at hResult
  split at hResult
  · cases hResult
  · cases hResult
    exact List.mem_cons_self

/- A worker's write that is not empty locks the job. -/
theorem statement_record_locks
    {call : Call}
    {pc : Nat}
    {start : Time}
    {scan : Scan}
    {locked : RowKey → Bool}
    (hRecord : call.record? = some (jobId, token))
    (hOutcome :
      call.statement pc start scan locked db =
        .proceed writes locks) :
    writes = [] ∨ .job jobId ∈ locks := by
  cases call <;>
    simp only [Call.record?, Option.some.injEq,
      Prod.mk.injEq, reduceCtorEq] at hRecord
  all_goals
    rcases hRecord with ⟨rfl, rfl⟩
    cases pc with
    | succ pc => cases hOutcome
    | zero => ?_
  case extendDeadline.zero id token' deadline =>
    simp only [Call.statement, extendDeadline] at hOutcome
    split at hOutcome
    · cases hOutcome
      exact .inl rfl
    · rename_i hMatch
      have hLock := jobResult_locks hOutcome
      rw [← (matchClaim_row hMatch).2.1]
      exact .inr hLock
  case completeJob.zero id runId token' now =>
    simp only [Call.statement, completeJob] at hOutcome
    split at hOutcome
    · cases hOutcome
      exact .inl rfl
    · rename_i hMatch
      have hLock := endClaim_locks hOutcome
      rw [← (matchClaim_row hMatch).2.1]
      exact .inr hLock
  case failJob.zero id runId token' errMsg nextRunAt now =>
    simp only [Call.statement, failJob] at hOutcome
    split at hOutcome
    · cases hOutcome
      exact .inl rfl
    · rename_i hMatch
      have hLock := endClaim_locks hOutcome
      rw [← (matchClaim_row hMatch).2.1]
      exact .inr hLock

/-
  A worker's pending writes exist only while its token is
  current.
-/
def RecordWrites (db : Db) (e : Sess) : Prop :=
  ∀ jobId token, e.call.record? = some (jobId, token) →
    e.writes = [] ∨
      (currentToken db jobId = some token ∧
        .job jobId ∈ e.locks)

theorem recordWrites_advance
    {e : Sess}
    {scan : Scan}
    {locked : RowKey → Bool}
    (hShaped : Shaped e)
    (hOutcome :
      e.call.statement e.pc e.start scan locked db =
        .proceed writes locks) :
    RecordWrites db (e.advance writes locks) := by
  intro jobId token hRecord
  rw [Session.advance_call] at hRecord
  rcases e with ⟨call, start, pc, old, held⟩
  cases pc with
  | succ pc =>
      have hAbort :
          call.statement (pc + 1) start scan locked db =
            .abort := by
        cases call <;> first | rfl | cases hRecord
      cases hAbort.symm.trans hOutcome
  | zero =>
      have hNone : old = [] := by
        cases call <;> exact hShaped
      subst hNone
      by_cases hCurrent :
          currentToken db jobId = some token
      · rcases statement_record_locks hRecord hOutcome with
          hEmpty | hLock
        · exact .inl hEmpty
        · exact .inr ⟨hCurrent,
            List.mem_append_right _ hLock⟩
      · have hStale := statement_of_stale hRecord hCurrent
          start scan locked
        cases hStale.symm.trans hOutcome
        exact .inl rfl

theorem sessions_recordWrites
    (hReach : sluice.ReachableWith ok s) :
    ∀ e ∈ s.sessions, RecordWrites s.db e := by
  have hBoth :
      ∀ e ∈ s.sessions,
        Sound s.db e ∧ RecordWrites s.db e := by
    refine Engine.sessions_invariant
      (P := fun db e => Sound db e ∧ RecordWrites db e)
      ?_ ?_ ?_ hReach
    · intro db call clock
      refine ⟨sound_opened db call clock, ?_⟩
      intro jobId token _
      exact .inl rfl
    · intro db e scan locked writes locks hP hOutcome
      have hView :=
        (statement_view hP.1.shaped scan locked db).symm.trans
          hOutcome
      exact ⟨hP.1.advance hView,
        recordWrites_advance hP.1.shaped hView⟩
    · intro db e f hP hOther hLocks
      refine ⟨hP.1.frame hOther.1 hLocks, ?_⟩
      intro jobId token hRecord
      rcases hP.2 jobId token hRecord with
        hNone | ⟨hCurrent, hLock⟩
      · exact .inl hNone
      · refine .inr ⟨?_, hLock⟩
        unfold currentToken
        rw [job?_performAll_of_unlocked hOther.1.justified
          (fun hf => hLocks _ hf hLock)]
        exact hCurrent
  intro e he
  exact (hBoth e he).2

/- A stale worker's call leaves the database as it was. -/
theorem history_stale
    (hReach : sluice.ReachableWith ok s)
    (jobId token : Uuid) :
    ∀ c ∈ s.history,
      c.call.record? = some (jobId, token) →
        currentToken c.before jobId ≠ some token →
          c.after = c.before := by
  refine Engine.history_invariant ?_ hReach
  intro s e hPrev he _ hRecord hStale
  have hWrites := sessions_recordWrites hPrev e he
  rcases hWrites jobId token hRecord with
    hNone | ⟨hCurrent, _⟩
  · rw [Engine.entry_after, hNone]
    rfl
  · exact absurd hCurrent hStale

------------------------------------------------------------
-- Fencing
------------------------------------------------------------

/-
  What fencing means for one job: at most one token is live,
  namely the current one; a token is claimed at most once and
  its claim ends at most once, by one of the calls that end
  an execution, after which it is never current again; and a
  worker whose token is not current changes nothing, neither
  by its statement nor by its commit.
-/
structure Fenced (s : Sys) (jobId : Uuid) : Prop where
  one_live : ∀ token token', Live s jobId token →
    Live s jobId token' → token = token'
  live_iff_current : ∀ token, Live s jobId token ↔
    currentToken s.db jobId = some token
  claims_le_one : ∀ token,
    s.history.countP (claims jobId token) ≤ 1
  ends_le_claims : ∀ token,
    s.history.countP (ends jobId token) ≤
      s.history.countP (claims jobId token)
  claims_by : ∀ c ∈ s.history, ∀ token,
    claims jobId token c = true →
      ∃ a, c.call.claimArgs? = some a ∧
        a.jobId = jobId ∧ a.token = token
  claim_succeeds : ∀ c ∈ s.history, ∀ a,
    c.call.claimArgs? = some a → a.jobId = jobId →
      c.after = c.before ∨ claims jobId a.token c = true
  ends_by : ∀ c ∈ s.history, ∀ token,
    ends jobId token c = true →
      c.call.endsClaim jobId token = true
  ended_not_current : ∀ c ∈ s.history, ∀ token,
    ends jobId token c = true →
      currentToken s.db jobId ≠ some token
  stale_statement : ∀ (call : Call) token,
    call.record? = some (jobId, token) →
      currentToken s.db jobId ≠ some token →
        ∀ start scan locked,
          call.statement 0 start scan locked s.db = noRows
  stale_commit : ∀ c ∈ s.history, ∀ token,
    c.call.record? = some (jobId, token) →
      currentToken c.before jobId ≠ some token →
        c.after = c.before

/- In every reachable state every job is fenced. -/
theorem claims_fenced
    (hReach : sluice.Reachable s)
    (jobId : Uuid) :
    Fenced s jobId where
  one_live := by
    intro token token' hOne hTwo
    have hSame := ((live_iff hReach).mp hOne).symm.trans
      ((live_iff hReach).mp hTwo)
    exact Option.some.inj hSame
  live_iff_current := fun _ => live_iff hReach
  claims_le_one := claims_once hReach jobId
  ends_le_claims := by
    intro token
    have hBalance := claims_balance hReach jobId token
    omega
  claims_by := fun _ hc _ => history_claims hReach hc
  claim_succeeds := by
    intro c hc a hArgs hJob
    subst hJob
    exact history_claim_succeeds hReach c hc a hArgs
  ends_by := fun c hc token =>
    history_ends hReach jobId token c hc
  ended_not_current := by
    intro c hc token hEnds hCurrent
    -- Its one claim has ended, so it cannot be live.
    have hBalance := claims_balance hReach jobId token
    have hOnce := claims_once hReach jobId token
    have hSome : 0 < s.history.countP (ends jobId token) :=
      List.countP_pos_iff.mpr ⟨c, hc, hEnds⟩
    rw [if_pos hCurrent] at hBalance
    omega
  stale_statement := fun _ _ => statement_of_stale
  stale_commit := fun c hc token =>
    history_stale hReach jobId token c hc

/-
  A reaped worker reports success after the job has been
  claimed anew, and the second claim stays live.
-/
theorem claims_fenced_after_reap :
    ∃ s, sluice.Reachable s ∧
      currentToken s.db 7 = some 2 ∧
        s.history.countP (ends 7 1) = 1 ∧ Fenced s 7 := by
  rcases
    Machine.exists_reachable_of_run Sample.init_start
      ((Call.insertJob (Sample.job 7)).whole ++
        (Call.tryClaim (Sample.claim 7 1)).whole ++
          .tick 31000000 ::
            ((Call.requeueStaleJob 7 31000000).whole ++
              (Call.tryClaim (Sample.claim 7 2)).whole ++
                (Call.completeJob 7 1 1 0).whole))
      (fun s =>
        currentToken s.db 7 = some 2 ∧
          s.history.countP (ends 7 1) = 1)
      (by decide +kernel)
  with ⟨s, hReach, hToken, hEnd⟩
  exact ⟨s, hReach, hToken, hEnd,
    claims_fenced hReach 7⟩

end Storage

end Sluice
