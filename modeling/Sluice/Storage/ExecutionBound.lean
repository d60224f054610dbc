import Sluice.Storage.Fencing

/-
  How often a job is executed.

  Since its insertion or latest replay a job has been claimed
  once more than it has failed while it runs, and as often as
  it has failed while it waits. The column `attempt` counts
  the failures, and the invariant of the row bounds it.

  Main declarations:
    * `executions`
    * `openedAttempt`
    * `Ledger`
    * `Ledger.step`
    * `executions_bounded`
-/

------------------------------------------------------------
-- Executions Since The Latest Reset
------------------------------------------------------------

namespace Sluice

namespace Storage

open Foundations ReadCommitted

namespace Call

/- The calls that start a job from its first attempt. -/
def starts : Call → Bool
| .insertJob _ => true
| .replayJob _ _ => true
| _ => false

/- The calls that count a failed attempt. -/
def charges : Call → Bool
| .failJob _ _ _ _ _ _ => true
| .requeueStaleJob _ _ => true
| _ => false

end Call

/- A commit that changes the row of the job. -/
def touches (jobId : Uuid) (c : Entry) : Bool :=
  c.after.job? jobId ≠ c.before.job? jobId

/- A successful claim of the job. -/
def executes (jobId : Uuid) (c : Entry) : Bool :=
  touches jobId c && c.call.claimArgs?.isSome

/- An insertion or a replay of the job. -/
def resets (jobId : Uuid) (c : Entry) : Bool :=
  touches jobId c && c.call.starts

/- A failure of the job, reported or by expiry. -/
def costs (jobId : Uuid) (c : Entry) : Bool :=
  touches jobId c && c.call.charges

/- The commits after the latest reset, newest first. -/
def since
    (jobId : Uuid)
    (history : List Entry) :
    List Entry :=
  history.takeWhile (fun c => !resets jobId c)

/- The successful claims among them. -/
def executions
    (jobId : Uuid)
    (history : List Entry) :
    List Entry :=
  (since jobId history).filter (executes jobId)

/- The attempt of the run that a commit opens for the job. -/
def openedAttempt
    (jobId : Uuid)
    (c : Entry) :
    Option Int :=
  c.call.newRun?.bind
    (fun runId =>
      if c.before.run? runId = none then
        ((c.after.run? runId).filter
          (fun r => r.jobId = jobId)).map RunRow.attempt
      else none)

section

variable {jobId : Uuid}
variable {c : Entry}
variable {history : List Entry}

theorem since_cons_of_resets
    (hResets : resets jobId c = true) :
    since jobId (c :: history) = [] := by
  simp [since, hResets]

theorem since_cons_of_not_resets
    (hNot : resets jobId c = false) :
    since jobId (c :: history) =
      c :: since jobId history := by
  simp [since, hNot]

theorem executions_cons
    (hNot : resets jobId c = false) :
    executions jobId (c :: history) =
      if executes jobId c then
        c :: executions jobId history
      else executions jobId history := by
  unfold executions
  rw [since_cons_of_not_resets hNot, List.filter_cons]

end

------------------------------------------------------------
-- The Ledger Of A Job
------------------------------------------------------------

/-
  The failures and executions since the latest reset agree
  with the row, and the executions are numbered from zero.
-/
structure Ledger
    (jobId : Uuid)
    (history : List Entry)
    (j : Job) : Prop where
  attempt :
    j.attempt = (since jobId history).countP (costs jobId)
  numbered :
    (executions jobId history).reverse.map
        (openedAttempt jobId) =
      (List.range (executions jobId history).length).map
        (fun k : Nat => some (k : Int))
  running : j.state = .running →
    ((executions jobId history).length : Int) =
      j.attempt + 1
  waiting : j.cancellable = true →
    ((executions jobId history).length : Int) = j.attempt
  bound :
    ((executions jobId history).length : Int) ≤
      j.maxRetries + 1

section

variable {jobId : Uuid}
variable {c : Entry}
variable {history : List Entry}
variable {old new : Job}

/- A commit that neither starts, claims nor fails the job. -/
theorem Ledger.plain
    (hLedger : Ledger jobId history old)
    (hResets : resets jobId c = false)
    (hExecutes : executes jobId c = false)
    (hCosts : costs jobId c = false)
    (hAttempt : new.attempt = old.attempt)
    (hRetries : new.maxRetries = old.maxRetries)
    (hRunning :
      new.state = .running → old.state = .running)
    (hWaiting :
      new.cancellable = true → old.cancellable = true) :
    Ledger jobId (c :: history) new := by
  have hSame :
      executions jobId (c :: history) =
        executions jobId history := by
    rw [executions_cons hResets, hExecutes]
    rfl
  constructor
  · rw [hAttempt, since_cons_of_not_resets hResets,
      List.countP_cons, hCosts]
    exact hLedger.attempt
  · rw [hSame]
    exact hLedger.numbered
  · intro hState
    rw [hSame, hAttempt]
    exact hLedger.running (hRunning hState)
  · intro hState
    rw [hSame, hAttempt]
    exact hLedger.waiting (hWaiting hState)
  · rw [hSame, hRetries]
    exact hLedger.bound

/- A commit that starts the job anew. -/
theorem Ledger.reset
    (hResets : resets jobId c = true)
    (hAttempt : new.attempt = 0)
    (hRetries : 0 ≤ new.maxRetries)
    (hNotRunning : new.state ≠ .running) :
    Ledger jobId (c :: history) new := by
  have hNone : executions jobId (c :: history) = [] := by
    unfold executions
    rw [since_cons_of_resets hResets]
    rfl
  constructor
  · rw [hAttempt, since_cons_of_resets hResets]
    rfl
  · rw [hNone]
    rfl
  · intro hRunning
    exact absurd hRunning hNotRunning
  · intro _
    rw [hNone, hAttempt]
    rfl
  · rw [hNone]
    change (0 : Int) ≤ _
    omega

/- A commit that claims the waiting job. -/
theorem Ledger.claimed
    (hLedger : Ledger jobId history old)
    (hResets : resets jobId c = false)
    (hExecutes : executes jobId c = true)
    (hCosts : costs jobId c = false)
    (hPending : old.state = .pending)
    (hRunning : new.state = .running)
    (hAttempt : new.attempt = old.attempt)
    (hRetries : new.maxRetries = old.maxRetries)
    (hLe : old.attempt ≤ old.maxRetries)
    (hOpened : openedAttempt jobId c = some old.attempt) :
    Ledger jobId (c :: history) new := by
  have hMore :
      executions jobId (c :: history) =
        c :: executions jobId history := by
    rw [executions_cons hResets, hExecutes]
    rfl
  have hCount := hLedger.waiting
    (by simp [Job.cancellable, hPending])
  constructor
  · rw [hAttempt, since_cons_of_not_resets hResets,
      List.countP_cons, hCosts]
    exact hLedger.attempt
  · rw [hMore, List.reverse_cons, List.map_append,
      hLedger.numbered, List.length_cons, List.range_succ,
      List.map_append, List.map_singleton,
      List.map_singleton, hOpened, hCount]
  · intro _
    rw [hMore, List.length_cons, hAttempt]
    omega
  · intro hWaiting
    simp [Job.cancellable, hRunning] at hWaiting
  · rw [hMore, List.length_cons, hRetries]
    omega

/- A commit that fails the running job. -/
theorem Ledger.failed
    (hLedger : Ledger jobId history old)
    (hResets : resets jobId c = false)
    (hExecutes : executes jobId c = false)
    (hCosts : costs jobId c = true)
    (hRunning : old.state = .running)
    (hNotRunning : new.state ≠ .running)
    (hAttempt : new.attempt = old.attempt + 1)
    (hRetries : new.maxRetries = old.maxRetries) :
    Ledger jobId (c :: history) new := by
  have hSame :
      executions jobId (c :: history) =
        executions jobId history := by
    rw [executions_cons hResets, hExecutes]
    rfl
  have hCount := hLedger.running hRunning
  constructor
  · rw [hAttempt, since_cons_of_not_resets hResets,
      List.countP_cons, hCosts, hLedger.attempt]
    simp
  · rw [hSame]
    exact hLedger.numbered
  · intro hState
    exact absurd hState hNotRunning
  · intro _
    rw [hSame, hAttempt]
    exact hCount
  · rw [hSame, hRetries]
    exact hLedger.bound

end

------------------------------------------------------------
-- One Commit
------------------------------------------------------------

section

variable {jobId : Uuid}
variable {c : Entry}
variable {old new : Job}

theorem touches_of_ne
    (hBefore : c.before.job? jobId = some old)
    (hAfter : c.after.job? jobId = some new)
    (hNe : new ≠ old) :
    touches jobId c = true := by
  simp only [touches, hBefore, hAfter, ne_eq,
    Option.some.injEq, hNe, not_false_eq_true, decide_true]

/- The run that a successful claim opens. -/
theorem openedAttempt_of_claim
    (hLawful : Lawful c)
    {a : ClaimArgs}
    (hArgs : c.call.claimArgs? = some a)
    (hJob : a.jobId = jobId)
    (hBefore : c.before.job? jobId = some old)
    (hTouches : touches jobId c = true) :
    openedAttempt jobId c = some old.attempt := by
  subst hJob
  rcases hLawful.claims a hArgs with
    hSame | ⟨old', hOld, _, _, hFresh, hRun⟩
  · simp [touches, hSame] at hTouches
  · cases hBefore.symm.trans hOld
    have hId : old.id = a.jobId := Db.id_of_job? hBefore
    simp only [openedAttempt, newRun?_of_claim hArgs,
      Option.bind_some, hFresh, if_true, hRun]
    simp [RunRow.opened, Job.claim, hId, Option.filter]

variable {history : List Entry}
variable {clock : Time}

/- A claim of the job moves its ledger on. -/
theorem Ledger.step_claim
    (hLedger : Ledger jobId history old)
    (hLawful : Lawful c)
    {a : ClaimArgs}
    (hArgs : c.call.claimArgs? = some a)
    (hKind :
      c.call.starts = false ∧ c.call.charges = false)
    (hOk : old.RowOk clock)
    (hBefore : c.before.job? jobId = some old)
    (hAfter : c.after.job? jobId = some new)
    (hChange :
      old.id = a.jobId ∧ old.state = .pending ∧
        new = old.claim a) :
    Ledger jobId (c :: history) new := by
  rcases hChange with ⟨hJob, hPending, hNew⟩
  subst hNew
  have hTouches : touches jobId c = true := by
    apply touches_of_ne hBefore hAfter
    intro hSame
    have hState := congrArg Job.state hSame
    rw [hPending] at hState
    cases hState
  have hOpened := openedAttempt_of_claim hLawful hArgs
    (hJob.symm.trans (Db.id_of_job? hBefore)) hBefore
    hTouches
  exact hLedger.claimed
    (by simp [resets, hKind.1])
    (by simp [executes, hTouches, hArgs])
    (by simp [costs, hKind.2])
    hPending rfl rfl rfl
    (hOk.attempt_le_of_ne_dead (by simp [hPending]))
    hOpened

/- A failure of the job moves its ledger on. -/
theorem Ledger.step_fail
    (hLedger : Ledger jobId history old)
    (hKind :
      c.call.starts = false ∧
        c.call.claimArgs? = none ∧ c.call.charges = true)
    (hBefore : c.before.job? jobId = some old)
    (hAfter : c.after.job? jobId = some new)
    (hRunning : old.state = .running)
    (hNotRunning : new.state ≠ .running)
    (hAttempt : new.attempt = old.attempt + 1)
    (hRetries : new.maxRetries = old.maxRetries) :
    Ledger jobId (c :: history) new := by
  have hTouches : touches jobId c = true := by
    apply touches_of_ne hBefore hAfter
    intro hSame
    rw [hSame] at hAttempt
    omega
  exact hLedger.failed
    (by simp [resets, hKind.1])
    (by simp [executes, hKind.2.1])
    (by simp [costs, hTouches, hKind.2.2])
    hRunning hNotRunning hAttempt hRetries

/- A change that only moves the job between states. -/
theorem Ledger.step_plain
    (hLedger : Ledger jobId history old)
    (hKind :
      c.call.starts = false ∧
        c.call.claimArgs? = none ∧
          c.call.charges = false)
    (hAttempt : new.attempt = old.attempt)
    (hRetries : new.maxRetries = old.maxRetries)
    (hRunning :
      new.state = .running → old.state = .running)
    (hWaiting :
      new.cancellable = true → old.cancellable = true) :
    Ledger jobId (c :: history) new :=
  hLedger.plain
    (by simp [resets, hKind.1])
    (by simp [executes, hKind.2.1])
    (by simp [costs, hKind.2.2])
    hAttempt hRetries hRunning hWaiting

/- A counted failure moves the job on from running. -/
theorem Call.charges_changes
    {call : Call}
    {start clock : Time}
    (hOk : old.RowOk clock)
    (hCharges : call.charges = true)
    (hChange : call.changes start old new) :
    old.state = .running ∧ new.claimToken = none ∧
      new.attempt = old.attempt + 1 := by
  cases call <;>
    simp only [Call.charges, Bool.false_eq_true]
      at hCharges
  · rcases hChange with ⟨_, _, hInFlight, hEq⟩
    subst hEq
    exact ⟨hOk.inFlight_iff.mp hInFlight, rfl, rfl⟩
  · rcases hChange with ⟨_, hStale, hEq⟩
    subst hEq
    exact ⟨hOk.inFlight_iff.mp (inFlight_of_stale hStale),
      rfl, rfl⟩

/- A commit that leaves the job alone. -/
theorem Ledger.step_kept
    {j : Job}
    (hLedger : Ledger jobId history j)
    (hSame : c.after.job? jobId = c.before.job? jobId) :
    Ledger jobId (c :: history) j := by
  have hUntouched : touches jobId c = false := by
    simp [touches, hSame]
  refine hLedger.plain ?_ ?_ ?_ rfl rfl id id
  · simp [resets, hUntouched]
  · simp [executes, hUntouched]
  · simp [costs, hUntouched]

theorem Ledger.step_insert
    {j : Job}
    (hInsertable : j.insertable clock = true)
    (hCall : c.call = .insertJob j)
    (hBefore : c.before.job? jobId = none)
    (hAfter : c.after.job? jobId = some j.inserted) :
    Ledger jobId (c :: history) j.inserted := by
  have hOk := Job.RowOk.inserted hInsertable
  unfold Job.insertable at hInsertable
  simp only [Bool.and_eq_true, Bool.or_eq_true,
    decide_eq_true_eq] at hInsertable
  refine Ledger.reset ?_ hInsertable.1.1.1.1 hOk.maxRetries
    ?_
  · simp [resets, touches, hBefore, hAfter, hCall,
      Call.starts]
  · rcases hInsertable.2 with ⟨hPending, _⟩ | hScheduled
    · simp [Job.inserted, hPending]
    · simp [Job.inserted, hScheduled]

theorem Ledger.step_replay
    {id tenantId : Uuid}
    {start : Time}
    {old : Job}
    (hCall : c.call = .replayJob id tenantId)
    (hBefore : c.before.job? jobId = some old)
    (hAfter :
      c.after.job? jobId = some (old.replay start))
    (hDead : old.state = .dead)
    (hRetries : 0 ≤ old.maxRetries) :
    Ledger jobId (c :: history) (old.replay start) := by
  have hTouches : touches jobId c = true := by
    apply touches_of_ne hBefore hAfter
    intro hSame
    have hState := congrArg Job.state hSame
    rw [hDead] at hState
    cases hState
  refine Ledger.reset ?_ rfl hRetries (by simp [Job.replay])
  simp [resets, hTouches, hCall, Call.starts]

/- Every lawful commit moves the ledger on. -/
theorem Ledger.step
    (hLawful : Lawful c)
    (hRows :
      ∀ j, c.before.job? jobId = some j → j.RowOk clock)
    (hInsert :
      ∀ j, c.call = .insertJob j →
        j.insertable clock = true)
    (hLedger :
      ∀ j, c.before.job? jobId = some j →
        Ledger jobId history j)
    (hAfter : c.after.job? jobId = some new) :
    Ledger jobId (c :: history) new := by
  cases hLawful.jobs jobId with
  | kept hSame =>
      exact (hLedger new (hSame.symm.trans hAfter)).step_kept
        hSame
  | inserted j hCall hNone hSome =>
      cases hAfter.symm.trans hSome
      exact Ledger.step_insert (hInsert j hCall) hCall hNone
        hSome
  | changed old new' hOld hNew hChange =>
      cases hAfter.symm.trans hNew
      have hOk := hRows old hOld
      have hBook := hLedger old hOld
      cases hCall : c.call <;>
        simp only [hCall, Call.changes] at hChange
      case tryClaim a =>
        exact hBook.step_claim hLawful (by rw [hCall]; rfl)
          (by rw [hCall]; exact ⟨rfl, rfl⟩) hOk hOld hAfter
          hChange
      case tryClaimLimited a tenantId limit =>
        exact hBook.step_claim hLawful (by rw [hCall]; rfl)
          (by rw [hCall]; exact ⟨rfl, rfl⟩) hOk hOld hAfter
          hChange
      case failJob id runId token errMsg nextRunAt now =>
        rcases hChange with ⟨_, _, hInFlight, hEq⟩
        subst hEq
        refine hBook.step_fail
          (by rw [hCall]; exact ⟨rfl, rfl, rfl⟩) hOld hAfter
          (hOk.inFlight_iff.mp hInFlight) ?_ rfl rfl
        unfold Job.fail
        split <;> simp
      case requeueStaleJob id now =>
        rcases hChange with ⟨_, hStale, hEq⟩
        subst hEq
        refine hBook.step_fail
          (by rw [hCall]; exact ⟨rfl, rfl, rfl⟩) hOld hAfter
          (hOk.inFlight_iff.mp (inFlight_of_stale hStale))
          ?_ rfl rfl
        unfold Job.requeue
        split <;> simp
      case replayJob id tenantId =>
        rcases hChange with ⟨_, _, hDead, hEq⟩
        subst hEq
        exact Ledger.step_replay hCall hOld hAfter hDead
          hOk.maxRetries
      case extendDeadline id token deadline =>
        rcases hChange with ⟨_, _, _, hEq⟩
        subst hEq
        exact hBook.step_plain
          (by rw [hCall]; exact ⟨rfl, rfl, rfl⟩)
          rfl rfl (fun h => h) (fun h => h)
      case completeJob id runId token now =>
        rcases hChange with ⟨_, _, _, hEq⟩
        subst hEq
        refine hBook.step_plain
          (by rw [hCall]; exact ⟨rfl, rfl, rfl⟩)
          rfl rfl ?_ ?_ <;>
          simp [Job.complete, Job.cancellable]
      case promoteDueScheduled limit =>
        rcases hChange with ⟨hState, _, hEq⟩
        subst hEq
        refine hBook.step_plain
          (by rw [hCall]; exact ⟨rfl, rfl, rfl⟩)
          rfl rfl ?_ ?_ <;>
          simp [Job.releaseScheduled, Job.cancellable, hState]
      case promoteReadyFailed limit =>
        rcases hChange with ⟨hState, _, hEq⟩
        subst hEq
        refine hBook.step_plain
          (by rw [hCall]; exact ⟨rfl, rfl, rfl⟩)
          rfl rfl ?_ ?_ <;>
          simp [Job.releaseFailed, Job.cancellable, hState]
      case cancelJob id tenantId =>
        rcases hChange with ⟨_, _, _, hEq⟩
        subst hEq
        refine hBook.step_plain
          (by rw [hCall]; exact ⟨rfl, rfl, rfl⟩)
          rfl rfl ?_ ?_ <;>
          simp [Job.cancel, Job.cancellable]
      case forceFail id =>
        rcases hChange with ⟨_, _, hEq⟩
        subst hEq
        refine hBook.step_plain
          (by rw [hCall]; exact ⟨rfl, rfl, rfl⟩)
          rfl rfl ?_ ?_ <;>
          simp [Job.forceFail, Job.cancellable]

end

------------------------------------------------------------
-- Whole Runs
------------------------------------------------------------

variable {ok : Sys → Step → Prop}
variable {s : Sys}

theorem ledgers
    (hReach : sluice.ReachableWith ok s) :
    ∀ jobId j, s.db.job? jobId = some j →
      Ledger jobId s.history j := by
  refine Engine.commits_invariant
    (I := fun db history =>
      ∀ jobId j, db.job? jobId = some j →
        Ledger jobId history j)
    ?_ ?_ hReach
  · intro db hDb jobId j hJob
    rw [hDb.job?] at hJob
    cases hJob
  · intro s l₁ e l₂ hPrev hInv _ hSplit _ jobId j hJob
    have hMem : e ∈ s.sessions := self_mem_of_split hSplit
    exact Ledger.step (lawful_entry hPrev hMem)
      (jobs_rowOk hPrev jobId)
      (session_insertable hPrev hMem) (hInv jobId) hJob

/- A commit that counts a failure ends the current claim. -/
theorem history_costs
    (hReach : sluice.ReachableWith ok s)
    (jobId : Uuid) :
    ∀ c ∈ s.history, costs jobId c = true →
      ∃ token old new, ends jobId token c = true ∧
        c.before.job? jobId = some old ∧
          c.after.job? jobId = some new ∧
            new.attempt = old.attempt + 1 := by
  refine history_forall ?_ hReach
  intro c clock hLawful hRows hCosts
  simp only [costs, Bool.and_eq_true] at hCosts
  rcases hCosts with ⟨hTouches, hCharges⟩
  cases hLawful.jobs jobId with
  | kept hSame => simp [touches, hSame] at hTouches
  | inserted j hCall _ _ =>
      simp [hCall, Call.charges] at hCharges
  | changed old new hBefore hAfter hChange =>
      have hOk := hRows jobId old hBefore
      have hFailed := Call.charges_changes hOk hCharges
        hChange
      rcases Option.isSome_iff_exists.mp
        (hOk.claimToken.mpr hFailed.1) with ⟨token, hToken⟩
      refine ⟨token, old, new, ?_, hBefore, hAfter,
        hFailed.2.2⟩
      simp [ends, currentToken, hBefore, hAfter, hToken,
        hFailed.2.1]

/- A commit that reaps a claim counts a failure. -/
theorem costs_of_reaped
    {c : Entry}
    {jobId token : Uuid}
    {now : Time}
    (hEnds : ends jobId token c = true)
    (hCall : c.call = .requeueStaleJob jobId now) :
    costs jobId c = true := by
  have hTouches : touches jobId c = true := by
    simp only [ends, Bool.and_eq_true, decide_eq_true_eq]
      at hEnds
    simp only [touches, ne_eq, decide_eq_true_eq]
    intro hSame
    apply hEnds.2
    unfold currentToken
    rw [hSame]
    exact hEnds.1
  simp [costs, hTouches, hCall, Call.charges]

/-
  What bounds the executions of a job: since its insertion or
  latest replay it has been claimed at most once more than it
  may be retried; the k-th of these claims, counted from
  zero, opened a run with attempt k; its `attempt` is the
  number of failures counted; each counted failure ends a
  claim and adds one; and no claim is counted twice, though
  every reaped one is counted.
-/
structure Bounded
    (s : Sys)
    (jobId : Uuid)
    (j : Job) : Prop where
  claims_le :
    ((executions jobId s.history).length : Int) ≤
      j.maxRetries + 1
  numbered :
    (executions jobId s.history).reverse.map
        (openedAttempt jobId) =
      (List.range (executions jobId s.history).length).map
        (fun k : Nat => some (k : Int))
  attempt :
    j.attempt =
      (since jobId s.history).countP (costs jobId)
  charged : ∀ c ∈ s.history, costs jobId c = true →
    ∃ token old new, ends jobId token c = true ∧
      c.before.job? jobId = some old ∧
        c.after.job? jobId = some new ∧
          new.attempt = old.attempt + 1
  charged_once : ∀ token,
    s.history.countP
        (fun c => ends jobId token c && costs jobId c) ≤
      1
  reaped : ∀ c ∈ s.history, ∀ token,
    ends jobId token c = true →
      ∀ now, c.call = .requeueStaleJob jobId now →
        costs jobId c = true

theorem executions_bounded
    (hReach : sluice.Reachable s)
    {jobId : Uuid}
    {j : Job}
    (hJob : s.db.job? jobId = some j) :
    Bounded s jobId j where
  claims_le := (ledgers hReach jobId j hJob).bound
  numbered := (ledgers hReach jobId j hJob).numbered
  attempt := (ledgers hReach jobId j hJob).attempt
  charged := history_costs hReach jobId
  charged_once := by
    intro token
    have hBalance := claims_balance hReach jobId token
    have hOnce := claims_once hReach jobId token
    have hLe :
        s.history.countP
            (fun c => ends jobId token c && costs jobId c) ≤
          s.history.countP (ends jobId token) := by
      apply List.countP_mono_left
      intro c _ hBoth
      exact (Bool.and_eq_true_iff.mp hBoth).1
    omega
  reaped := fun _ _ _ hEnds _ hCall =>
    costs_of_reaped hEnds hCall

/-
  Two reapers overlap on the expired first claim of a job,
  which is claimed again and then fails for good.
-/
theorem executions_bounded_two_reapers :
    ∃ s j, sluice.Reachable s ∧ s.db.job? 7 = some j ∧
      j.state = .dead ∧
        (executions 7 s.history).length = 2 ∧
          Bounded s 7 j := by
  rcases
    Machine.exists_reachable_of_run Sample.init_start
      ((Call.insertJob (Sample.job 7)).whole ++
        (Call.tryClaim (Sample.claim 7 1)).whole ++
          [Label.tick 31000000,
            .begin (.requeueStaleJob 7 31000000),
            .begin (.requeueStaleJob 7 31000000),
            .statement 0 id, .statement 0 id, .commit 0,
            .statement 0 id, .statement 0 id,
            .commit 0] ++
            ((Call.tryClaim (Sample.claim 7 2)).whole ++
              (Call.failJob 7 2 2 "timeout" none
                0).whole))
      (fun s =>
        ∃ j ∈ s.db.job? 7, j.state = .dead ∧
          (executions 7 s.history).length = 2)
      (by decide +kernel)
  with ⟨s, hReach, j, hJob, hDead, hTwo⟩
  exact ⟨s, j, hReach, hJob, hDead, hTwo,
    executions_bounded hReach hJob⟩

end Storage

end Sluice
