import Mathlib.Data.Fintype.EquivFin
import Sluice.Scheduler.Release
import Sluice.Storage.Reaping

/-
  No job is ever stuck.

  In every reachable state an unfinished job can still be
  finished without anyone who holds a claim or has a
  transaction open: open transactions are rolled back, the
  scheduler promotes the job or takes it from its worker, and
  a new worker claims and completes it. The limit on the
  duration of a run is the one condition.

  Key definitions include:
    * `recovers` and `Recovers`
    * `Finishes`
    * `Idle`
    * `Reapable`

  Key theorems include:
    * `Idle.released`
    * `Idle.requeued`
    * `Idle.completed`
    * `unfinished_jobs_can_finish`
-/

------------------------------------------------------------
-- Recoveries
------------------------------------------------------------

namespace Sluice

namespace Scheduler

open Foundations ReadCommitted Storage

/-
  The calls of a recovery: those of the scheduler, with its
  batch size, and one claim, if any, with its report. A claim
  is not made twice, as its token is new.
-/
def recovers (claim : Option ClaimArgs) : Call → Bool
| .promoteDueScheduled limit => limit = releaseBatchSize
| .promoteReadyFailed limit => limit = releaseBatchSize
| .requeueStaleJob _ _ => true
| .tryClaim a => claim = some a
| .completeJob _ _ token _ =>
    claim.map ClaimArgs.token = some token
| _ => false

/- The steps of a recovery. -/
def Recovers (claim : Option ClaimArgs) : Step → Prop
| .begin call => recovers claim call = true
| _ => True

/- The end of the transactions that are open before it. -/
def RollsBack : Step → Prop
| .rollback _ => True
| _ => False

theorem Recovers.of_none
    (a : ClaimArgs)
    (step : Step)
    (hRecovers : Recovers none step) :
    Recovers (some a) step := by
  cases step with
  | begin call =>
      change recovers none call = true at hRecovers
      change recovers (some a) call = true
      cases call <;> first | exact hRecovers | cases hRecovers
  | _ => trivial

/-
  A recovery can bring a job to a state, by a claim whose
  token is none of those in earlier calls.
-/
def Finishes
    (old : List Call)
    (s : Sys)
    (id : Uuid)
    (state : JobState) : Prop :=
  ∃ claim s' j',
    (∀ a, claim = some a →
      ∀ call ∈ old, call.newToken? ≠ some a.token) ∧
      sluice.Leads (Recovers claim) s s' ∧
        s'.db.job? id = some j' ∧ j'.state = state

/- A job of a database that nobody is using. -/
structure Idle (s : Sys) (j : Job) : Prop where
  reach : sluice.Reachable s
  row : s.db.job? j.id = some j
  still : s.sessions = []

/-
  The open runs of a job fit into the duration column when
  its claim has expired.
-/
def Reapable (s : Sys) (j : Job) : Prop :=
  ∀ d, j.deadline = some d →
    ∀ r ∈ openRuns s.db j.id,
      max s.clock (d + 1) - r.startedAt < durationLimit

section

variable {s s' : Sys}
variable {j : Job}

theorem Idle.unlocked
    (hIdle : Idle s j)
    (k : RowKey) :
    lockedBy s.sessions k = false := by
  rw [hIdle.still]
  rfl

/- Time passes. -/
theorem Idle.waits
    (claim : Option ClaimArgs)
    (hIdle : Idle s j)
    {later : Time}
    (hLater : s.clock ≤ later) :
    sluice.Leads (Recovers claim) s { s with clock := later } ∧
      Idle { s with clock := later } j := by
  have hLeads :
      sluice.Leads (Recovers claim) s
        { s with clock := later } :=
    Engine.leads_tick (fun _ => trivial) hLater
  exact ⟨hLeads, hLeads.reachable hIdle.reach, hIdle.row,
    hIdle.still⟩

/- A call of one statement runs to its commit. -/
theorem Idle.calls
    {claim : Option ClaimArgs}
    (hIdle : Idle s j)
    {call : Call}
    (hRecovers : recovers claim call = true)
    (hLength : call.length = 1)
    (hAdmits : call.admitted s.clock s.calls = true)
    {writes : List Write}
    {locks : List RowKey}
    (hOutcome :
      call.statement 0 s.clock (fun k => k)
          (lockedBy s.sessions) s.db =
        .proceed writes locks) :
    ∃ s', sluice.Leads (Recovers claim) s s' ∧
      s'.db = postgres.performAll s.db writes ∧
        s'.sessions = [] ∧ s'.clock = s.clock ∧
          s'.calls = call :: s.calls := by
  have hRuns :
      ∃ s', sluice.Leads (Recovers claim) s s' ∧
        s'.db = postgres.performAll s.db writes ∧
          s'.sessions = s.sessions ∧ s'.clock = s.clock ∧
            s'.calls = call :: s.calls :=
    Engine.leads_single hRecovers trivial trivial hLength
      hAdmits hOutcome (fun k _ => hIdle.unlocked k)
  rcases hRuns with
    ⟨s', hLeads, hDb, hSessions, hClock, hCalls⟩
  exact ⟨s', hLeads, hDb, hSessions.trans hIdle.still,
    hClock, hCalls⟩

end

------------------------------------------------------------
-- Promotion And Reaping
------------------------------------------------------------

/- A round that nothing disturbs. -/
def calmRound (now : Time) : Round where
  start := now
  locked := fun _ => false
  scan := fun k => k
  returned := fun k => k
  reply := .rows
  broken := none

theorem calm_calmRound (now : Time) :
    (calmRound now).Calm now where
  start := rfl
  locked := fun _ => rfl
  reply := rfl
  broken := rfl

section

variable {s s' : Sys}
variable {j : Job}
variable {p : Promotion}

/- A batch of due jobs is promoted. -/
theorem Idle.promotes
    (claim : Option ClaimArgs)
    (hIdle : Idle s j)
    (p : Promotion) :
    ∃ s', sluice.Leads (Recovers claim) s s' ∧
      s'.db =
          (promote p releaseBatchSize (calmRound s.clock)
            s.db).2 ∧
        s'.sessions = [] ∧ s'.clock = s.clock := by
  have hRecovers :
      recovers claim (p.call releaseBatchSize) = true := by
    cases p <;> rfl
  have hLength : (p.call releaseBatchSize).length = 1 := by
    cases p <;> rfl
  have hAdmits :
      (p.call releaseBatchSize).admitted s.clock s.calls =
        true := by
    cases p <;> rfl
  have hFree :
      lockedBy s.sessions = (calmRound s.clock).locked := by
    funext k
    exact hIdle.unlocked k
  have hOutcome := p.statement_call releaseBatchSize s.clock
    (fun k => k) (lockedBy s.sessions) s.db
  rcases hIdle.calls hRecovers hLength hAdmits hOutcome with
    ⟨s', hLeads, hDb, hStill, hClock, _⟩
  refine ⟨s', hLeads, ?_, hStill, hClock⟩
  rw [hDb, hFree]
  simp only [promote, calmRound, p.statement_call,
    Db.afterStatement, promoted]

/-
  A due job is promoted after finitely many batches: each of
  them leaves fewer due jobs.
-/
theorem Idle.released
    (claim : Option ClaimArgs)
    (hIdle : Idle s j)
    (hDue : p.due s.clock j = true) :
    ∃ s', sluice.Leads (Recovers claim) s s' ∧
      Idle s' (p.released s.clock j) := by
  induction hCount : (s.db.due p s.clock).length
    using Nat.strong_induction_on generalizing s with
  | _ n ih =>
  rcases hIdle.promotes claim p with
    ⟨s₁, hLeads, hDb, hStill, hClock⟩
  rcases promote_calm p releaseBatchSize
      (calm_calmRound s.clock) s.db with
    ⟨batch, db', hPromote, hFirst, hGives⟩
  rw [hPromote] at hDb
  change s₁.db = db' at hDb
  have hRow := hGives.job?_eq (p.id_released s.clock) j.id
  rw [hIdle.row, ← hDb] at hRow
  have hReach := hLeads.reachable hIdle.reach
  by_cases hBatch : j ∈ batch
  · refine ⟨s₁, hLeads, hReach, ?_, hStill⟩
    rw [p.id_released, hRow, Option.map_some, if_pos hBatch]
  -- The job waits for a later batch.
  · rw [Option.map_some, if_neg hBatch] at hRow
    have hWaits : j ∈ s.db.due p s.clock :=
      List.mem_filter.mpr ⟨Table.mem_of_find? hIdle.row, hDue⟩
    have hSome := List.length_pos_of_mem hWaits
    have hParts := hFirst.perm.length_eq
    have hTaken := hFirst.length
    rw [List.length_append] at hParts
    have hLess : (s₁.db.due p s₁.clock).length < n := by
      rw [hClock, hDb]
      unfold releaseBatchSize at hTaken
      omega
    have hDue₁ : p.due s₁.clock j = true := by
      rw [hClock]
      exact hDue
    rcases ih _ hLess ⟨hReach, hRow, hStill⟩ hDue₁ rfl with
      ⟨s', hRest, hIdle'⟩
    rw [hClock] at hIdle'
    exact ⟨s', hLeads.trans hRest, hIdle'⟩

end

section

variable {s s' : Sys}
variable {j : Job}

/- A whole call of the scheduler is a recovery. -/
theorem leads_of_commits
    {claim : Option ClaimArgs}
    {call : Call}
    (hRecovers : recovers claim call = true)
    (hCommits : Commits s call s') :
    sluice.Leads (Recovers claim) s s' := by
  refine ⟨call.whole, ?_, hCommits.1⟩
  intro label hLabel
  simp only [Call.whole, List.mem_cons, List.mem_append,
    List.mem_replicate, List.not_mem_nil, or_false]
    at hLabel
  rcases hLabel with rfl | ⟨_, rfl⟩ | rfl
  · exact hRecovers
  · trivial
  · trivial

/- A running job is taken from its worker. -/
theorem Idle.requeued
    (claim : Option ClaimArgs)
    (hIdle : Idle s j)
    (hRunning : j.state = .running)
    (hReapable : Reapable s j) :
    ∃ s', sluice.Leads (Recovers claim) s s' ∧
      Idle s' j.requeue := by
  have hOk := jobs_rowOk hIdle.reach j.id j hIdle.row
  rcases Option.isSome_iff_exists.mp
      (hOk.deadline.mpr hRunning) with ⟨d, hDeadline⟩
  rcases hIdle.waits claim (le_max_left s.clock (d + 1)) with
    ⟨hLeads, hLate⟩
  have hStale :
      StaleClaim { s with clock := max s.clock (d + 1) }
        j := by
    refine ⟨hIdle.row, hRunning, ?_⟩
    rw [hDeadline]
    exact decide_eq_true
      (lt_of_lt_of_le (Int.lt_succ d)
        (le_max_right s.clock (d + 1)))
  rcases requeue_of_young hLate.reach hStale
      ⟨hLate.unlocked _, fun r _ => hLate.unlocked _⟩
      (hReapable d hDeadline) with
    ⟨s', hCommits, hRow⟩
  have hAll := hLeads.trans (leads_of_commits rfl hCommits)
  exact ⟨s', hAll, hAll.reachable hIdle.reach, hRow,
    hCommits.2.trans hIdle.still⟩

end

------------------------------------------------------------
-- A New Claim
------------------------------------------------------------

section

variable {s s' : Sys}
variable {j : Job}

/- An identifier that no call has brought yet. -/
theorem exists_new_identifier (calls : List Call) :
    ∃ n : Uuid, ∀ call ∈ calls,
      call.newToken? ≠ some n ∧ call.newRun? ≠ some n := by
  rcases Infinite.exists_notMem_finset
      (calls.filterMap Call.newToken? ++
        calls.filterMap Call.newRun?).toFinset with
    ⟨n, hNew⟩
  simp only [List.mem_toFinset, List.mem_append,
    List.mem_filterMap, not_or, not_exists, not_and] at hNew
  exact ⟨n, fun call hCall =>
    ⟨hNew.1 call hCall, hNew.2 call hCall⟩⟩

/- The claim of a new worker. -/
def newClaim (s : Sys) (j : Job) (n : Uuid) : ClaimArgs where
  jobId := j.id
  workerId := "recovery"
  token := n
  deadline := s.clock
  now := s.clock
  runId := n

/- A claim of a pending job whose row nobody has locked. -/
theorem Idle.tryClaim_eq
    (hIdle : Idle s j)
    (hPending : j.state = .pending)
    (n : Uuid) :
    tryClaim (newClaim s j n) (lockedBy s.sessions) s.db =
      claimResult
        (j.claim (newClaim s j n),
          RunRow.opened (newClaim s j n)
            (j.claim (newClaim s j n))) := by
  have hMatch :
      matchJob j.id
          (fun j =>
            j.state = .pending &&
              !lockedBy s.sessions (.job j.id)) s.db =
        some j := by
    refine matchJob_eq_some_iff.mpr ⟨hIdle.row, ?_⟩
    rw [hIdle.unlocked, hPending]
    rfl
  have hClaim :
      claimSQL (newClaim s j n) (lockedBy s.sessions) s.db =
        some
          (j.claim (newClaim s j n),
            RunRow.opened (newClaim s j n)
              (j.claim (newClaim s j n))) :=
    congrArg (Option.map _) hMatch
  unfold tryClaim
  rw [hClaim]

section NewClaim

variable
    {n : Uuid}
    (hNew :
      ∀ call ∈ s.calls,
        call.newToken? ≠ some n ∧ call.newRun? ≠ some n)
include hNew

theorem admitted_newClaim (j : Job) :
    (Call.tryClaim (newClaim s j n)).admitted s.clock
      s.calls = true := by
  simp only [Call.admitted, Call.admitted.fresh, newClaim,
    Bool.and_eq_true, List.all_eq_true]
  refine ⟨decide_eq_true (le_refl s.clock), ?_⟩
  intro call hCall
  exact ⟨decide_eq_true (hNew call hCall).1,
    decide_eq_true (hNew call hCall).2⟩

/- Every stored run was opened by a claim of the run. -/
theorem run?_eq_none_of_new
    (hReach : sluice.Reachable s) :
    s.db.run? n = none := by
  cases hRun : s.db.run? n with
  | none => rfl
  | some r =>
      rcases runs_known hReach n r hRun with ⟨c, hc, hSame⟩
      have hMade := (Engine.booked hReach).history c hc
      exact absurd hSame (hNew c.call hMade.1).2

/- A pending job is claimed. -/
theorem Idle.claimed
    (hIdle : Idle s j)
    (hPending : j.state = .pending) :
    ∃ s',
      sluice.Leads (Recovers (some (newClaim s j n))) s s' ∧
        Idle s' (j.claim (newClaim s j n)) ∧
          s'.clock = s.clock ∧
            .tryClaim (newClaim s j n) ∈ s'.calls ∧
              s'.db.run? n =
                some
                  (RunRow.opened (newClaim s j n)
                    (j.claim (newClaim s j n))) := by
  have hRecovers :
      recovers (some (newClaim s j n))
        (.tryClaim (newClaim s j n)) = true :=
    decide_eq_true rfl
  rcases hIdle.calls hRecovers rfl
      (admitted_newClaim hNew j)
      (hIdle.tryClaim_eq hPending n) with
    ⟨s', hLeads, hDb, hStill, hClock, hCalls⟩
  have hAfter :
      s'.db =
        (s.db.perform
          (.updateJob (j.claim (newClaim s j n)))).perform
            (.insertRun
              (RunRow.opened (newClaim s j n)
                (j.claim (newClaim s j n)))) :=
    hDb
  refine ⟨s', hLeads,
    ⟨hLeads.reachable hIdle.reach, ?_, hStill⟩, hClock, ?_,
    ?_⟩
  · simp only [hAfter, Db.job?_perform, Job.claim, hIdle.row,
      if_true, Option.map_some]
  · rw [hCalls]
    exact List.mem_cons_self
  · simp only [hAfter, Db.run?_perform,
      run?_eq_none_of_new hNew hIdle.reach, and_true]
    exact if_pos rfl

end NewClaim

/- The run was opened just now, so its duration fits. -/
theorem Idle.completeJob_eq
    {a : ClaimArgs}
    (hIdle : Idle s (j.claim a))
    (hNow : a.now = s.clock)
    (hRun :
      s.db.run? a.runId =
        some (RunRow.opened a (j.claim a))) :
    ∃ runs : List RunRow,
      completeJob j.id a.runId a.token s.clock s.db =
        .proceed
          (.updateJob ((j.claim a).complete s.clock) ::
            runs.map .updateRun)
          (.job j.id :: runs.map (fun r => .run r.id)) := by
  have hMatch :
      matchClaim j.id a.token s.db = some (j.claim a) := by
    refine matchJob_eq_some_iff.mpr ⟨hIdle.row, ?_⟩
    simp [Job.claim, Job.inFlight]
  have hFits :
      (updateRuns
        (fun r => r.jobId = j.id && r.id = a.runId)
        (fun r => r.finish .succeeded s.clock r.error)
        s.db).isSome = true := by
    rw [isSome_updateRuns_iff]
    intro r hr
    rcases List.mem_filter.mp hr with ⟨hMem, hOwn⟩
    simp only [Bool.and_eq_true, decide_eq_true_eq] at hOwn
    have hFound : s.db.run? r.id = some r :=
      Table.find?_of_mem hMem
    rw [hOwn.2, hRun] at hFound
    cases hFound
    rw [isSome_finish]
    refine (isSome_durationMs_iff (le_of_eq hNow)).mpr ?_
    change s.clock - a.now < durationLimit
    rw [hNow, sub_self]
    decide
  rcases Option.isSome_iff_exists.mp hFits with ⟨runs, hRuns⟩
  refine ⟨runs, ?_⟩
  unfold completeJob endClaim
  rw [hMatch]
  simp only [hRuns]
  rfl

/- The worker of the new claim completes the job. -/
theorem Idle.reported
    {a : ClaimArgs}
    (hIdle : Idle s (j.claim a))
    (hNow : a.now = s.clock)
    (hJob : a.jobId = j.id)
    (hMade : .tryClaim a ∈ s.calls)
    (hRun :
      s.db.run? a.runId =
        some (RunRow.opened a (j.claim a))) :
    ∃ s', sluice.Leads (Recovers (some a)) s s' ∧
      s'.db.job? j.id =
        some ((j.claim a).complete s.clock) := by
  rcases hIdle.completeJob_eq hNow hRun with
    ⟨runs, hOutcome⟩
  have hRecovers :
      recovers (some a)
        (.completeJob j.id a.runId a.token s.clock) = true :=
    decide_eq_true rfl
  have hAdmits :
      (Call.completeJob j.id a.runId a.token
        s.clock).admitted s.clock s.calls = true := by
    simp only [Call.admitted, Call.admitted.issued,
      Bool.and_eq_true, List.any_eq_true]
    refine ⟨decide_eq_true (le_refl s.clock), _, hMade, ?_⟩
    simp [Call.claimArgs?, hJob]
  rcases hIdle.calls hRecovers rfl hAdmits hOutcome with
    ⟨s', hLeads, hDb, _⟩
  refine ⟨s', hLeads, ?_⟩
  have hPut := Db.job?_perform s.db
    (.updateJob ((j.claim a).complete s.clock)) j.id
  have hRow : s.db.job? j.id = some (j.claim a) := hIdle.row
  simp only [hRow] at hPut
  unfold Db.job?
  rw [hDb, Engine.performAll_cons, jobs_updateRuns]
  exact hPut.trans (if_pos rfl)

/- A pending job is claimed and completed. -/
theorem Idle.completed
    {old : List Call}
    (hIdle : Idle s j)
    (hPending : j.state = .pending)
    (hOld : old ⊆ s.calls) :
    Finishes old s j.id .succeeded := by
  rcases exists_new_identifier s.calls with ⟨n, hNew⟩
  rcases hIdle.claimed hNew hPending with
    ⟨s₁, hClaims, hIdle₁, hClock, hMade, hRun⟩
  rcases hIdle₁.reported hClock.symm rfl hMade hRun with
    ⟨s', hReports, hRow⟩
  refine ⟨_, s', _, ?_, hClaims.trans hReports, hRow, rfl⟩
  rintro a ⟨⟩ call hCall
  exact (hNew call (hOld hCall)).1

end

------------------------------------------------------------
-- Every Unfinished Job
------------------------------------------------------------

section

variable {s s' : Sys}
variable {j : Job}

/- A recovery that the scheduler begins. -/
theorem Finishes.after
    {old : List Call}
    {id : Uuid}
    {state : JobState}
    (hLeads : sluice.Leads (Recovers none) s s')
    (hFinishes : Finishes old s' id state) :
    Finishes old s id state := by
  rcases hFinishes with
    ⟨claim, s'', j', hNew, hThen, hRow, hState⟩
  have hFirst : sluice.Leads (Recovers claim) s s' := by
    cases claim with
    | none => exact hLeads
    | some a => exact hLeads.mono (Recovers.of_none a)
  exact ⟨claim, s'', j', hNew, hFirst.trans hThen, hRow,
    hState⟩

/- A job that waits for its time is released and completed. -/
theorem Idle.promoted_and_completed
    {old : List Call}
    (hIdle : Idle s j)
    (p : Promotion)
    (hState : j.state = p.state)
    (hOld : old ⊆ s.calls) :
    Finishes old s j.id .succeeded := by
  rcases hIdle.waits none (le_max_left s.clock j.runAt) with
    ⟨hWaits, hIdle₁⟩
  have hDue : p.due (max s.clock j.runAt) j = true := by
    simp [Promotion.due, hState]
  rcases hIdle₁.released none hDue with
    ⟨s₂, hReleases, hIdle₂⟩
  have hFirst := hWaits.trans hReleases
  have hCompletes :=
    hIdle₂.completed (p.state_released _ j)
      (List.Subset.trans hOld
        (Engine.calls_subset_of_leads hFirst))
  rw [p.id_released] at hCompletes
  exact hCompletes.after hFirst

/- A job is taken from its worker and completed, or dead. -/
theorem Idle.requeued_and_completed
    {old : List Call}
    (hIdle : Idle s j)
    (hRunning : j.state = .running)
    (hReapable : Reapable s j)
    (hOld : old ⊆ s.calls) :
    Finishes old s j.id
      (if j.attempt = j.maxRetries then .dead
      else .succeeded) := by
  have hOk := jobs_rowOk hIdle.reach j.id j hIdle.row
  rcases hIdle.requeued none hRunning hReapable with
    ⟨s₁, hReaps, hIdle₁⟩
  by_cases hLast : j.attempt = j.maxRetries
  · refine ⟨none, s₁, j.requeue, fun _ h => (nomatch h),
      hReaps, hIdle₁.row, ?_⟩
    simp [Job.requeue, hLast]
  · have hLe :=
      hOk.attempt_le_of_ne_dead (by rw [hRunning]; decide)
    have hMore : ¬j.attempt + 1 > j.maxRetries := by
      omega
    have hPending : j.requeue.state = .pending :=
      if_neg hMore
    rw [if_neg hLast]
    refine Finishes.after hReaps ?_
    exact hIdle₁.completed hPending
      (List.Subset.trans hOld
        (Engine.calls_subset_of_leads hReaps))

/-
  From every reachable state an unfinished job can be
  finished by the scheduler and by one new claim, once the
  open transactions are rolled back. It succeeds, unless it
  was lost in its last attempt: then it is dead.
-/
theorem unfinished_jobs_can_finish
    (hReach : sluice.Reachable s)
    (hRow : s.db.job? j.id = some j)
    (hSucceeded : j.state ≠ .succeeded)
    (hCancelled : j.state ≠ .cancelled)
    (hDead : j.state ≠ .dead)
    (hReapable : Reapable s j) :
    sluice.Leads RollsBack s { s with sessions := [] } ∧
      Finishes s.calls { s with sessions := [] } j.id
        (if j.state = .running ∧ j.attempt = j.maxRetries
          then .dead
        else .succeeded) := by
  have hRolls :
      sluice.Leads RollsBack s { s with sessions := [] } :=
    Engine.leads_rollback (fun _ => trivial) s
  have hIdle : Idle { s with sessions := [] } j :=
    ⟨hRolls.reachable hReach, hRow, rfl⟩
  have hOld : s.calls ⊆ s.calls := List.Subset.refl _
  refine ⟨hRolls, ?_⟩
  cases hState : j.state with
  | succeeded => exact absurd hState hSucceeded
  | cancelled => exact absurd hState hCancelled
  | dead => exact absurd hState hDead
  | claimed =>
      exact absurd hState
        (jobs_rowOk hReach j.id j hRow).ne_claimed
  | pending => exact hIdle.completed hState hOld
  | scheduled =>
      exact hIdle.promoted_and_completed .dueScheduled hState
        hOld
  | failed =>
      exact hIdle.promoted_and_completed .readyFailed hState
        hOld
  | running =>
      simp only [true_and]
      exact hIdle.requeued_and_completed hState hReapable
        hOld

end

/- A job whose worker vanished is completed by another one. -/
theorem abandoned_job_can_finish :
    ∃ s, sluice.Reachable s ∧
      s.db.job? 7 =
          some
            ((Storage.Sample.job 7).inserted.claim
              (Storage.Sample.claim 7 1)) ∧
        Finishes s.calls { s with sessions := [] } 7
          .succeeded := by
  rcases
    Machine.exists_reachable_of_run
      Storage.Sample.init_start
      (Storage.Sample.abandoned 31000000)
      (fun s =>
        Storage.Sample.isAbandoned 31000000 s = true)
      (by decide +kernel)
  with ⟨s, hReach, hCheck⟩
  rcases Storage.Sample.stale_of_isAbandoned (by decide)
      hCheck with ⟨hStale, _, hClock, hRuns⟩
  have hReapable :
      Reapable s
        ((Storage.Sample.job 7).inserted.claim
          (Storage.Sample.claim 7 1)) := by
    intro d hDeadline r hr
    cases hDeadline
    change r ∈ openRuns s.db 7 at hr
    rw [hRuns] at hr
    rw [List.mem_singleton.mp hr, hClock]
    decide
  have hFinishes :=
    unfinished_jobs_can_finish hReach hStale.row (by decide)
      (by decide) (by decide) hReapable
  exact ⟨s, hReach, hStale.row, hFinishes.2⟩

end Scheduler

end Sluice
