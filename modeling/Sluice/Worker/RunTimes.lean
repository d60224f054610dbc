import Sluice.Worker.Failure

/-
  No job runs before its time.

  A job is given a time by its submission, by a recorded
  failure and by a replay. It becomes pending only once that
  time has come, and only pending jobs are claimed, whatever
  schedulers, workers and operators do in between. After a
  failed attempt the time is the worker's choice, so the
  backoff is kept by the system as a whole.

  Key definitions include:
    * `Call.setsRunTime`
    * `timed` and `lastTimed`
    * `OnTime`

  Key theorems include:
    * `Call.changes_due`
    * `jobs_onTime`
    * `row_of_recorded_failure` and `le_nextRetryAt`
    * `jobs_run_on_time`
-/

------------------------------------------------------------
-- The Time Of The Next Run
------------------------------------------------------------

namespace Sluice

namespace Storage

open Foundations ReadCommitted

/- The calls that give a job the time of its next run. -/
def Call.setsRunTime (id : Uuid) : Call → Bool
| .insertJob j => j.id = id
| .failJob jobId _ _ _ _ _ => jobId = id
| .replayJob jobId _ => jobId = id
| _ => false

/- A commit that gave a job the time of its next run. -/
def timed (id : Uuid) (c : Entry) : Bool :=
  c.call.setsRunTime id &&
    decide (c.after.job? id ≠ c.before.job? id)

/- The latest such commit. -/
def lastTimed
    (history : List Entry)
    (id : Uuid) :
    Option Entry :=
  history.find? (timed id)

/-
  A row keeps the time it was given while it waits, and it
  has left the waiting states only after that time. A row
  that was given no further run stays dead.
-/
structure OnTime
    (clock : Time)
    (given : Job)
    (j : Job) :
    Prop where
  waits :
    j.state = .scheduled ∨ j.state = .failed →
      given.runAt = j.runAt
  due :
    j.state = .pending ∨ j.state = .running →
      given.runAt ≤ clock
  stays : given.state = .dead → j.state = .dead

theorem OnTime.mono
    {clock later : Time}
    {given j : Job}
    (hOnTime : OnTime clock given j)
    (hLater : clock ≤ later) :
    OnTime later given j where
  waits := hOnTime.waits
  due := fun hState =>
    Int.le_trans (hOnTime.due hState) hLater
  stays := hOnTime.stays

/- A row that was given its time by the last change. -/
theorem OnTime.refl
    {clock : Time}
    {j : Job}
    (hDue :
      j.state = .pending ∨ j.state = .running →
        j.runAt ≤ clock) :
    OnTime clock j j where
  waits := fun _ => rfl
  due := hDue
  stays := fun hDead => hDead

end Storage

------------------------------------------------------------
-- Changes
------------------------------------------------------------

theorem Job.state_requeue (j : Job) :
    j.requeue.state = .dead ∨ j.requeue.state = .pending := by
  unfold Job.requeue
  dsimp only
  split
  · exact .inl rfl
  · exact .inr rfl

theorem Job.state_fail
    (j : Job)
    (errMsg : String)
    (nextRunAt : Option Time) :
    (j.fail errMsg nextRunAt).state = .dead ∨
      (j.fail errMsg nextRunAt).state = .failed := by
  unfold Job.fail
  dsimp only
  split
  · exact .inl rfl
  · exact .inr rfl

namespace Storage

open Foundations ReadCommitted

section

variable {call : Call}
variable {start clock : Time}
variable {old new given : Job}

theorem OnTime.claim
    (hOnTime : OnTime clock given old)
    (a : ClaimArgs)
    (hPending : old.state = .pending)
    (hNew : new = old.claim a) :
    OnTime clock given new := by
  subst hNew
  refine ⟨by simp [Job.claim], ?_, ?_⟩
  · intro _
    exact hOnTime.due (.inl hPending)
  · intro hDead
    have hOld := hOnTime.stays hDead
    rw [hPending] at hOld
    cases hOld

/- A row that waits is released once it is due. -/
theorem OnTime.release
    (hOnTime : OnTime clock given old)
    (hWaits : old.state = .scheduled ∨ old.state = .failed)
    (hDue : old.runAt ≤ clock)
    (hNew : new.state = .pending) :
    OnTime clock given new := by
  refine ⟨by simp [hNew], ?_, ?_⟩
  · intro _
    rw [hOnTime.waits hWaits]
    exact hDue
  · intro hDead
    have hOld := hOnTime.stays hDead
    rcases hWaits with hState | hState <;>
      simp [hState] at hOld

/- A row that is finished runs no more. -/
theorem OnTime.of_finished
    (hFinished :
      new.state = .succeeded ∨ new.state = .cancelled)
    (hAlive : given.state ≠ .dead) :
    OnTime clock given new := by
  refine ⟨?_, ?_, fun hDead => absurd hDead hAlive⟩ <;>
    rcases hFinished with hState | hState <;> simp [hState]

/-
  A change that sets no time keeps the row on time: a row
  that waits is released once it is due, and a row that is
  past its time stays so.
-/
theorem Call.changes_due
    (hChange : call.changes start old new)
    (hUntimed : call.setsRunTime old.id = false)
    (hOk : old.RowOk clock)
    (hStart : start ≤ clock)
    (hOnTime : OnTime clock given old) :
    OnTime clock given new := by
  -- Only a replay takes up a dead row.
  have hAlive :
      old.state ≠ .dead → given.state ≠ .dead :=
    fun hNot hDead => hNot (hOnTime.stays hDead)
  cases call <;>
    simp only [Call.changes, Call.setsRunTime,
      decide_eq_false_iff_not] at hChange hUntimed
  case tryClaim | tryClaimLimited =>
    exact hOnTime.claim _ hChange.2.1 hChange.2.2
  case extendDeadline jobId token deadline =>
    rw [hChange.2.2.2]
    exact ⟨hOnTime.waits, hOnTime.due, hOnTime.stays⟩
  case completeJob jobId runId token now =>
    have hRunning : old.state = .running :=
      hOk.inFlight_iff.mp hChange.2.2.1
    rw [hChange.2.2.2]
    exact .of_finished (by simp [Job.complete])
      (hAlive (by simp [hRunning]))
  case failJob | replayJob =>
    exact absurd hChange.1.symm hUntimed
  case promoteDueScheduled limit =>
    rcases hChange with ⟨hScheduled, hDue, rfl⟩
    exact hOnTime.release (.inl hScheduled)
      (Int.le_trans hDue hStart) rfl
  case promoteReadyFailed limit =>
    rcases hChange with ⟨hFailed, hDue, rfl⟩
    exact hOnTime.release (.inr hFailed)
      (Int.le_trans hDue hStart) rfl
  case requeueStaleJob jobId now =>
    -- Only a running job is stale, and it was due already.
    have hRunning : old.state = .running :=
      hOk.inFlight_iff.mp (inFlight_of_stale hChange.2.1)
    rw [hChange.2.2]
    refine ⟨?_, fun _ => hOnTime.due (.inr hRunning), ?_⟩
    · intro hState
      rcases Job.state_requeue old with hNew | hNew <;>
        simp [hNew] at hState
    · intro hDead
      exact absurd hDead (hAlive (by simp [hRunning]))
  case cancelJob jobId tenantId =>
    have hOpen : old.state ≠ .dead := by
      have hGuard := hChange.2.2.1
      intro hDead
      simp [Job.cancellable, hDead] at hGuard
    rw [hChange.2.2.2]
    exact .of_finished (by simp [Job.cancel])
      (hAlive hOpen)
  case forceFail jobId =>
    rw [hChange.2.2]
    exact ⟨by simp [Job.forceFail], by simp [Job.forceFail],
      fun _ => rfl⟩

/- A change that sets the time is a change of the row. -/
theorem Call.changes_timed
    (hChange : call.changes start old new)
    (hTimed : call.setsRunTime old.id = true)
    (hStart : start ≤ clock) :
    new ≠ old ∧ OnTime clock new new := by
  cases call <;>
    simp only [Call.changes, Call.setsRunTime,
      Bool.false_eq_true] at hChange hTimed
  case failJob jobId runId token errMsg nextRunAt now =>
    rcases hChange with ⟨_, _, _, rfl⟩
    constructor
    · intro hSame
      have hAttempt := congrArg Job.attempt hSame
      simp [Job.fail] at hAttempt
    · refine .refl (fun hState => ?_)
      rcases Job.state_fail old errMsg nextRunAt with
        hNew | hNew <;>
        simp [hNew] at hState
  case replayJob jobId tenantId =>
    rcases hChange with ⟨_, _, hDead, rfl⟩
    constructor
    · intro hSame
      have hState := congrArg Job.state hSame
      rw [hDead] at hState
      cases hState
    · exact .refl (fun _ => hStart)

end

------------------------------------------------------------
-- Whole Runs
------------------------------------------------------------

variable {ok : Sys → Step → Prop}
variable {s : Sys}
variable {c : Entry}
variable {history : List Entry}
variable {id : Uuid}

theorem lastTimed_cons_of_kept
    (hKept : timed id c = false) :
    lastTimed (c :: history) id = lastTimed history id := by
  unfold lastTimed
  rw [List.find?_cons_of_neg]
  simp [hKept]

theorem lastTimed_cons_of_timed
    (hTimed : timed id c = true) :
    lastTimed (c :: history) id = some c :=
  List.find?_cons_of_pos hTimed

/- One commit keeps every row on time. -/
theorem Moves.onTime
    {clock : Time}
    {j : Job}
    (hMoves : Moves c id)
    (hStart : c.start ≤ clock)
    (hInsert :
      ∀ j, c.call = .insertJob j →
        j.insertable clock = true)
    (hOk :
      ∀ old, c.before.job? id = some old →
        old.RowOk clock)
    (hBefore :
      ∀ old, c.before.job? id = some old →
        ∃ k given, lastTimed history id = some k ∧
          k.after.job? id = some given ∧
            OnTime clock given old)
    (hAfter : c.after.job? id = some j) :
    ∃ k given, lastTimed (c :: history) id = some k ∧
      k.after.job? id = some given ∧
        OnTime clock given j := by
  cases hMoves with
  | kept hSame =>
      have hKept : timed id c = false := by
        simp [timed, hSame]
      rw [lastTimed_cons_of_kept hKept]
      exact hBefore j (hSame.symm.trans hAfter)
  | inserted new hCall hNone hNew =>
      cases hAfter.symm.trans hNew
      have hId : new.id = id :=
        Db.id_of_job? (j := new.inserted) hNew
      have hTimed : timed id c = true := by
        simp [timed, hCall, Call.setsRunTime, hId, hNone,
          hNew]
      have hRow :=
        Job.RowOk.inserted (hInsert new hCall)
      exact ⟨c, _, lastTimed_cons_of_timed hTimed, hNew,
        .refl hRow.runAt_le⟩
  | changed old new hOld hNew hChange =>
      cases hAfter.symm.trans hNew
      have hId : old.id = id := Db.id_of_job? hOld
      cases hSets : c.call.setsRunTime old.id with
      | true =>
          rcases Call.changes_timed hChange hSets hStart with
            ⟨hNe, hOnTime⟩
          have hTimed : timed id c = true := by
            rw [hId] at hSets
            simp [timed, hSets, hOld, hNew, hNe]
          exact ⟨c, _, lastTimed_cons_of_timed hTimed, hNew,
            hOnTime⟩
      | false =>
          have hKept : timed id c = false := by
            rw [hId] at hSets
            simp [timed, hSets]
          rcases hBefore old hOld with
            ⟨k, given, hLast, hGiven, hOnTime⟩
          rw [lastTimed_cons_of_kept hKept]
          exact ⟨k, given, hLast, hGiven,
            Call.changes_due hChange hSets (hOk old hOld)
              hStart hOnTime⟩

/- Every row of every reachable state is on time. -/
theorem jobs_onTime
    (hReach : sluice.ReachableWith ok s) :
    ∀ id j, s.db.job? id = some j →
      ∃ c given, lastTimed s.history id = some c ∧
        c.after.job? id = some given ∧
          OnTime s.clock given j := by
  refine Engine.timed_invariant
    (I := fun db history clock =>
      ∀ id j, db.job? id = some j →
        ∃ c given, lastTimed history id = some c ∧
          c.after.job? id = some given ∧
            OnTime clock given j)
    ?_ ?_ ?_ hReach
  · intro db clock hDb id j hJob
    rw [hDb.job?] at hJob
    cases hJob
  · intro s l₁ e l₂ hPrev hInv _ hSplit _ id j hJob
    have hMem : e ∈ s.sessions := self_mem_of_split hSplit
    have hBooked :=
      (Engine.booked hPrev).sessions e hMem
    exact (moves_committed (sessions_sound hPrev e hMem)
      id).onTime hBooked.2.1 (session_insertable hPrev hMem)
      (jobs_rowOk hPrev id) (hInv id) hJob
  · intro _ _ _ _ hLe hInv id j hJob
    rcases hInv id j hJob with
      ⟨c, given, hLast, hGiven, hOnTime⟩
    exact ⟨c, given, hLast, hGiven, hOnTime.mono hLe⟩

end Storage

------------------------------------------------------------
-- The Backoff Is Kept
------------------------------------------------------------

namespace Worker

open Foundations ReadCommitted Storage

variable {ok : Sys → Step → Prop}
variable {s : Sys}

/-
  The row that the recorded failure of a claim leaves: dead,
  or due again when the worker has decided.
-/
theorem row_of_recorded_failure
    (hReach : sluice.ReachableWith ok s)
    {c k : Entry}
    (hOrder : [c, k].Sublist s.history)
    {a : ClaimArgs}
    {snapshot : Job}
    (hClaimed : ClaimedBy k a snapshot)
    {errMsg : String}
    {failedAt : Time}
    {draw : Nat}
    {now : Time}
    (hCall :
      c.call =
        failureCall a snapshot errMsg failedAt draw now)
    (hEffect : c.after ≠ c.before) :
    ∃ given, c.after.job? a.jobId = some given ∧
      (given.state = .dead ∨
        given.runAt =
          nextRetryAt snapshot.attempt
            snapshot.backoffSeconds failedAt draw) := by
  have hc : c ∈ s.history :=
    hOrder.subset List.mem_cons_self
  have hKept := List.pairwise_iff_forall_sublist.mp
    (snapshots_kept hReach).before hOrder a snapshot hClaimed
  rcases history_failures hReach c hc _ _ _ _ _ _ hCall with
    hSame | ⟨j, r, hJob, hToken, hNew, _⟩
  · exact absurd hSame hEffect
  · rcases hKept.row j hJob hToken with
      ⟨hAttempt, hRetries⟩
    refine ⟨_, hNew, ?_⟩
    cases hRetry : snapshot.shouldRetry with
    | true =>
        exact .inr (runAt_fail hAttempt hRetries hRetry
          errMsg failedAt draw)
    | false =>
        left
        rw [state_fail hAttempt hRetries, finalState,
          hRetry]
        rfl

/- The worker's choice keeps to the capped exponential. -/
theorem le_nextRetryAt
    (attempt : Int)
    {backoffSeconds : Int}
    (hBackoff : 1 ≤ backoffSeconds)
    (failedAt : Time)
    (draw : Nat) :
    let d := cappedExponential attempt.toNat backoffSeconds
    failedAt + (d - d / 5) * second ≤
      nextRetryAt attempt backoffSeconds failedAt draw :=
  (nextRetryAt_bounds attempt.toNat hBackoff failedAt
    draw).1

/-
  A job that is pending or running is past the time that its
  submission, its last recorded failure or its last replay
  gave it. If that was the failure of an attempt, the capped
  exponential backoff of the attempt, shortened by at most a
  fifth, has passed since.
-/
theorem jobs_run_on_time
    (hReach : sluice.Reachable s)
    {id : Uuid}
    {j : Job}
    (hJob : s.db.job? id = some j)
    (hState : j.state = .pending ∨ j.state = .running) :
    ∃ c given, lastTimed s.history id = some c ∧
      c.after.job? id = some given ∧
        given.runAt ≤ s.clock ∧
          ∀ k a snapshot errMsg failedAt draw now,
            [c, k].Sublist s.history →
              ClaimedBy k a snapshot → a.jobId = id →
                c.call =
                    failureCall a snapshot errMsg failedAt
                      draw now →
                  let d :=
                    cappedExponential snapshot.attempt.toNat
                      snapshot.backoffSeconds
                  failedAt + (d - d / 5) * second ≤
                    s.clock := by
  rcases jobs_onTime hReach id j hJob with
    ⟨c, given, hLast, hGiven, hOnTime⟩
  have hDue := hOnTime.due hState
  refine ⟨c, given, hLast, hGiven, hDue, ?_⟩
  intro k a snapshot errMsg failedAt draw now hOrder
    hClaimed hId hCall
  subst hId
  have hEffect : c.after ≠ c.before := by
    have hTimed := List.find?_some hLast
    simp only [timed, Bool.and_eq_true,
      decide_eq_true_eq] at hTimed
    intro hSame
    exact hTimed.2 (by rw [hSame])
  have hk : k ∈ s.history :=
    hOrder.subset
      (List.mem_cons_of_mem _ List.mem_cons_self)
  have hBackoff := (jobs_backoff hReach).2 k hk a.jobId
    snapshot hClaimed.returned
  rcases row_of_recorded_failure hReach hOrder hClaimed
      hCall hEffect with
    ⟨given', hGiven', hRow⟩
  cases hGiven.symm.trans hGiven'
  rcases hRow with hDead | hRunAt
  · -- A dead job is neither pending nor running.
    have hStays := hOnTime.stays hDead
    rcases hState with hNot | hNot <;>
      simp [hNot] at hStays
  · rw [hRunAt] at hDue
    exact Int.le_trans
      (le_nextRetryAt snapshot.attempt hBackoff failedAt
        draw)
      hDue

/- Commits that set no time can be left out. -/
theorem lastTimed_drop_of_kept
    {n : Nat}
    {history : List Entry}
    {id : Uuid}
    (hKept : ∀ c ∈ history.take n, timed id c = false) :
    lastTimed history id =
      lastTimed (history.drop n) id := by
  have hNone : (history.take n).find? (timed id) = none := by
    rw [List.find?_eq_none]
    intro c hc
    simp [hKept c hc]
  unfold lastTimed
  rw [← List.take_append_drop n history, List.find?_append,
    hNone, List.take_append_drop]
  rfl

/-
  The second execution of a job that failed at time zero and
  backs off by a second.
-/
theorem jobs_run_on_time_after_failure :
    ∃ s j, sluice.Reachable s ∧ s.db.job? 7 = some j ∧
      j.state = .running ∧ j.attempt = 1 ∧
        0 + (1 - 1 / 5) * second ≤ s.clock := by
  rcases
    Machine.exists_reachable_of_run
      Storage.Sample.init_start
      (Sample.failureRun 0 ++ .tick 2000000 ::
        ((Call.promoteReadyFailed 1).whole ++
          (Call.tryClaim
            (Storage.Sample.claim 7 2)).whole))
      (fun s =>
        (∀ c ∈ s.history.take 2, timed 7 c = false) ∧
          Sample.endsInFailure 0
              { s with history := s.history.drop 2 } =
            true ∧
          (s.history.drop 2).head?.any (timed 7) = true ∧
          ∃ j ∈ s.db.job? 7, j.state = .running ∧
            j.attempt = 1)
      (by decide +kernel)
  with ⟨s, hReach, hKept, hEnds, hTimed, j, hJob, hRunning,
    hAttempt⟩
  rcases Sample.failure_of_endsInFailure hEnds with
    ⟨c, k, hOrder, hHead, hClaimed, hCall, _⟩
  rcases jobs_run_on_time hReach hJob (.inr hRunning) with
    ⟨c', given, hLastTimed, _, _, hBackoff⟩
  -- The failure is the last commit that set a time.
  have hSame : lastTimed s.history 7 = some c := by
    rcases List.head?_eq_some_iff.mp hHead with
      ⟨earlier, hDrop⟩
    have hRest : s.history.drop 2 = c :: earlier := hDrop
    rw [hRest] at hTimed
    rw [lastTimed_drop_of_kept hKept, hRest]
    exact lastTimed_cons_of_timed hTimed
  cases hSame.symm.trans hLastTimed
  have hAfter : [c, k].Sublist s.history :=
    hOrder.trans (List.drop_sublist 2 s.history)
  exact ⟨s, j, hReach, hJob, hRunning, hAttempt,
    hBackoff k _ _ _ _ _ _ hAfter hClaimed rfl hCall⟩

end Worker

end Sluice
