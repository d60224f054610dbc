import Sluice.Job.Template
import Sluice.Storage.History

/-
  The invariant of a jobs row.

  Each change of the life cycle keeps the invariant, so every
  commit does, and with it every run. The clock enters
  because a row that is pending or running must be due.

  Main declarations:
    * `Job.RowOk`
    * `Call.changes_rowOk`
    * `jobs_rowOk` and `history_forall`
    * `job_rows_ok`
-/

------------------------------------------------------------
-- The Row Invariant
------------------------------------------------------------

namespace Sluice

namespace Job

/- The columns of a row agree with its state. -/
structure RowOk (clock : Time) (j : Job) : Prop where
  ne_claimed : j.state ≠ .claimed
  claimToken : j.claimToken.isSome ↔ j.state = .running
  deadline : j.deadline.isSome ↔ j.state = .running
  completedAt :
    j.completedAt.isSome ↔
      j.state = .succeeded ∨ j.state = .cancelled
  maxRetries : 0 ≤ j.maxRetries
  attempt_nonneg : 0 ≤ j.attempt
  attempt_le : j.attempt ≤ j.maxRetries + 1
  attempt_le_of_ne_dead :
    j.state ≠ .dead → j.attempt ≤ j.maxRetries
  attempt_pos_of_failed : j.state = .failed → 1 ≤ j.attempt
  runAt_le :
    j.state = .pending ∨ j.state = .running →
      j.runAt ≤ clock

variable {clock : Time}
variable {j : Job}

theorem RowOk.mono
    {later : Time}
    (hOk : j.RowOk clock)
    (hLater : clock ≤ later) :
    j.RowOk later :=
  { hOk with
    runAt_le := fun hState =>
      Int.le_trans (hOk.runAt_le hState) hLater }

/- Under the invariant a row is in flight when running. -/
theorem RowOk.inFlight_iff
    (hOk : j.RowOk clock) :
    j.inFlight = true ↔ j.state = .running := by
  simp [inFlight, hOk.ne_claimed]

theorem RowOk.inserted
    (hInsertable : j.insertable clock = true) :
    j.inserted.RowOk clock := by
  unfold insertable at hInsertable
  simp only [Bool.and_eq_true, Bool.or_eq_true,
    decide_eq_true_eq] at hInsertable
  rcases hInsertable with
    ⟨⟨⟨⟨hAttempt, _⟩, hRetries⟩, _⟩, hState⟩
  have hPlain : j.state = .pending ∨ j.state = .scheduled :=
    hState.imp And.left (fun h => h)
  constructor
  case runAt_le =>
    rintro (hPending | hRunning)
    · rcases hState with ⟨_, hDue⟩ | hScheduled
      · exact hDue
      · exact absurd
          (hScheduled.symm.trans hPending) (by simp)
    · rcases hPlain with h | h <;>
        exact absurd (h.symm.trans hRunning) (by simp)
  all_goals
    rcases hPlain with h | h <;>
      simp [Job.inserted, h, hAttempt] <;> omega

theorem RowOk.claim
    (hOk : j.RowOk clock)
    (hPending : j.state = .pending)
    (a : Storage.ClaimArgs) :
    (j.claim a).RowOk clock := by
  have hCompleted := hOk.completedAt
  have hLe := hOk.attempt_le_of_ne_dead (by simp [hPending])
  constructor <;> simp [Job.claim]
  · simpa [hPending] using hCompleted
  · exact hOk.maxRetries
  · exact hOk.attempt_nonneg
  · omega
  · exact hLe
  · exact hOk.runAt_le (.inl hPending)

theorem RowOk.extend
    (hOk : j.RowOk clock)
    (hInFlight : j.inFlight = true)
    (deadline : Time) :
    (j.extend deadline).RowOk clock := by
  have hRunning := hOk.inFlight_iff.mp hInFlight
  exact
    { hOk with
      deadline := by simp [Job.extend, hRunning] }

/-
  A row that has left the state `running`: token and
  deadline are cleared.
-/
theorem RowOk.of_released
    (hOk : j.RowOk clock)
    {new : Job}
    (hClaimed : new.state ≠ .claimed)
    (hRunning : new.state ≠ .running)
    (hToken : new.claimToken = none)
    (hDeadline : new.deadline = none)
    (hCompleted :
      new.completedAt.isSome ↔
        new.state = .succeeded ∨ new.state = .cancelled)
    (hRetries : new.maxRetries = j.maxRetries)
    (hNonneg : 0 ≤ new.attempt)
    (hLe : new.attempt ≤ new.maxRetries + 1)
    (hAlive :
      new.state ≠ .dead → new.attempt ≤ new.maxRetries)
    (hFailed : new.state = .failed → 1 ≤ new.attempt)
    (hDue : new.state = .pending → new.runAt ≤ clock) :
    new.RowOk clock where
  ne_claimed := hClaimed
  claimToken := by simp [hToken, hRunning]
  deadline := by simp [hDeadline, hRunning]
  completedAt := hCompleted
  maxRetries := hRetries ▸ hOk.maxRetries
  attempt_nonneg := hNonneg
  attempt_le := hLe
  attempt_le_of_ne_dead := hAlive
  attempt_pos_of_failed := hFailed
  runAt_le := fun hState =>
    hDue (hState.resolve_right hRunning)

/- The columns of a row that is not running. -/
theorem RowOk.of_not_running
    (hOk : j.RowOk clock)
    (hNot : j.state ≠ .running) :
    j.claimToken = none ∧ j.deadline = none := by
  have hToken := hOk.claimToken
  have hDeadline := hOk.deadline
  exact ⟨by simpa [hNot] using hToken,
    by simpa [hNot] using hDeadline⟩

theorem RowOk.completedAt_none
    (hOk : j.RowOk clock)
    (hSucceeded : j.state ≠ .succeeded)
    (hCancelled : j.state ≠ .cancelled) :
    j.completedAt = none := by
  have hCompleted := hOk.completedAt
  simpa [hSucceeded, hCancelled] using hCompleted

theorem RowOk.complete
    (hOk : j.RowOk clock)
    (hInFlight : j.inFlight = true)
    (now : Time) :
    (j.complete now).RowOk clock := by
  have hRunning := hOk.inFlight_iff.mp hInFlight
  have hLe := hOk.attempt_le_of_ne_dead (by simp [hRunning])
  refine hOk.of_released ?_ ?_ rfl rfl ?_ rfl
    hOk.attempt_nonneg hOk.attempt_le (fun _ => hLe) ?_ ?_
  all_goals simp [Job.complete]

theorem RowOk.fail
    (hOk : j.RowOk clock)
    (hInFlight : j.inFlight = true)
    (errMsg : String)
    (nextRunAt : Option Time) :
    (j.fail errMsg nextRunAt).RowOk clock := by
  have hRunning := hOk.inFlight_iff.mp hInFlight
  have hLe := hOk.attempt_le_of_ne_dead (by simp [hRunning])
  have hNonneg := hOk.attempt_nonneg
  have hNone := hOk.completedAt_none
    (by simp [hRunning]) (by simp [hRunning])
  by_cases hLast : j.attempt + 1 > j.maxRetries
  all_goals
    refine hOk.of_released ?_ ?_ rfl rfl ?_ rfl ?_ ?_ ?_ ?_ ?_
    all_goals simp [Job.fail, hLast, hNone]
    all_goals omega

theorem RowOk.requeue
    (hOk : j.RowOk clock)
    (hInFlight : j.inFlight = true) :
    j.requeue.RowOk clock := by
  have hRunning := hOk.inFlight_iff.mp hInFlight
  have hLe := hOk.attempt_le_of_ne_dead (by simp [hRunning])
  have hNonneg := hOk.attempt_nonneg
  have hDue := hOk.runAt_le (.inr hRunning)
  have hNone := hOk.completedAt_none
    (by simp [hRunning]) (by simp [hRunning])
  by_cases hLast : j.attempt + 1 > j.maxRetries
  all_goals
    refine hOk.of_released ?_ ?_ rfl rfl ?_ rfl ?_ ?_ ?_ ?_
      (fun _ => hDue)
    all_goals simp [Job.requeue, hLast, hNone]
    all_goals omega

/- A job that waits is released when it is due. -/
theorem RowOk.release
    {runAt : Time}
    (hOk : j.RowOk clock)
    (hState : j.state = .scheduled ∨ j.state = .failed)
    (hDue : runAt ≤ clock) :
    (j.releaseFailed runAt).RowOk clock := by
  have hPlain :
      j.state ≠ .dead ∧ j.state ≠ .running ∧
        j.state ≠ .succeeded ∧ j.state ≠ .cancelled := by
    rcases hState with hState | hState <;> simp [hState]
  have hLe := hOk.attempt_le_of_ne_dead hPlain.1
  have hCleared := hOk.of_not_running hPlain.2.1
  have hNone :=
    hOk.completedAt_none hPlain.2.2.1 hPlain.2.2.2
  refine hOk.of_released ?_ ?_ hCleared.1 hCleared.2 ?_
    rfl hOk.attempt_nonneg hOk.attempt_le (fun _ => hLe) ?_
    (fun _ => hDue)
  all_goals simp [Job.releaseFailed, hNone]

theorem RowOk.cancel
    (hOk : j.RowOk clock)
    (hState : j.cancellable = true)
    (now : Time) :
    (j.cancel now).RowOk clock := by
  have hPlain :
      j.state ≠ .dead ∧ j.state ≠ .running := by
    unfold Job.cancellable at hState
    constructor <;> intro h <;> simp [h] at hState
  have hLe := hOk.attempt_le_of_ne_dead hPlain.1
  have hCleared := hOk.of_not_running hPlain.2
  refine hOk.of_released ?_ ?_ hCleared.1 hCleared.2 ?_
    rfl hOk.attempt_nonneg hOk.attempt_le (fun _ => hLe) ?_
    ?_
  all_goals simp [Job.cancel]

theorem RowOk.replay
    (hOk : j.RowOk clock)
    {now : Time}
    (hNow : now ≤ clock) :
    (j.replay now).RowOk clock := by
  have hRetries := hOk.maxRetries
  refine hOk.of_released ?_ ?_ rfl rfl ?_ rfl ?_ ?_ ?_ ?_
    (fun _ => hNow)
  all_goals simp [Job.replay]
  all_goals omega

theorem RowOk.forceFail
    (hOk : j.RowOk clock)
    (hState : j.forceFailable = true) :
    j.forceFail.RowOk clock := by
  have hNone : j.completedAt = none := by
    unfold Job.forceFailable Job.inFlight Job.cancellable
      at hState
    refine hOk.completedAt_none ?_ ?_ <;>
      intro h <;> simp [h] at hState
  refine hOk.of_released ?_ ?_ rfl rfl ?_ rfl
    hOk.attempt_nonneg hOk.attempt_le ?_ ?_ ?_
  all_goals simp [Job.forceFail, hNone]

end Job

------------------------------------------------------------
-- Every Change Keeps The Invariant
------------------------------------------------------------

namespace Storage

open Foundations ReadCommitted

theorem inFlight_of_stale
    {j : Job}
    {now : Time}
    (hStale : j.stale now = true) :
    j.inFlight = true := by
  unfold Job.stale at hStale
  exact (Bool.and_eq_true_iff.mp hStale).1

/- An inserted job is not in flight. -/
theorem inFlight_inserted
    {j : Job}
    {clock : Time}
    (hInsertable : j.insertable clock = true) :
    j.inserted.inFlight = false := by
  have hOk := Job.RowOk.inserted hInsertable
  have hToken := hOk.claimToken
  cases hFlight : j.inserted.inFlight with
  | false => rfl
  | true =>
      have hRunning := hOk.inFlight_iff.mp hFlight
      exact absurd (hToken.mpr hRunning)
        (by simp [Job.inserted])

theorem Call.changes_rowOk
    {call : Call}
    {start clock : Time}
    {old new : Job}
    (hChange : call.changes start old new)
    (hStart : start ≤ clock)
    (hOk : old.RowOk clock) :
    new.RowOk clock := by
  cases call <;> simp only [Call.changes] at hChange
  case tryClaim | tryClaimLimited =>
    rw [hChange.2.2]
    exact hOk.claim hChange.2.1 _
  case extendDeadline =>
    rw [hChange.2.2.2]
    exact hOk.extend hChange.2.2.1 _
  case completeJob =>
    rw [hChange.2.2.2]
    exact hOk.complete hChange.2.2.1 _
  case failJob =>
    rw [hChange.2.2.2]
    exact hOk.fail hChange.2.2.1 _ _
  case promoteDueScheduled limit =>
    rw [hChange.2.2]
    exact hOk.release (.inl hChange.1)
      (Int.le_trans hChange.2.1 hStart)
  case promoteReadyFailed limit =>
    rw [hChange.2.2]
    exact hOk.release (.inr hChange.1) hStart
  case requeueStaleJob jobId now =>
    rw [hChange.2.2]
    exact hOk.requeue (inFlight_of_stale hChange.2.1)
  case cancelJob jobId tenantId =>
    rw [hChange.2.2.2]
    exact hOk.cancel hChange.2.2.1 start
  case replayJob jobId tenantId =>
    rw [hChange.2.2.2]
    exact hOk.replay hStart
  case forceFail jobId =>
    rw [hChange.2.2]
    exact hOk.forceFail hChange.2.1

/- Succeeded and cancelled jobs do not change. -/
theorem Call.changes_not_finished
    {call : Call}
    {start : Time}
    {old new : Job}
    (hChange : call.changes start old new) :
    old.state ≠ .succeeded ∧ old.state ≠ .cancelled := by
  constructor <;> intro hState <;> cases call <;>
    simp [Call.changes, Job.stale, Job.forceFailable,
      Job.inFlight, Job.cancellable, hState] at hChange

end Storage

------------------------------------------------------------
-- Inserted Jobs
------------------------------------------------------------

section

variable
  {validateWebhookPayload : String → Except String Unit}

/- A built job may be inserted, now or later. -/
theorem insertable_of_build
    {t : Template}
    {tenantId id : Uuid}
    {now clock : Time}
    {j : Job}
    (hBuild :
      t.build validateWebhookPayload tenantId id now =
        .ok j)
    (hNow : now ≤ clock) :
    j.insertable clock = true := by
  rcases Template.build_eq_ok hBuild with ⟨hJob, hValid⟩
  have hLimits := Job.limits_of_validate hValid
  have hRunAt : j.runAt = now := by rw [hJob]; rfl
  have hState : j.state = .pending := by rw [hJob]; rfl
  have hAttempt : j.attempt = 0 := by rw [hJob]; rfl
  simp only [Job.insertable, hState, hAttempt, hRunAt,
    hLimits, hNow, decide_true, Bool.true_and,
    Bool.true_or]

/-
  The jobs that `handleSubmitJob` and `fireSchedule` have
  inserted, made at some time before.
-/
inductive Job.Produced
    (validateWebhookPayload : String → Except String Unit)
    (clock : Time)
    (j : Job) : Prop
| submitted
    {t : Template} {tenantId id : Uuid} {now : Time}
    {runAt : Option Time}
    {idempotencyKey traceParent : Option String} :
    now ≤ clock →
      submitJob validateWebhookPayload t tenantId id now
          runAt idempotencyKey traceParent =
        .ok j →
        Produced validateWebhookPayload clock j
| fired
    {t : Template} {tenantId id : Uuid} {now : Time}
    {key : String} :
    now ≤ clock →
      cronJob validateWebhookPayload t tenantId id now key =
        .ok j →
        Produced validateWebhookPayload clock j

theorem Job.Produced.insertable
    {clock : Time}
    {j : Job}
    (hProduced : j.Produced validateWebhookPayload clock) :
    j.insertable clock = true := by
  cases hProduced with
  | submitted hNow hSubmit =>
      rcases submitJob_eq_ok hSubmit with
        ⟨built, hBuild, hJob⟩
      have hBuilt := insertable_of_build hBuild hNow
      rcases hJob with hJob | ⟨later, _, hJob⟩
      · rw [hJob]
        exact hBuilt
      · rw [hJob]
        unfold Job.insertable at hBuilt ⊢
        simp only [Bool.and_eq_true] at hBuilt
        simp only [hBuilt.1.1.1.1, hBuilt.1.1.1.2,
          hBuilt.1.1.2, hBuilt.1.2, decide_true,
          Bool.and_self, Bool.or_true]
  | @fired t tenantId id now key hNow hCron =>
      unfold cronJob at hCron
      cases hBuild :
          t.build validateWebhookPayload tenantId id now with
      | error message =>
          rw [hBuild] at hCron
          cases hCron
      | ok built =>
          rw [hBuild] at hCron
          cases hCron
          have hBuilt := insertable_of_build hBuild hNow
          exact hBuilt

theorem Job.insertable_mono
    {j : Job}
    {clock later : Time}
    (hInsertable : j.insertable clock = true)
    (hLater : clock ≤ later) :
    j.insertable later = true := by
  unfold Job.insertable at hInsertable ⊢
  simp only [Bool.and_eq_true, Bool.or_eq_true,
    decide_eq_true_eq] at hInsertable ⊢
  refine ⟨hInsertable.1, ?_⟩
  rcases hInsertable.2 with ⟨hPending, hDue⟩ | hScheduled
  · exact .inl ⟨hPending, Int.le_trans hDue hLater⟩
  · exact .inr hScheduled

end

------------------------------------------------------------
-- Every Run Keeps The Invariant
------------------------------------------------------------

namespace Storage

open Foundations ReadCommitted

variable {ok : Sys → Step → Prop}
variable {s : Sys}

/- Jobs are inserted as the code builds them. -/
theorem calls_insertable
    (hReach : sluice.ReachableWith ok s) :
    ∀ j, .insertJob j ∈ s.calls →
      j.insertable s.clock = true := by
  refine Engine.calls_invariant
    (I := fun clock calls =>
      ∀ j, .insertJob j ∈ calls →
        j.insertable clock = true)
    ?_ ?_ ?_ hReach
  · intro clock j hj
    cases hj
  · intro s call _ hInv hAdmits j hj
    rcases List.mem_cons.mp hj with hNew | hOld
    · subst hNew
      exact hAdmits
    · exact hInv j hOld
  · intro clock calls n hInv j hj
    exact Job.insertable_mono (hInv j hj)
      (Int.le_add_of_nonneg_right (Int.natCast_nonneg n))

theorem session_insertable
    (hReach : sluice.ReachableWith ok s)
    {e : Sess}
    (he : e ∈ s.sessions) :
    ∀ j, e.call = .insertJob j →
      j.insertable s.clock = true := by
  intro j hCall
  have hMade := ((Engine.booked hReach).sessions e he).1
  rw [hCall] at hMade
  exact calls_insertable hReach j hMade

/- One commit keeps the invariant of every row. -/
theorem Moves.rowOk
    {c : Entry}
    {id : Uuid}
    {clock : Time}
    {j : Job}
    (hMoves : Moves c id)
    (hStart : c.start ≤ clock)
    (hInsert :
      ∀ j, c.call = .insertJob j →
        j.insertable clock = true)
    (hBefore :
      ∀ old, c.before.job? id = some old →
        old.RowOk clock)
    (hAfter : c.after.job? id = some j) :
    j.RowOk clock := by
  cases hMoves with
  | kept hSame => exact hBefore j (hSame.symm.trans hAfter)
  | inserted new hCall _ hNew =>
      cases hAfter.symm.trans hNew
      exact Job.RowOk.inserted (hInsert new hCall)
  | changed old new hOld hNew hChange =>
      cases hAfter.symm.trans hNew
      exact Call.changes_rowOk hChange hStart
        (hBefore old hOld)

theorem jobs_rowOk
    (hReach : sluice.ReachableWith ok s) :
    ∀ id j, s.db.job? id = some j → j.RowOk s.clock := by
  refine Engine.timed_invariant
    (I := fun db _ clock =>
      ∀ id j, db.job? id = some j → j.RowOk clock)
    ?_ ?_ ?_ hReach
  · intro db clock hDb id j hJob
    rw [hDb.job?] at hJob
    cases hJob
  · intro s l₁ e l₂ hPrev hInv _ hSplit _ id j hJob
    have hMem : e ∈ s.sessions := self_mem_of_split hSplit
    have hBooked :=
      (Engine.booked hPrev).sessions e hMem
    exact (moves_committed (sessions_sound hPrev e hMem)
      id).rowOk hBooked.2.1 (session_insertable hPrev hMem)
      (hInv id) hJob
  · intro _ _ _ _ hLe hInv id j hJob
    exact (hInv id j hJob).mono hLe

/-
  A fact about lawful commits on rows that satisfy the
  invariant holds of every commit of a run.
-/
theorem history_forall
    {P : Entry → Prop}
    (hEntry :
      ∀ c clock, Lawful c →
        (∀ id j, c.before.job? id = some j →
          j.RowOk clock) →
          P c)
    (hReach : sluice.ReachableWith ok s) :
    ∀ c ∈ s.history, P c := by
  refine Engine.history_invariant ?_ hReach
  intro s e hPrev he _
  exact hEntry _ s.clock (lawful_entry hPrev he)
    (jobs_rowOk hPrev)

/-
  Every row of every reachable state satisfies the invariant,
  and no commit changes a succeeded or cancelled job. What
  the code inserts is admitted to a run.
-/
theorem job_rows_ok
    (hReach : sluice.Reachable s) :
    (∀ id j, s.db.job? id = some j → j.RowOk s.clock) ∧
      (∀ c ∈ s.history, ∀ id old,
        c.before.job? id = some old →
          old.state = .succeeded ∨
              old.state = .cancelled →
            c.after.job? id = some old) ∧
        ∀ validateWebhookPayload clock calls (j : Job),
          j.Produced validateWebhookPayload clock →
            (Call.insertJob j).admitted clock calls =
              true := by
  refine ⟨jobs_rowOk hReach, ?_,
    fun _ _ _ _ hProduced => hProduced.insertable⟩
  intro c hc id old hOld hState
  cases (history_lawful hReach c hc).jobs id with
  | kept hSame => rw [hSame, hOld]
  | inserted j _ hNone _ =>
      rw [hOld] at hNone
      cases hNone
  | changed old' new hOld' _ hChange =>
      cases hOld.symm.trans hOld'
      have hNot := Call.changes_not_finished hChange
      rcases hState with hSucceeded | hCancelled
      · exact absurd hSucceeded hNot.1
      · exact absurd hCancelled hNot.2

/- A job that is claimed and fails, and one that succeeds. -/
theorem job_rows_ok_sample :
    ∃ s, sluice.Reachable s ∧
      (s.db.job? 7).map Job.state = some .failed ∧
        (s.db.job? 8).map Job.state = some .succeeded ∧
          (∀ id j, s.db.job? id = some j →
            j.RowOk s.clock) ∧
            ∀ c ∈ s.history, ∀ id old,
              c.before.job? id = some old →
                old.state = .succeeded ∨
                    old.state = .cancelled →
                  c.after.job? id = some old := by
  rcases
    Machine.exists_reachable_of_run Sample.init_start
      ((Call.insertJob (Sample.job 7)).whole ++
        (Call.insertJob (Sample.job 8)).whole ++
          (Call.tryClaim (Sample.claim 7 1)).whole ++
            (Call.tryClaim (Sample.claim 8 2)).whole ++
              (Call.completeJob 8 2 2 0).whole ++
                (Call.failJob 7 1 1 "timeout" (some 5)
                  0).whole)
      (fun s =>
        (s.db.job? 7).map Job.state = some .failed ∧
          (s.db.job? 8).map Job.state = some .succeeded)
      (by decide +kernel)
  with ⟨s, hReach, hFailed, hSucceeded⟩
  have hRows := job_rows_ok hReach
  exact ⟨s, hReach, hFailed, hSucceeded, hRows.1, hRows.2.1⟩

end Storage

end Sluice
