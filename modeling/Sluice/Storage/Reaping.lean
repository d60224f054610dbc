import Sluice.Storage.RunWrites

/-
  Which stale claims can be reaped.

  `RequeueStaleJob` and a force-fail close the open run of a
  job in the transaction that releases the job. The duration
  they store is a 32-bit number of milliseconds. When it does
  not fit, the transaction fails, and it will fail at every
  later time: the job stays running.

  Key definitions include:
    * `Commits`
    * `durationLimit`

  Key theorems include:
    * `Commits.statements` and `commits_of_statements`
    * `runs_started`
    * `stale_claim_reaped_iff`
    * `stale_claim_never_reaped`
-/

------------------------------------------------------------
-- A Call Among Idle Sessions
------------------------------------------------------------

namespace Sluice

namespace Storage

open Foundations ReadCommitted

/-
  The call runs to its commit while all other sessions stand
  still.
-/
def Commits (s : Sys) (call : Call) (s' : Sys) : Prop :=
  sluice.run call.whole s = some s' ∧
    s'.sessions = s.sessions

/- The session of a new call, in front of the others. -/
def withNewest (s : Sys) (e : Sess) : Sys :=
  { s with
    sessions := e :: s.sessions
    calls := e.call :: s.calls }

section

variable {s s' : Sys}
variable {call : Call}

theorem run_whole_eq_some
    (hLength : call.length = 2)
    (hRun : sluice.run call.whole s = some s') :
    ∃ s₁ s₂ s₃,
      postgres.step (.begin call) s = some s₁ ∧
        postgres.step (.statement 0 (fun k => k)) s₁ =
          some s₂ ∧
        postgres.step (.statement 0 (fun k => k)) s₂ =
          some s₃ ∧
        postgres.step (.commit 0) s₃ = some s' := by
  unfold Call.whole at hRun
  rw [hLength] at hRun
  simp only [List.replicate_succ, List.replicate_zero,
    List.cons_append, List.nil_append,
    Machine.run_cons] at hRun
  rcases Option.bind_eq_some_iff.mp hRun with
    ⟨s₁, hBegin, hRun₁⟩
  rcases Option.bind_eq_some_iff.mp hRun₁ with
    ⟨s₂, hFirst, hRun₂⟩
  rcases Option.bind_eq_some_iff.mp hRun₂ with
    ⟨s₃, hSecond, hRun₃⟩
  rcases Option.bind_eq_some_iff.mp hRun₃ with
    ⟨s₄, hCommit, hEnd⟩
  cases hEnd
  exact ⟨s₁, s₂, s₃, hBegin, hFirst, hSecond, hCommit⟩

/-
  A call of two statements that commits: neither of them
  failed or had to wait.
-/
theorem Commits.statements
    (hLength : call.length = 2)
    (hCommits : Commits s call s') :
    ∃ writes locks writes' locks',
      call.statement 0 s.clock (fun k => k)
          (lockedBy s.sessions) s.db =
        .proceed writes locks ∧
      call.statement 1 s.clock (fun k => k)
          (lockedBy s.sessions)
          (postgres.performAll s.db writes) =
        .proceed writes' locks' ∧
      s'.db = postgres.performAll s.db (writes ++ writes') := by
  rcases hCommits with ⟨hRun, hStill⟩
  rcases run_whole_eq_some hLength hRun with
    ⟨s₁, s₂, s₃, hBegin, hFirst, hSecond, hCommit⟩
  have hOpened :
      s₁ = withNewest s (Session.opened call s.clock) := by
    simp only [Engine.step] at hBegin
    split at hBegin
    · exact (Option.some.inj hBegin).symm
    · cases hBegin
  subst hOpened
  -- A failed statement ends its session; the commit would
  -- then be that of another one.
  have hShrinks := Engine.length_sessions_commit hCommit
  rw [hStill] at hShrinks
  have hKeeps := Engine.length_sessions_statement hSecond
  have hPc : 0 < call.length := by omega
  rcases Engine.step_newest_cases rfl hPc hFirst with
    rfl | ⟨writes, locks, hOutcome, _, rfl⟩
  · exact absurd hKeeps (by
      simp only [not_le]
      exact hShrinks)
  have hPc' : 0 + 1 < call.length := by omega
  rcases Engine.step_newest_cases rfl hPc' hSecond with
    rfl | ⟨writes', locks', hOutcome', _, rfl⟩
  · exact absurd hShrinks (Nat.lt_irrefl _)
  rw [Engine.step_commit_newest rfl hLength.symm] at hCommit
  cases hCommit
  exact ⟨writes, locks, writes', locks', hOutcome, hOutcome',
    rfl⟩

/- The call commits when nothing fails or has to wait. -/
theorem commits_of_statements
    (s : Sys)
    (call : Call)
    (hLength : call.length = 2)
    (hAdmits : call.admitted s.clock s.calls = true)
    {writes writes' : List Write}
    {locks locks' : List RowKey}
    (hOutcome :
      call.statement 0 s.clock (fun k => k)
          (lockedBy s.sessions) s.db =
        .proceed writes locks)
    (hFree : ∀ k ∈ locks, lockedBy s.sessions k = false)
    (hOutcome' :
      call.statement 1 s.clock (fun k => k)
          (lockedBy s.sessions)
          (postgres.performAll s.db writes) =
        .proceed writes' locks')
    (hFree' : ∀ k ∈ locks', lockedBy s.sessions k = false) :
    ∃ s', Commits s call s' ∧
      s'.db =
        postgres.performAll s.db (writes ++ writes') := by
  have hPc : 0 < call.length := by omega
  have hPc' : 0 + 1 < call.length := by omega
  -- The session before and after each of its statements.
  let e : Sess := Session.opened call s.clock
  let e' : Sess := e.advance writes locks
  let e'' : Sess := e'.advance writes' locks'
  have hBegin :
      sluice.step (.begin call) s = some (withNewest s e) :=
    if_pos hAdmits
  have hFirst :
      sluice.step (.statement 0 (fun k => k))
          (withNewest s e) =
        some (withNewest s e') :=
    Engine.step_newest (E := postgres)
      (s := withNewest s e) rfl hPc hOutcome hFree
  have hSecond :
      sluice.step (.statement 0 (fun k => k))
          (withNewest s e') =
        some (withNewest s e'') :=
    Engine.step_newest (E := postgres)
      (s := withNewest s e') rfl hPc' hOutcome' hFree'
  have hCommit :
      sluice.step (.commit 0) (withNewest s e'') =
        some
          (postgres.committed (withNewest s e'') e''
            s.sessions) :=
    Engine.step_commit_newest (E := postgres)
      (s := withNewest s e'') rfl hLength.symm
  refine ⟨postgres.committed (withNewest s e'') e''
    s.sessions, ⟨?_, rfl⟩, rfl⟩
  unfold Call.whole
  rw [hLength]
  simp only [List.replicate_succ, List.replicate_zero,
    List.cons_append, List.nil_append, Machine.run_cons,
    hBegin, hFirst, hSecond, hCommit, Option.bind_some]
  rfl

end

------------------------------------------------------------
-- Starts And Durations Of Runs
------------------------------------------------------------

/- The durations that round to at most 2147483647 ms. -/
def durationLimit : Time := 2147483647500

theorem inInt4_rounded_iff
    {d : Int}
    (hNonneg : 0 ≤ d) :
    inInt4 ((d + 500) / 1000) = true ↔
      d < 2147483647500 := by
  unfold inInt4
  rw [Bool.and_eq_true, decide_eq_true_eq, decide_eq_true_eq]
  omega

theorem isSome_durationMs_iff
    {finished started : Time}
    (hOrder : started ≤ finished) :
    (durationMs finished started).isSome = true ↔
      finished - started < durationLimit := by
  have hNonneg : 0 ≤ finished - started :=
    Int.sub_nonneg_of_le hOrder
  unfold durationMs durationLimit
  rw [← inInt4_rounded_iff hNonneg]
  simp only [hNonneg, if_true]
  split
  · rename_i hFits
    simp [hFits]
  · rename_i hFits
    simp [hFits]

theorem isSome_finish
    (r : RunRow)
    (state : JobState)
    (now : Time)
    (error : Option String) :
    (r.finish state now error).isSome =
      (durationMs now r.startedAt).isSome := by
  unfold RunRow.finish
  exact Option.isSome_map

theorem isSome_updateRuns_iff
    {p : RunRow → Bool}
    {f : RunRow → Option RunRow}
    {db : Db} :
    (updateRuns p f db).isSome = true ↔
      ∀ r ∈ db.jobRuns.rows.filter p,
        (f r).isSome = true := by
  unfold updateRuns
  induction db.jobRuns.rows.filter p with
  | nil => simp
  | cons r rows ih =>
      rw [List.mapM_cons, List.forall_mem_cons, ← ih]
      cases f r with
      | none => simp
      | some r' =>
          cases rows.mapM f with
          | none => simp
          | some rows' => simp

theorem startedAt_of_finish
    {r r' : RunRow}
    {state : JobState}
    {now : Time}
    {error : Option String}
    (hFinish : r.finish state now error = some r') :
    r'.startedAt = r.startedAt := by
  unfold RunRow.finish at hFinish
  rcases Option.map_eq_some_iff.mp hFinish with
    ⟨ms, _, hRow⟩
  rw [← hRow]

section

variable {ok : Sys → Step → Prop}
variable {s : Sys}

/- Claims are made with the time of the caller. -/
theorem claims_made_before
    (hReach : sluice.ReachableWith ok s) :
    ∀ call ∈ s.calls, ∀ a, call.claimArgs? = some a →
      a.now ≤ s.clock := by
  refine Engine.calls_invariant
    (I := fun clock calls =>
      ∀ call ∈ calls, ∀ a, call.claimArgs? = some a →
        a.now ≤ clock)
    ?_ ?_ ?_ hReach
  · intro clock call hCall
    cases hCall
  · intro s call _ hInv hAdmits call' hCall' a hClaim
    rcases List.mem_cons.mp hCall' with hNew | hOld
    · subst hNew
      exact (Call.fresh_of_admitted hAdmits hClaim).1
    · exact hInv call' hOld a hClaim
  · intro clock calls n hInv call hCall a hClaim
    exact Int.le_trans (hInv call hCall a hClaim)
      (Int.le_add_of_nonneg_right (Int.natCast_nonneg n))

/- No run starts in the future. -/
theorem runs_started
    (hReach : sluice.ReachableWith ok s) :
    ∀ id r, s.db.run? id = some r →
      r.startedAt ≤ s.clock := by
  refine Engine.timed_invariant
    (I := fun db _ clock =>
      ∀ id r, db.run? id = some r → r.startedAt ≤ clock)
    ?_ ?_ ?_ hReach
  · intro db clock hDb id r hRun
    rw [hDb.run?] at hRun
    cases hRun
  · intro s l₁ e l₂ hPrev hInv _ hSplit _ id r hRun
    have he : e ∈ s.sessions := self_mem_of_split hSplit
    have hLawful := lawful_entry hPrev he
    cases hLawful.runs id with
    | kept hSame =>
        exact hInv id r (hSame.symm.trans hRun)
    | opened hNew hNone =>
        rcases Option.map_eq_some_iff.mp hNew with
          ⟨a, hClaim, rfl⟩
        have hMade := ((Engine.booked hPrev).sessions e he).1
        rcases hLawful.claims a hClaim with
          hSame | ⟨old, _, _, _, _, hOpened⟩
        · have hStill :=
            congrArg (fun db : Db => db.run? a.runId) hSame
          cases hNone.symm.trans (hStill.symm.trans hRun)
        · cases hRun.symm.trans hOpened
          exact claims_made_before hPrev e.call hMade a hClaim
    | closed old new hOld hAfter hCloses =>
        cases hRun.symm.trans hAfter
        rcases Call.finish_of_closes hCloses with
          ⟨state, now, error, hFinish⟩
        rw [startedAt_of_finish hFinish]
        exact hInv id old hOld
  · intro _ _ _ _ hLe hInv id r hRun
    exact Int.le_trans (hInv id r hRun) hLe

end

------------------------------------------------------------
-- Reaping A Stale Claim
------------------------------------------------------------

/- A running job whose deadline has passed. -/
structure StaleClaim (s : Sys) (j : Job) : Prop where
  row : s.db.job? j.id = some j
  running : j.state = .running
  late : j.deadline.any (fun d => decide (d < s.clock)) = true

/- No other session has locked the job or its open runs. -/
structure Free (s : Sys) (jobId : Uuid) : Prop where
  job : lockedBy s.sessions (.job jobId) = false
  runs :
    ∀ r ∈ openRuns s.db jobId,
      lockedBy s.sessions (.run r.id) = false

theorem Free.job_locks
    {s : Sys}
    {jobId : Uuid}
    (hFree : Free s jobId) :
    ∀ k ∈ [RowKey.job jobId],
      lockedBy s.sessions k = false := by
  intro k hk
  rw [List.mem_singleton.mp hk]
  exact hFree.job

/- The open runs of the job have a duration that fits. -/
def Young (s : Sys) (jobId : Uuid) : Prop :=
  ∀ r ∈ openRuns s.db jobId,
    s.clock - r.startedAt < durationLimit

section

variable {ok : Sys → Step → Prop}
variable {s s' : Sys}
variable {j : Job}

theorem StaleClaim.inFlight
    (hStale : StaleClaim s j) :
    j.inFlight = true := by
  simp [Job.inFlight, hStale.running]

/- Closing the open runs works while they are young. -/
theorem isSome_closing_iff
    (hReach : sluice.ReachableWith ok s)
    (jobId : Uuid)
    (state : JobState)
    (error : Option String) :
    (updateRuns (openRun jobId)
      (fun r => r.finish state s.clock error)
      s.db).isSome = true ↔ Young s jobId := by
  rw [isSome_updateRuns_iff]
  refine forall₂_congr ?_
  intro r hr
  have hRow : s.db.run? r.id = some r :=
    Table.find?_of_mem (List.mem_of_mem_filter hr)
  rw [isSome_finish]
  exact isSome_durationMs_iff (runs_started hReach r.id r hRow)

/- The locks that closing the open runs takes. -/
theorem free_closing
    {jobId : Uuid}
    (hFree : Free s jobId)
    {state : JobState}
    {error : Option String}
    {runs : List RunRow}
    (hRuns :
      updateRuns (openRun jobId)
          (fun r => r.finish state s.clock error) s.db =
        some runs) :
    ∀ k ∈ runs.map (fun r => RowKey.run r.id),
      lockedBy s.sessions k = false := by
  intro k hk
  rcases List.mem_map.mp hk with ⟨r', hr', rfl⟩
  rcases exists_of_mem_mapM hRuns r' hr' with
    ⟨r, hr, hFinish⟩
  rw [(RunRow.finish_fixed hFinish).1]
  exact hFree.runs r hr

theorem jobs_updateRuns
    (db : Db)
    (runs : List RunRow) :
    (postgres.performAll db (runs.map Write.updateRun)).jobs =
      db.jobs := by
  induction runs generalizing db with
  | nil => rfl
  | cons r runs ih =>
      exact ih (postgres.perform db (.updateRun r))

/- A requeue that commits found the open runs young. -/
theorem young_of_requeue
    (hReach : sluice.ReachableWith ok s)
    {jobId : Uuid}
    (hCommits :
      Commits s (.requeueStaleJob jobId s.clock) s') :
    Young s jobId := by
  rw [← isSome_closing_iff hReach jobId .failed
    (some "worker heartbeat expired")]
  rcases hCommits.statements rfl with
    ⟨writes, locks, _, _, hFirst, _⟩
  simp only [Call.statement, closeStaleRuns] at hFirst
  split at hFirst
  · cases hFirst
  · rename_i hRuns
    rw [hRuns]
    rfl

/- So did a force-fail. -/
theorem young_of_forceFail
    (hReach : sluice.ReachableWith ok s)
    {jobId : Uuid}
    (hCommits : Commits s (.forceFail jobId) s') :
    Young s jobId := by
  rw [← isSome_closing_iff hReach jobId .dead
    (some "force-failed by operator")]
  rcases hCommits.statements rfl with
    ⟨writes, locks, _, _, hFirst, hSecond, _⟩
  simp only [Call.statement, forceFailJob] at hFirst
  split at hFirst
  · cases hFirst
  · cases hFirst
    simp only [Call.statement, forceFailRuns] at hSecond
    split at hSecond
    · cases hSecond
    · rename_i runs hRuns
      -- The first statement has left the runs alone.
      change updateRuns _ _ s.db = some runs at hRuns
      rw [hRuns]
      rfl

/- While the open runs are young, the job is requeued. -/
theorem requeue_of_young
    (hReach : sluice.ReachableWith ok s)
    (hStale : StaleClaim s j)
    (hFree : Free s j.id)
    (hYoung : Young s j.id) :
    ∃ s', Commits s (.requeueStaleJob j.id s.clock) s' ∧
      s'.db.job? j.id = some j.requeue := by
  rw [← isSome_closing_iff hReach j.id .failed
    (some "worker heartbeat expired")] at hYoung
  rcases Option.isSome_iff_exists.mp hYoung with
    ⟨runs, hRuns⟩
  have hFirst :
      closeStaleRuns j.id s.clock s.db = runResult runs := by
    unfold closeStaleRuns
    rw [hRuns]
  have hView :
      (postgres.performAll s.db
        (runs.map Write.updateRun)).job? j.id = some j := by
    unfold Db.job?
    rw [jobs_updateRuns]
    exact hStale.row
  have hGuard : j.stale s.clock = true := by
    unfold Job.stale
    rw [hStale.inFlight, hStale.late]
    rfl
  have hSecond :
      requeueJob j.id s.clock
          (postgres.performAll s.db
            (runs.map Write.updateRun)) =
        jobResult j.requeue := by
    unfold requeueJob
    rw [matchJob_eq_some_iff.mpr ⟨hView, hGuard⟩]
  rcases commits_of_statements s
      (.requeueStaleJob j.id s.clock) rfl
      (decide_eq_true (Int.le_refl s.clock)) hFirst
      (free_closing hFree hRuns) hSecond
      hFree.job_locks with
    ⟨s', hCommits, hDb⟩
  have hAfter :
      s'.db =
        (postgres.performAll s.db
          (runs.map Write.updateRun)).perform
            (.updateJob j.requeue) := by
    rw [hDb]
    exact List.foldl_append
  refine ⟨s', hCommits, ?_⟩
  rw [hAfter, Db.job?_perform]
  simp only [hView]
  exact if_pos rfl

/- While the open runs are young, the job is force-failed. -/
theorem forceFail_of_young
    (hReach : sluice.ReachableWith ok s)
    (hStale : StaleClaim s j)
    (hFree : Free s j.id)
    (hYoung : Young s j.id) :
    ∃ s', Commits s (.forceFail j.id) s' ∧
      s'.db.job? j.id = some j.forceFail := by
  rw [← isSome_closing_iff hReach j.id .dead
    (some "force-failed by operator")] at hYoung
  rcases Option.isSome_iff_exists.mp hYoung with
    ⟨runs, hRuns⟩
  have hGuard : j.forceFailable = true := by
    unfold Job.forceFailable
    rw [hStale.inFlight]
    rfl
  have hFirst :
      forceFailJob j.id s.db = jobResult j.forceFail := by
    unfold forceFailJob
    rw [matchJob_eq_some_iff.mpr ⟨hStale.row, hGuard⟩]
  have hSecond :
      forceFailRuns j.id s.clock
          (postgres.performAll s.db
            [.updateJob j.forceFail]) =
        runResult runs := by
    have hSame :
        updateRuns (openRun j.id)
            (fun r =>
              r.finish .dead s.clock
                (some "force-failed by operator"))
            (postgres.performAll s.db
              [.updateJob j.forceFail]) =
          some runs := hRuns
    unfold forceFailRuns
    rw [hSame]
  rcases commits_of_statements s (.forceFail j.id) rfl rfl
      hFirst hFree.job_locks hSecond
      (free_closing hFree hRuns) with
    ⟨s', hCommits, hDb⟩
  have hAfter :
      s'.db =
        postgres.performAll
          (s.db.perform (.updateJob j.forceFail))
          (runs.map Write.updateRun) := by
    rw [hDb]
    rfl
  have hPut := Db.job?_perform s.db
    (.updateJob j.forceFail) j.id
  simp only [hStale.row] at hPut
  refine ⟨s', hCommits, ?_⟩
  unfold Db.job?
  rw [hAfter, jobs_updateRuns]
  exact hPut.trans (if_pos rfl)

/-
  A stale claim can be reaped, by the scheduler or by an
  operator, exactly while the open runs of the job are
  younger than the limit.
-/
theorem stale_claim_reaped_iff
    (hReach : sluice.Reachable s)
    (hStale : StaleClaim s j)
    (hFree : Free s j.id) :
    ((∃ s' j',
        Commits s (.requeueStaleJob j.id s.clock) s' ∧
          s'.db.job? j.id = some j' ∧
          (j'.state = .pending ∨ j'.state = .dead)) ↔
        Young s j.id) ∧
      ((∃ s' j', Commits s (.forceFail j.id) s' ∧
          s'.db.job? j.id = some j' ∧ j'.state = .dead) ↔
        Young s j.id) := by
  constructor
  · constructor
    · rintro ⟨s', _, hCommits, _⟩
      exact young_of_requeue hReach hCommits
    · intro hYoung
      rcases requeue_of_young hReach hStale hFree hYoung with
        ⟨s', hCommits, hJob⟩
      refine ⟨s', j.requeue, hCommits, hJob, ?_⟩
      unfold Job.requeue
      split
      · exact .inr rfl
      · exact .inl rfl
  · constructor
    · rintro ⟨s', _, hCommits, _⟩
      exact young_of_forceFail hReach hCommits
    · intro hYoung
      rcases forceFail_of_young hReach hStale hFree hYoung with
        ⟨s', hCommits, hJob⟩
      exact ⟨s', j.forceFail, hCommits, hJob, rfl⟩

end

namespace Sample

/- A job is claimed, and its worker is never heard of again. -/
def abandoned (away : Nat) : List Step :=
  (Call.insertJob (job 7)).whole ++
    (Call.tryClaim (claim 7 1)).whole ++ [.tick away]

/- It has been running since time zero; nobody is at work. -/
def isAbandoned (away : Time) (s : Sys) : Bool :=
  decide
      (s.db.job? 7 =
        some ((job 7).inserted.claim (claim 7 1))) &&
    s.sessions.isEmpty && decide (s.clock = away) &&
    decide
      (openRuns s.db 7 =
        [RunRow.opened (claim 7 1)
          ((job 7).inserted.claim (claim 7 1))])

theorem stale_of_isAbandoned
    {away : Time}
    {s : Sys}
    (hLate : 30 * second < away)
    (hAbandoned : isAbandoned away s = true) :
    StaleClaim s ((job 7).inserted.claim (claim 7 1)) ∧
      Free s 7 ∧ s.clock = away ∧
      openRuns s.db 7 =
        [RunRow.opened (claim 7 1)
          ((job 7).inserted.claim (claim 7 1))] := by
  simp only [isAbandoned, Bool.and_eq_true,
    decide_eq_true_eq, List.isEmpty_iff] at hAbandoned
  rcases hAbandoned with
    ⟨⟨⟨hJob, hSessions⟩, hClock⟩, hRuns⟩
  refine ⟨⟨hJob, rfl, ?_⟩, ⟨?_, ?_⟩, hClock, hRuns⟩
  · rw [hClock]
    exact decide_eq_true hLate
  · rw [hSessions]
    rfl
  · intro r _
    rw [hSessions]
    rfl

end Sample

/- Half a minute later the job is requeued. -/
theorem stale_claim_reaped_in_time :
    ∃ s s' j', sluice.Reachable s ∧
      Commits s (.requeueStaleJob 7 s.clock) s' ∧
        s'.db.job? 7 = some j' ∧
        (j'.state = .pending ∨ j'.state = .dead) := by
  rcases
    Machine.exists_reachable_of_run Sample.init_start
      (Sample.abandoned 31000000)
      (fun s => Sample.isAbandoned 31000000 s = true)
      (by decide +kernel)
  with ⟨s, hReach, hCheck⟩
  rcases Sample.stale_of_isAbandoned (by decide) hCheck with
    ⟨hStale, hFree, hClock, hRuns⟩
  have hYoung : Young s 7 := by
    intro r hr
    rw [hRuns] at hr
    rw [List.mem_singleton.mp hr, hClock]
    decide
  rcases (stale_claim_reaped_iff hReach hStale hFree).1.mpr
      hYoung with ⟨s', j', hReaped⟩
  exact ⟨s, s', j', hReach, hReaped⟩

/-
  After 25 days without a scheduler the job cannot be reaped
  or force-failed any more, then and at any later time.
-/
theorem stale_claim_never_reaped :
    ∃ s j, sluice.Reachable s ∧ StaleClaim s j ∧
      Free s j.id ∧
      ∀ n : Nat,
        ¬(∃ s',
          Commits { s with clock := s.clock + n }
            (.requeueStaleJob j.id (s.clock + n)) s') ∧
        ¬∃ s',
          Commits { s with clock := s.clock + n }
            (.forceFail j.id) s' := by
  rcases
    Machine.exists_reachable_of_run Sample.init_start
      (Sample.abandoned 2160000000000)
      (fun s => Sample.isAbandoned 2160000000000 s = true)
      (by decide +kernel)
  with ⟨s, hReach, hCheck⟩
  rcases Sample.stale_of_isAbandoned (by decide) hCheck with
    ⟨hStale, hFree, hClock, hRuns⟩
  have hOld :
      ∀ n : Nat,
        ¬Young { s with clock := s.clock + n } 7 := by
    intro n hYoung
    have hLess := hYoung _ (by
      change _ ∈ openRuns s.db 7
      rw [hRuns]
      exact List.mem_cons_self)
    change s.clock + n - 0 < 2147483647500 at hLess
    rw [hClock] at hLess
    omega
  refine ⟨s, _, hReach, hStale, hFree, ?_⟩
  intro n
  have hLater :
      sluice.Reachable { s with clock := s.clock + n } :=
    .next (.tick n) hReach trivial rfl
  constructor
  · rintro ⟨s', hCommits⟩
    exact hOld n (young_of_requeue hLater hCommits)
  · rintro ⟨s', hCommits⟩
    exact hOld n (young_of_forceFail hLater hCommits)

end Storage

end Sluice
