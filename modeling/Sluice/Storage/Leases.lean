import Sluice.Foundations.Lease
import Sluice.Storage.RowInvariant

/-
  Jobs as tickets that are worked on under leases.

  The transactions of all processes interleave, wait for each
  other's locks and are rolled back; several take more than
  one statement. Seen from one job, the commits are the acts
  of a ticket: each one that touches the job is one act, is
  possible at that time, and leaves the row as the act leaves
  the ticket.

  Key definitions include:
    * `Job.leasePhase?`
    * `Call.leaseAct` and `leaseActs`
    * `Agrees` and `Follows`

  Key theorems include:
    * `Agrees.changes`
    * `Follows.commit`
    * `job_histories_are_lease_runs`
-/

------------------------------------------------------------
-- The Ticket Of A Job
------------------------------------------------------------

namespace Sluice

open Foundations Lease

namespace Job

/- The lease that the columns of a claim stand for. -/
def heldPhase? (j : Job) : Option (Phase Uuid) :=
  j.claimToken.bind
    (fun token => j.deadline.map (Phase.held token))

def leasePhase? (j : Job) : Option (Phase Uuid) :=
  match j.state with
  | .scheduled => some (.waiting j.runAt)
  | .failed => some (.waiting j.runAt)
  | .pending => some .ready
  | .claimed => j.heldPhase?
  | .running => j.heldPhase?
  | .succeeded => some (.ended .succeeded)
  | .dead => some (.ended .exhausted)
  | .cancelled => some (.ended .withdrawn)

theorem leasePhase?_of_inFlight
    {j : Job}
    (hInFlight : j.inFlight = true) :
    j.leasePhase? = j.heldPhase? := by
  unfold inFlight at hInFlight
  simp only [Bool.or_eq_true, decide_eq_true_eq] at hInFlight
  unfold leasePhase?
  rcases hInFlight with hState | hState
  · rw [hState]
  · rw [hState]

end Job

namespace Storage

open ReadCommitted

/- What a call does to a job to which it gives this row. -/
def Call.leaseAct
    (call : Call)
    (start : Time)
    (new : Job) :
    Option (Act Uuid) :=
  match call with
  | .insertJob _ =>
      some
        (.submit
          (if new.state = .scheduled then some new.runAt
            else none)
          new.maxRetries)
  | .tryClaim a => some (.grant a.token a.deadline)
  | .tryClaimLimited a _ _ =>
      some (.grant a.token a.deadline)
  | .extendDeadline _ token deadline =>
      some (.renew token deadline)
  | .completeJob _ _ token _ => some (.succeed token)
  | .failJob _ _ token _ _ _ => some (.fail token new.runAt)
  | .promoteDueScheduled _ => some (.release start)
  | .promoteReadyFailed _ => some (.release start)
  | .requeueStaleJob _ _ => some (.expire start)
  | .moveToDeadLetter _ => none
  | .cancelJob _ _ => some .withdraw
  | .replayJob _ _ => some .revive
  | .forceFail _ => some .kill

/- A commit that leaves the row as it was is no act. -/
def leaseAct? (id : Uuid) (c : Entry) : Option (Act Uuid) :=
  if c.after.job? id = c.before.job? id then none
  else (c.after.job? id).bind (c.call.leaseAct c.start)

/- The acts of a history on one job, the last one first. -/
def leaseActs
    (id : Uuid)
    (history : List Entry) :
    List (Act Uuid) :=
  history.filterMap (leaseAct? id)

------------------------------------------------------------
-- One Act
------------------------------------------------------------

structure Agrees (j : Job) (t : Ticket Uuid) : Prop where
  phase : j.leasePhase? = some t.phase
  tries : t.tries = j.attempt
  limit : t.limit = j.maxRetries

variable {j old new : Job}
variable {t : Ticket Uuid}
variable {token : Uuid}
variable {start : Time}

/- The lease of a row in flight. -/
theorem Agrees.held
    (hAgrees : Agrees j t)
    (hInFlight : j.inFlight = true) :
    ∃ token deadline,
      j.claimToken = some token ∧
        j.deadline = some deadline ∧
          t.phase = .held token deadline := by
  have hPhase := hAgrees.phase
  rw [Job.leasePhase?_of_inFlight hInFlight] at hPhase
  rcases Option.bind_eq_some_iff.mp hPhase with
    ⟨token, hToken, hHeld⟩
  rcases Option.map_eq_some_iff.mp hHeld with
    ⟨deadline, hDeadline, hSame⟩
  exact ⟨token, deadline, hToken, hDeadline, hSame.symm⟩

theorem Agrees.heldBy
    (hAgrees : Agrees j t)
    (hInFlight : j.inFlight = true)
    (hToken : j.claimToken = some token) :
    t.phase.heldBy token = true := by
  rcases hAgrees.held hInFlight with
    ⟨holder, deadline, hHolder, _, hPhase⟩
  cases hToken.symm.trans hHolder
  rw [hPhase]
  exact decide_eq_true rfl

variable {p : Phase Uuid}
variable {call : Call}
variable {act : Act Uuid}

/- The phase of a row in any other state. -/
theorem Agrees.phase_eq
    (hAgrees : Agrees j t)
    (hPhase : j.leasePhase? = some p) :
    t.phase = p :=
  Option.some.inj (hAgrees.phase.symm.trans hPhase)

/- Nobody holds a job that can be cancelled. -/
theorem Agrees.idle
    (hAgrees : Agrees j t)
    (hCancellable : j.cancellable = true) :
    t.phase = .ready ∨ ∃ due, t.phase = .waiting due := by
  have hPhase := hAgrees.phase
  unfold Job.leasePhase? at hPhase
  unfold Job.cancellable at hCancellable
  simp only [Bool.or_eq_true, decide_eq_true_eq]
    at hCancellable
  rcases hCancellable with (hState | hState) | hState
  · rw [hState] at hPhase
    exact .inl (Option.some.inj hPhase).symm
  · rw [hState] at hPhase
    exact .inr ⟨_, (Option.some.inj hPhase).symm⟩
  · rw [hState] at hPhase
    exact .inr ⟨_, (Option.some.inj hPhase).symm⟩

/-
  The act is possible, and has the same effect on the ticket
  as the call has on the row.
-/
def Simulates
    (call : Call)
    (act : Act Uuid)
    (new : Job)
    (t : Ticket Uuid) :
    Prop :=
  ∃ t', t.step act = some t' ∧ Agrees new t' ∧
    ∀ token ∈ t'.used,
      token ∈ t.used ∨ call.newToken? = some token

theorem Agrees.claim
    {a : ClaimArgs}
    (hAgrees : Agrees old t)
    (hClaim : call.claimArgs? = some a)
    (hState : old.state = .pending)
    (hFresh : a.token ∉ t.used) :
    Simulates call (.grant a.token a.deadline) (old.claim a)
      t := by
  have hReady : t.phase = .ready := by
    apply hAgrees.phase_eq
    unfold Job.leasePhase?
    rw [hState]
  have hToken : call.newToken? = some a.token := by
    unfold Call.newToken?
    rw [hClaim]
    rfl
  refine
    ⟨{ t with
        phase := .held a.token a.deadline
        used := a.token :: t.used },
      ?_, ⟨rfl, hAgrees.tries, hAgrees.limit⟩, ?_⟩
  · simp only [Ticket.step, hReady]
    exact if_neg hFresh
  · intro token hMem
    rcases List.mem_cons.mp hMem with rfl | hOld
    · exact .inr hToken
    · exact .inl hOld

/- An act that gives no lease. -/
theorem Simulates.of_moveTo
    (hStep : t.step act = some (t.moveTo p))
    (hPhase : new.leasePhase? = some p)
    (hTries : t.tries = new.attempt)
    (hLimit : t.limit = new.maxRetries) :
    Simulates call act new t :=
  ⟨_, hStep, ⟨hPhase, hTries, hLimit⟩, fun _ h => .inl h⟩

/- An act that costs a try. -/
theorem Simulates.of_lose
    (hAgrees : Agrees old t)
    (hStep : t.step act = some (t.lose p))
    (hTries : new.attempt = old.attempt + 1)
    (hLimit : new.maxRetries = old.maxRetries)
    (hLast :
      old.attempt + 1 > old.maxRetries → new.state = .dead)
    (hNext :
      ¬old.attempt + 1 > old.maxRetries →
        new.leasePhase? = some p) :
    Simulates call act new t := by
  refine ⟨_, hStep, ⟨?_, ?_, ?_⟩, fun _ h => .inl h⟩
  · unfold Ticket.lose
    simp only [hAgrees.tries, hAgrees.limit]
    split
    · rename_i hOver
      unfold Job.leasePhase?
      rw [hLast hOver]
    · rename_i hLeft
      exact hNext hLeft
  · unfold Ticket.lose
    rw [hTries, hAgrees.tries]
  · unfold Ticket.lose
    rw [hLimit, hAgrees.limit]

section

variable {call : Call}

/- A heartbeat renews the lease. -/
theorem Agrees.extend
    (hAgrees : Agrees old t)
    (hToken : old.claimToken = some token)
    (hInFlight : old.inFlight = true)
    (deadline : Time) :
    Simulates call (.renew token deadline)
      (old.extend deadline) t := by
  have hHeld := hAgrees.heldBy hInFlight hToken
  have hNew : (old.extend deadline).inFlight = true :=
    hInFlight
  refine .of_moveTo (if_pos hHeld) ?_ hAgrees.tries
    hAgrees.limit
  rw [Job.leasePhase?_of_inFlight hNew]
  unfold Job.heldPhase? Job.extend
  rw [hToken]
  rfl

/- The holder reports a failure. -/
theorem Agrees.fail
    (hAgrees : Agrees old t)
    (hToken : old.claimToken = some token)
    (hInFlight : old.inFlight = true)
    (errMsg : String)
    (nextRunAt : Option Time) :
    Simulates call
      (.fail token (old.fail errMsg nextRunAt).runAt)
      (old.fail errMsg nextRunAt) t := by
  have hHeld := hAgrees.heldBy hInFlight hToken
  refine .of_lose hAgrees (if_pos hHeld) rfl rfl ?_ ?_
  · intro hOver
    exact if_pos hOver
  · intro hLeft
    have hState :
        (old.fail errMsg nextRunAt).state = .failed :=
      if_neg hLeft
    unfold Job.leasePhase?
    rw [hState]

/- A promotion releases a job that is due. -/
theorem Agrees.release
    (hAgrees : Agrees old t)
    (hState : old.state = .scheduled ∨ old.state = .failed)
    (hDue : old.runAt ≤ start)
    (hNew : new.leasePhase? = some .ready)
    (hTries : new.attempt = old.attempt)
    (hLimit : new.maxRetries = old.maxRetries) :
    Simulates call (.release start) new t := by
  have hPhase : t.phase = .waiting old.runAt := by
    apply hAgrees.phase_eq
    unfold Job.leasePhase?
    rcases hState with hState | hState
    · rw [hState]
    · rw [hState]
  refine .of_moveTo ?_ hNew (hAgrees.tries.trans hTries.symm)
    (hAgrees.limit.trans hLimit.symm)
  simp only [Ticket.step, hPhase]
  exact if_pos hDue

/- The reaper takes back a lease after its deadline. -/
theorem Agrees.requeue
    (hAgrees : Agrees old t)
    (hStale : old.stale start = true) :
    Simulates call (.expire start) old.requeue t := by
  unfold Job.stale at hStale
  rcases Bool.and_eq_true_iff.mp hStale with
    ⟨hInFlight, hLate⟩
  rcases hAgrees.held hInFlight with
    ⟨_, deadline, _, hDeadline, hPhase⟩
  rw [hDeadline, Option.any_some, decide_eq_true_iff]
    at hLate
  refine .of_lose (p := .ready) hAgrees ?_ rfl rfl ?_ ?_
  · simp only [Ticket.step, hPhase]
    exact if_pos hLate
  · intro hOver
    exact if_pos hOver
  · intro hLeft
    have hState : old.requeue.state = .pending :=
      if_neg hLeft
    unfold Job.leasePhase?
    rw [hState]

theorem Agrees.cancel
    (hAgrees : Agrees old t)
    (hCancellable : old.cancellable = true)
    (now : Time) :
    Simulates call .withdraw (old.cancel now) t := by
  refine .of_moveTo ?_ rfl hAgrees.tries hAgrees.limit
  rcases hAgrees.idle hCancellable with hPhase |
    ⟨due, hPhase⟩
  · simp only [Ticket.step, hPhase]
  · simp only [Ticket.step, hPhase]

theorem Agrees.forceFail
    (hAgrees : Agrees old t)
    (hFailable : old.forceFailable = true) :
    Simulates call .kill old.forceFail t := by
  refine .of_moveTo ?_ rfl hAgrees.tries hAgrees.limit
  unfold Job.forceFailable at hFailable
  rcases Bool.or_eq_true_iff.mp hFailable with
    hInFlight | hCancellable
  · rcases hAgrees.held hInFlight with
      ⟨token, deadline, _, _, hPhase⟩
    simp only [Ticket.step, hPhase]
  · rcases hAgrees.idle hCancellable with hPhase |
      ⟨due, hPhase⟩
    · simp only [Ticket.step, hPhase]
    · simp only [Ticket.step, hPhase]

/- A replay starts a dead job again. -/
theorem Agrees.replay
    (hAgrees : Agrees old t)
    (hState : old.state = .dead)
    (now : Time) :
    Simulates call .revive (old.replay now) t := by
  have hPhase : t.phase = .ended .exhausted := by
    apply hAgrees.phase_eq
    unfold Job.leasePhase?
    rw [hState]
  refine ⟨{ t with phase := .ready, tries := 0 }, ?_,
    ⟨rfl, rfl, hAgrees.limit⟩, fun _ h => .inl h⟩
  simp only [Ticket.step, hPhase]

/- Whatever a call changes is an act of the ticket. -/
theorem Agrees.changes
    (hAgrees : Agrees old t)
    (hChange : call.changes start old new)
    (hFresh :
      ∀ token, call.newToken? = some token →
        token ∉ t.used) :
    ∃ act, call.leaseAct start new = some act ∧
      Simulates call act new t := by
  cases call with
  | insertJob | moveToDeadLetter => cases hChange
  | tryClaim a =>
      rcases hChange with ⟨_, hState, rfl⟩
      exact ⟨_, rfl, hAgrees.claim rfl hState (hFresh _ rfl)⟩
  | tryClaimLimited a tenantId limit =>
      rcases hChange with ⟨_, hState, rfl⟩
      exact ⟨_, rfl, hAgrees.claim rfl hState (hFresh _ rfl)⟩
  | extendDeadline jobId token deadline =>
      rcases hChange with ⟨_, hToken, hInFlight, rfl⟩
      exact ⟨_, rfl,
        hAgrees.extend hToken hInFlight deadline⟩
  | completeJob jobId runId token now =>
      rcases hChange with ⟨_, hToken, hInFlight, rfl⟩
      have hHeld := hAgrees.heldBy hInFlight hToken
      exact ⟨_, rfl,
        .of_moveTo (if_pos hHeld) rfl hAgrees.tries
          hAgrees.limit⟩
  | failJob jobId runId token errMsg nextRunAt now =>
      rcases hChange with ⟨_, hToken, hInFlight, rfl⟩
      exact ⟨_, rfl,
        hAgrees.fail hToken hInFlight errMsg nextRunAt⟩
  | promoteDueScheduled limit =>
      rcases hChange with ⟨hState, hDue, rfl⟩
      exact ⟨_, rfl,
        hAgrees.release (.inl hState) hDue rfl rfl rfl⟩
  | promoteReadyFailed limit =>
      rcases hChange with ⟨hState, hDue, rfl⟩
      exact ⟨_, rfl,
        hAgrees.release (.inr hState) hDue rfl rfl rfl⟩
  | requeueStaleJob jobId now =>
      rcases hChange with ⟨_, hStale, rfl⟩
      exact ⟨_, rfl, hAgrees.requeue hStale⟩
  | cancelJob jobId tenantId =>
      rcases hChange with ⟨_, _, hCancellable, rfl⟩
      exact ⟨_, rfl, hAgrees.cancel hCancellable _⟩
  | replayJob jobId tenantId =>
      rcases hChange with ⟨_, _, hState, rfl⟩
      exact ⟨_, rfl, hAgrees.replay hState _⟩
  | forceFail jobId =>
      rcases hChange with ⟨_, hFailable, rfl⟩
      exact ⟨_, rfl, hAgrees.forceFail hFailable⟩

end

------------------------------------------------------------
-- Whole Histories
------------------------------------------------------------

/- The acts so far lead to the ticket of the row. -/
structure Follows
    (db : Db)
    (history : List Entry)
    (id : Uuid) : Prop where
  absent :
    db.job? id = none →
      replay (leaseActs id history) = some none
  present :
    ∀ j, db.job? id = some j →
      ∃ t, replay (leaseActs id history) = some (some t) ∧
        Agrees j t ∧
          ∀ token ∈ t.used, ∃ c ∈ history,
            c.call.newToken? = some token

variable {s : Sys}
variable {e : Sess}
variable {id : Uuid}
variable {c : Entry}
variable {history : List Entry}

/- A commit that leaves the row alone adds no act. -/
theorem Follows.kept
    (hFollows : Follows c.before history id)
    (hKept : c.after.job? id = c.before.job? id) :
    Follows c.after (c :: history) id := by
  have hActs :
      leaseActs id (c :: history) = leaseActs id history :=
    List.filterMap_cons_none (if_pos hKept)
  constructor
  · intro hNone
    rw [hActs]
    exact hFollows.absent (hKept.symm.trans hNone)
  · intro j hJob
    rw [hActs]
    rcases hFollows.present j (hKept.symm.trans hJob) with
      ⟨t, hReplay, hAgrees, hUsed⟩
    refine ⟨t, hReplay, hAgrees, ?_⟩
    intro token hToken
    rcases hUsed token hToken with ⟨c', hc', hNew⟩
    exact ⟨c', List.mem_cons_of_mem _ hc', hNew⟩

/- A commit that changes the row adds its act. -/
theorem Follows.acted
    {before : Option (Ticket Uuid)}
    (hChanged : c.after.job? id ≠ c.before.job? id)
    (hNew : c.after.job? id = some new)
    (hAct : c.call.leaseAct c.start new = some act)
    (hReplay : replay (leaseActs id history) = some before)
    (hStep : step act before = some (some t))
    (hAgrees : Agrees new t)
    (hUsed :
      ∀ token ∈ t.used, c.call.newToken? = some token ∨
        ∃ c' ∈ history, c'.call.newToken? = some token) :
    Follows c.after (c :: history) id := by
  have hActs :
      leaseActs id (c :: history) =
        act :: leaseActs id history := by
    refine List.filterMap_cons_some ?_
    unfold leaseAct?
    rw [if_neg hChanged, hNew]
    exact hAct
  constructor
  · intro hNone
    cases hNew.symm.trans hNone
  · intro j hJob
    cases hJob.symm.trans hNew
    rw [hActs, replay_cons hReplay]
    refine ⟨t, hStep, hAgrees, ?_⟩
    intro token hToken
    rcases hUsed token hToken with hOwn | ⟨c', hc', hOld⟩
    · exact ⟨c, List.mem_cons_self, hOwn⟩
    · exact ⟨c', List.mem_cons_of_mem _ hc', hOld⟩

/- The token of a claim in progress has not been used. -/
theorem newToken_unused
    (hReach : sluice.Reachable s)
    (he : e ∈ s.sessions)
    (hToken : e.call.newToken? = some token) :
    ¬∃ c ∈ s.history, c.call.newToken? = some token := by
  rintro ⟨c, hc, hSame⟩
  have hNodup := Engine.nonces_nodup
    Call.newToken? Call.newToken_fresh hReach
  have hDisjoint := (List.nodup_append.mp hNodup).2.2
  exact hDisjoint token
    (List.mem_filterMap.mpr ⟨e, he, hToken⟩) token
    (List.mem_filterMap.mpr ⟨c, hc, hSame⟩) rfl

/- An inserted job is a new ticket. -/
theorem agrees_submitted
    {clock : Time}
    (hInsertable : j.insertable clock = true) :
    Agrees j.inserted
      ⟨.ofDue
          (if j.inserted.state = .scheduled then
            some j.inserted.runAt
          else none),
        0, j.inserted.maxRetries, []⟩ := by
  unfold Job.insertable at hInsertable
  simp only [Bool.and_eq_true, Bool.or_eq_true,
    decide_eq_true_eq] at hInsertable
  rcases hInsertable with
    ⟨⟨⟨⟨hAttempt, _⟩, _⟩, _⟩, hState⟩
  refine ⟨?_, hAttempt.symm, rfl⟩
  unfold Job.leasePhase?
  rcases hState with hPending | hScheduled
  · have hNew : j.inserted.state = .pending := hPending.1
    rw [hNew]
    rfl
  · have hNew : j.inserted.state = .scheduled := hScheduled
    rw [hNew]
    rfl

/- One commit is one act, or none. -/
theorem Follows.commit
    (hReach : sluice.Reachable s)
    (he : e ∈ s.sessions)
    (hFollows : Follows s.db s.history id) :
    Follows (postgres.performAll s.db e.writes)
      (postgres.entry s.db e :: s.history) id := by
  have hMoves :=
    moves_committed (sessions_sound hReach e he) id
  cases hMoves with
  | kept hSame =>
      exact Follows.kept (c := postgres.entry s.db e) hFollows
        hSame
  | inserted j hCall hNone hNew =>
      have hInsertable := session_insertable hReach he j hCall
      have hCall : e.call = .insertJob j := hCall
      have hAct :
          e.call.leaseAct e.start j.inserted =
            (Call.insertJob j).leaseAct e.start j.inserted := by
        rw [hCall]
      refine Follows.acted (c := postgres.entry s.db e) ?_
        hNew hAct (hFollows.absent hNone) rfl
        (agrees_submitted hInsertable) ?_
      · rw [hNew, hNone]
        exact Option.some_ne_none _
      · intro token hToken
        cases hToken
  | changed old new hOld hNew hChange =>
      rcases hFollows.present old hOld with
        ⟨t, hReplay, hAgrees, hUsed⟩
      have hFresh :
          ∀ token, e.call.newToken? = some token →
            token ∉ t.used := by
        intro token hToken hMem
        exact newToken_unused hReach he hToken
          (hUsed token hMem)
      rcases hAgrees.changes hChange hFresh with
        ⟨act, hAct, t', hStep, hAfter, hTokens⟩
      by_cases hSame : new = old
      · refine Follows.kept (c := postgres.entry s.db e)
          hFollows ?_
        rw [hNew, hOld, hSame]
      · refine Follows.acted (c := postgres.entry s.db e) ?_
          hNew hAct hReplay (t := t') ?_ hAfter ?_
        · rw [hNew, hOld]
          exact fun h => hSame (Option.some.inj h)
        · change (t.step act).map some = _
          rw [hStep]
          rfl
        · intro token hToken
          rcases hTokens token hToken with hBefore | hOwn
          · exact .inr (hUsed token hBefore)
          · exact .inl hOwn

theorem follows
    (hReach : sluice.Reachable s)
    (id : Uuid) :
    Follows s.db s.history id := by
  refine hReach.invariant
    (I := fun s => Follows s.db s.history id) ?_ ?_
  · rintro s ⟨db, clock, hDb, rfl⟩
    constructor
    · intro _
      rfl
    · intro j hJob
      cases hJob.symm.trans (hDb.job? id)
  · intro s label s' hPrev hFollows _ hStep
    cases Engine.effect_of_step (E := postgres) hStep with
    | commit hSplit _ =>
        exact hFollows.commit hPrev (self_mem_of_split hSplit)
    | begin | statement | abort | rollback | tick =>
        exact hFollows

/-
  Whatever the interleaving, the commits that touch a job
  are, in their order, a run of the ticket, and end where the
  row stands. So every lease has at most one report, by its
  own token.
-/
theorem job_histories_are_lease_runs
    (hReach : sluice.Reachable s)
    (id : Uuid) :
    (∀ j, s.db.job? id = some j →
      ∃ t, replay (leaseActs id s.history) = some (some t) ∧
        j.leasePhase? = some t.phase ∧
          t.tries = j.attempt ∧ t.limit = j.maxRetries) ∧
      (s.db.job? id = none → leaseActs id s.history = []) ∧
        ∀ token,
          (leaseActs id s.history).countP
                (Act.settles token) ≤
              (leaseActs id s.history).countP
                (Act.grants token) ∧
            (leaseActs id s.history).countP
                (Act.grants token) ≤
              1 := by
  have hFollows := follows hReach id
  refine ⟨?_, ?_, ?_⟩
  · intro j hJob
    rcases hFollows.present j hJob with
      ⟨t, hReplay, hAgrees, _⟩
    exact ⟨t, hReplay, hAgrees.phase, hAgrees.tries,
      hAgrees.limit⟩
  · intro hNone
    rcases counted 0 (hFollows.absent hNone) with
      ⟨_, hActs⟩ | ⟨t, hSome, _⟩
    · exact hActs
    · cases hSome
  · intro token
    cases hJob : s.db.job? id with
    | none => exact settles_le_one token (hFollows.absent hJob)
    | some j =>
        rcases hFollows.present j hJob with ⟨t, hReplay, _⟩
        exact settles_le_one token hReplay

namespace Sample

/-
  A job is claimed, and its worker is never heard of again.
  It is requeued after the deadline, claimed once more and
  completed.
-/
def secondTry : List Step :=
  (Call.insertJob (job 7)).whole ++
    (Call.tryClaim (claim 7 1)).whole ++
    [.tick 31000000] ++
    (Call.requeueStaleJob 7 (31 * second)).whole ++
    (Call.tryClaim
      { claim 7 2 with deadline := 61 * second }).whole ++
    (Call.completeJob 7 2 2 (31 * second)).whole

end Sample

/- Two leases; the second one is reported on. -/
theorem lease_run_of_second_try :
    ∃ s, sluice.Reachable s ∧
      leaseActs 7 s.history =
          [.succeed 2, .grant 2 (61 * second),
            .expire (31 * second), .grant 1 (30 * second),
            .submit none 1] ∧
      (∀ j, s.db.job? 7 = some j →
        ∃ t, replay (leaseActs 7 s.history) = some (some t) ∧
          j.leasePhase? = some t.phase ∧
            t.tries = j.attempt ∧ t.limit = j.maxRetries) ∧
        (s.db.job? 7 = none → leaseActs 7 s.history = []) ∧
          ∀ token,
            (leaseActs 7 s.history).countP
                  (Act.settles token) ≤
                (leaseActs 7 s.history).countP
                  (Act.grants token) ∧
              (leaseActs 7 s.history).countP
                  (Act.grants token) ≤
                1 := by
  rcases
    Machine.exists_reachable_of_run Sample.init_start
      Sample.secondTry
      (fun s =>
        leaseActs 7 s.history =
          [.succeed 2, .grant 2 (61 * second),
            .expire (31 * second),
            .grant 1 (30 * second),
            .submit none 1])
      (by decide +kernel)
  with ⟨s, hReach, hActs⟩
  exact ⟨s, hReach, hActs,
    job_histories_are_lease_runs hReach 7⟩

end Storage

end Sluice
