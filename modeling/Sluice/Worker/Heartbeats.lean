import Sluice.Foundations.Renewal
import Sluice.Storage.Fencing
import Sluice.Storage.Reaping

/-
  The heartbeat of a job, against the reaper.

  A worker that executes a job extends its deadline at every
  beat of a ticker, and stops when the execution is over; it
  then records the outcome. Reapers compare the deadline with
  the clock of the database. The worker's clock may be ahead
  of that clock or behind it, and its calls take time.

  All other processes interleave freely. `ExtendDeadline` and
  the calls that record an outcome are single statements, and
  take effect at once.

  Key definitions include:
    * `Timing`
    * `Phase` and `Attended`
    * `Attended.step` and `attended`
    * `Attends`

  Key theorems include:
    * `row_kept_by_others`
    * `attends`
    * `live_claim_is_never_reaped`
-/

------------------------------------------------------------
-- The Worker's Side Of A Claim
------------------------------------------------------------

namespace Sluice

namespace Worker

namespace Heartbeats

open Foundations ReadCommitted Storage Renewal

def heartbeatInterval : Time := 5 * second

/- `queue.HeartbeatTTL`. -/
def heartbeatTTL : Time := 15 * second

/-
  How far the worker's clock is ahead of the database's; the
  most time from reading the clock for the claim to the start
  of the ticker, and from a beat to its effect; the time that
  recording the outcome takes; and the number of beats in a
  row whose call may fail.
-/
structure Timing where
  skew : Time
  lag : Time
  delay : Time
  grace : Time
  misses : Nat

/- A beat sent at a time of the database's clock. -/
def Timing.deadline (T : Timing) (sent : Time) : Time :=
  sent + T.skew + heartbeatTTL

def Timing.terms (T : Timing) : Terms where
  interval := heartbeatInterval
  lifetime := T.skew + heartbeatTTL
  lag := T.lag
  delay := T.delay
  grace := T.grace
  misses := T.misses

/-
  Where the worker is:
    * its claim has not committed;
    * the claim has, and the ticker is not yet running;
    * the job executes and the heartbeat goes on;
    * the heartbeat has stopped and the outcome is recorded;
    * the outcome has been recorded.
-/
inductive Phase
| waiting
| starting (sent : Time)
| beating (h : Holder)
| recording (h : Holder) (since : Time)
| ended

/- The time by which the worker will have moved on. -/
def Phase.until? (T : Timing) : Phase → Option Time
| .starting sent => some (sent + T.lag)
| .beating h => some (h.due + T.delay)
| .recording _ since => some (since + T.grace)
| _ => none

/- The deadline that the worker's claim has. -/
def Phase.expires? (T : Timing) : Phase → Option Time
| .starting sent => some (T.deadline sent)
| .beating h => some h.expires
| .recording h _ => some h.expires
| _ => none

structure Attended where
  sys : Sys
  phase : Phase

inductive Label
| storage (label : Storage.Step)
| tick (n : Nat)
| claim (i : Nat) (sent : Time)
| start
| beat (sent : Time)
| miss
| stop
| record (call : Call)

section

variable (T : Timing)
variable (jobId token : Uuid)

/- Steps that are no step of time and of no call of ours. -/
def foreign : Storage.Step → Bool
| .tick _ => false
| .begin call => call.record? ≠ some (jobId, token)
| _ => true

/- A call that nothing interleaves with, up to its commit. -/
def committed? (call : Call) (s : Sys) : Option Sys :=
  (sluice.run call.whole s).filter
    (fun s' => s'.sessions.length = s.sessions.length)

/- The claim commits, and returns the job. -/
def commitClaim
    (i : Nat)
    (sent : Time)
    (s : Attended) :
    Option Attended :=
  match s.sys.sessions[i]? with
  | none => none
  | some e =>
      if
        e.writes.isEmpty = false ∧
          e.call.claimArgs?.any
              (fun a =>
                a.jobId = jobId && a.token = token &&
                  a.deadline = T.deadline sent) = true ∧
          s.sys.clock ≤ sent + T.lag
      then
        (sluice.step (.commit i) s.sys).map
          (fun sys => ⟨sys, .starting sent⟩)
      else none

def Attended.step (label : Label) (s : Attended) :
    Option Attended :=
  match label, s.phase with
  | .storage label, _ =>
      if foreign jobId token label then
        (sluice.step label s.sys).map
          (fun sys => { s with sys := sys })
      else none
  | .tick n, phase =>
      if
        (phase.until? T).all
          (fun t => s.sys.clock + n ≤ t) = true
      then
        (sluice.step (.tick n) s.sys).map
          (fun sys => { s with sys := sys })
      else none
  | .claim i sent, .waiting =>
      commitClaim T jobId token i sent s
  | .start, .starting sent =>
      some
        ⟨s.sys, .beating (.started T.terms sent s.sys.clock)⟩
  | .beat sent, .beating h =>
      if h.due ≤ sent ∧ sent ≤ s.sys.clock then
        (committed?
          (.extendDeadline jobId token (T.deadline sent))
          s.sys).map
          (fun sys =>
            ⟨sys, .beating (h.renew T.terms sent)⟩)
      else none
  | .miss, .beating h =>
      if h.due ≤ s.sys.clock ∧ h.missed < T.misses then
        some ⟨s.sys, .beating (h.miss T.terms)⟩
      else none
  | .stop, .beating h =>
      some ⟨s.sys, .recording h s.sys.clock⟩
  | .record call, .recording _ _ =>
      if call.record? = some (jobId, token) then
        (committed? call s.sys).map
          (fun sys => ⟨sys, .ended⟩)
      else none
  | _, _ => none

/- Before the claim. -/
def attended : Machine Attended Label where
  init := fun s => sluice.init s.sys ∧ s.phase = .waiting
  step := Attended.step T jobId token

/- No operator fails the job by force. -/
def unforced (_ : Attended) : Label → Bool
| .storage (.begin call) => call ≠ .forceFail jobId
| _ => true

end

------------------------------------------------------------
-- The Row Of A Claim
------------------------------------------------------------

/- The row of a claim with this token and this deadline. -/
structure HeldUntil
    (token : Uuid)
    (expires : Time)
    (j : Job) : Prop where
  running : j.state = .running
  token : j.claimToken = some token
  deadline : j.deadline = some expires

variable {token jobId : Uuid}
variable {j : Job}
variable {expires : Time}
variable {s s' : Sys}
variable {call : Call}

theorem HeldUntil.not_stale
    {expires now : Time}
    (hHeld : HeldUntil token expires j)
    (hNow : now ≤ expires) :
    j.stale now = false := by
  unfold Job.stale
  rw [hHeld.deadline]
  simp [hNow]

theorem HeldUntil.extend
    (hHeld : HeldUntil token expires j)
    (deadline : Time) :
    HeldUntil token deadline (j.extend deadline) where
  running := hHeld.running
  token := hHeld.token
  deadline := rfl

/-
  Before the deadline only the worker's own calls and a
  force-fail touch the row.
-/
theorem row_kept_by_others
    {c : Entry}
    (hMoves : Moves c jobId)
    (hBefore : c.before.job? jobId = some j)
    (hHeld : HeldUntil token expires j)
    (hStart : c.start ≤ expires)
    (hRecord : c.call.record? ≠ some (jobId, token))
    (hForce : c.call ≠ .forceFail jobId) :
    c.after.job? jobId = some j := by
  have hRunning := hHeld.running
  cases hMoves with
  | kept hSame => exact hSame.trans hBefore
  | inserted new _ hNone _ =>
      rw [hBefore] at hNone
      cases hNone
  | changed old new hOld hNew hChange =>
      cases hBefore.symm.trans hOld
      have hId : j.id = jobId := Db.id_of_job? hBefore
      -- A call that names the row's token is our own.
      have hOwn :
          ∀ {call : Call} {id token' : Uuid},
            c.call = call → j.id = id →
              j.claimToken = some token' →
                call.record? = some (id, token') →
                  c.call.record? = some (jobId, token) := by
        intro call id token' hCall hSame hToken hOf
        rw [hCall, hOf, ← hSame, hId]
        exact congrArg (fun t => some (jobId, t))
          (Option.some.inj (hToken.symm.trans hHeld.token))
      exfalso
      cases hCall : c.call <;>
        simp only [hCall, Call.changes] at hChange
      case extendDeadline id token' deadline =>
        exact hRecord (hOwn hCall hChange.1 hChange.2.1
          rfl)
      case completeJob id runId token' now =>
        exact hRecord (hOwn hCall hChange.1 hChange.2.1
          rfl)
      case failJob id runId token' errMsg nextRunAt now =>
        exact hRecord (hOwn hCall hChange.1 hChange.2.1
          rfl)
      case requeueStaleJob id now =>
        have hStale := hChange.2.1
        rw [hHeld.not_stale hStart] at hStale
        cases hStale
      case forceFail id =>
        apply hForce
        rw [hCall, ← hId, hChange.1]
      all_goals
        simp [hRunning, Job.cancellable] at hChange

------------------------------------------------------------
-- Calls Of One Statement
------------------------------------------------------------

/-
  A call of one statement that reaches its commit: the
  statement did not fail, and the other sessions and the
  time are as before.
-/
theorem committed?_statement
    (hLength : call.length = 1)
    (hCommitted : committed? call s = some s') :
    ∃ writes locks,
      call.statement 0 s.clock (fun k => k)
          (lockedBy s.sessions) s.db =
        .proceed writes locks ∧
      s'.db = postgres.performAll s.db writes ∧
      s'.sessions = s.sessions ∧ s'.clock = s.clock := by
  rcases Option.filter_eq_some_iff.mp hCommitted with
    ⟨hRun, hSame⟩
  have hStill : s'.sessions.length = s.sessions.length :=
    of_decide_eq_true hSame
  unfold Call.whole at hRun
  rw [hLength] at hRun
  simp only [List.replicate_succ, List.replicate_zero,
    List.cons_append, List.nil_append,
    Machine.run_cons] at hRun
  rcases Option.bind_eq_some_iff.mp hRun with
    ⟨s₁, hBegin, hRun₁⟩
  rcases Option.bind_eq_some_iff.mp hRun₁ with
    ⟨s₂, hStatement, hRun₂⟩
  rcases Option.bind_eq_some_iff.mp hRun₂ with
    ⟨s₃, hCommit, hEnd⟩
  cases hEnd
  have hOpened :
      s₁ = withNewest s (Session.opened call s.clock) := by
    change postgres.step (.begin call) s = some s₁ at hBegin
    simp only [Engine.step] at hBegin
    split at hBegin
    · exact (Option.some.inj hBegin).symm
    · cases hBegin
  subst hOpened
  have hPc : 0 < call.length := by omega
  rcases
    Engine.step_newest_cases (E := postgres)
      (s := withNewest s (Session.opened call s.clock))
      rfl hPc hStatement with
    rfl | ⟨writes, locks, hOutcome, _, rfl⟩
  · have hShrinks := Engine.length_sessions_commit hCommit
    exact absurd hStill (Nat.ne_of_lt hShrinks)
  · have hDone :=
      Engine.step_commit_newest (E := postgres)
        (s :=
          { withNewest s (Session.opened call s.clock) with
            sessions :=
              (Session.opened call s.clock).advance writes
                  locks ::
                s.sessions })
        rfl hLength.symm
    cases hDone.symm.trans hCommit
    exact ⟨writes, locks, hOutcome, rfl, rfl, rfl⟩

theorem committed?_reachable
    (hReach : sluice.Reachable s)
    (hCommitted : committed? call s = some s') :
    sluice.Reachable s' :=
  hReach.of_run (Option.filter_eq_some_iff.mp hCommitted).1

/- What a call of the worker makes of the row. -/
def recorded (j : Job) : Call → Job
| .extendDeadline _ _ deadline => j.extend deadline
| .completeJob _ _ _ now => j.complete now
| .failJob _ _ _ errMsg nextRunAt _ =>
    j.fail errMsg nextRunAt
| _ => j

theorem id_recorded
    (j : Job)
    (call : Call) :
    (recorded j call).id = j.id := by
  cases call <;> rfl

/- The calls of `record?` are single statements. -/
theorem length_of_record
    (hRecord : call.record? = some (jobId, token)) :
    call.length = 1 := by
  cases call <;> cases hRecord
  all_goals rfl

theorem writes_of_endClaim
    {jobId runId : Uuid}
    {f : RunRow → Option RunRow}
    {db : Db}
    {writes : List Write}
    {locks : List RowKey}
    (hResult :
      endClaim jobId runId j f db =
        .proceed writes locks) :
    ∃ runs : List RunRow,
      writes = .updateJob j :: runs.map .updateRun := by
  unfold endClaim at hResult
  split at hResult
  · cases hResult
  · cases hResult
    exact ⟨_, rfl⟩

/- The statement of a worker whose claim is held. -/
theorem writes_of_record
    {db : Db}
    {start : Time}
    {scan : Scan}
    {locked : RowKey → Bool}
    {writes : List Write}
    {locks : List RowKey}
    (hRecord : call.record? = some (jobId, token))
    (hMatch : matchClaim jobId token db = some j)
    (hOutcome :
      call.statement 0 start scan locked db =
        .proceed writes locks) :
    ∃ runs : List RunRow,
      writes =
        .updateJob (recorded j call) ::
          runs.map .updateRun := by
  cases call <;>
    simp only [Call.record?, Option.some.injEq,
      Prod.mk.injEq, reduceCtorEq] at hRecord
  case extendDeadline id token' deadline =>
    rcases hRecord with ⟨rfl, rfl⟩
    simp only [Call.statement, Storage.extendDeadline,
      hMatch] at hOutcome
    cases hOutcome
    exact ⟨[], rfl⟩
  case completeJob id runId token' now =>
    rcases hRecord with ⟨rfl, rfl⟩
    simp only [Call.statement, Storage.completeJob,
      hMatch] at hOutcome
    exact writes_of_endClaim hOutcome
  case failJob id runId token' errMsg nextRunAt now =>
    rcases hRecord with ⟨rfl, rfl⟩
    simp only [Call.statement, Storage.failJob,
      hMatch] at hOutcome
    exact writes_of_endClaim hOutcome

/- What the worker of a held claim records takes effect. -/
theorem row_of_record
    (hRow : s.db.job? jobId = some j)
    (hHeld : HeldUntil token expires j)
    (hRecord : call.record? = some (jobId, token))
    (hDone : committed? call s = some s') :
    s'.db.job? jobId = some (recorded j call) := by
  rcases committed?_statement (length_of_record hRecord)
    hDone with ⟨writes, locks, hOutcome, hDb, -, -⟩
  have hMatch : matchClaim jobId token s.db = some j := by
    simp [matchClaim, matchJob, hRow, hHeld.token,
      Job.inFlight, hHeld.running]
  rcases writes_of_record hRecord hMatch hOutcome with
    ⟨runs, hWrites⟩
  have hId : jobId = (recorded j call).id :=
    (Db.id_of_job? hRow).symm.trans (id_recorded j call).symm
  have hPut :
      (s.db.perform (.updateJob (recorded j call))).job?
          jobId =
        some (recorded j call) := by
    simp only [Db.job?_perform, if_pos hId, hRow,
      Option.map_some]
  rw [hDb, hWrites, Engine.performAll_cons]
  unfold Db.job?
  rw [jobs_updateRuns]
  exact hPut

------------------------------------------------------------
-- The Invariant
------------------------------------------------------------

/-
  The life of a deadline covers the way to the ticker, the
  beats that may be missed and the one after them, the delay
  of that one, and the time to record the outcome.
-/
structure Timing.Sufficient (T : Timing) : Prop where
  lag : 0 ≤ T.lag
  delay : 0 ≤ T.delay
  grace : 0 ≤ T.grace
  covered :
    T.lag + (T.misses + 1) * heartbeatInterval + T.delay +
        T.grace ≤
      heartbeatTTL + T.skew

/- The worker is on time, in the phase it is in. -/
def Phase.Timely (T : Timing) (clock : Time) : Phase → Prop
| .starting sent => clock ≤ sent + T.lag
| .beating h => h.Safe T.terms ∧ clock ≤ h.due + T.delay
| .recording h since =>
    h.Safe T.terms ∧ since ≤ h.due + T.delay ∧
      clock ≤ since + T.grace
| _ => True

structure Attends
    (T : Timing)
    (jobId token : Uuid)
    (s : Attended) : Prop where
  reach : sluice.Reachable s.sys
  others :
    ∀ e ∈ s.sys.sessions,
      e.call.record? ≠ some (jobId, token) ∧
        e.call ≠ .forceFail jobId
  timely : s.phase.Timely T s.sys.clock
  held :
    ∀ x, s.phase.expires? T = some x →
      ∃ j, s.sys.db.job? jobId = some j ∧
        HeldUntil token x j

section

variable {T : Timing}
variable {jobId token : Uuid}
variable {s s' : Attended}

theorem Timing.Sufficient.lasting
    (hT : T.Sufficient) :
    T.terms.Lasting where
  lag := hT.lag
  lifetime := by
    have hCovered := hT.covered
    simp only [Timing.terms]
    linarith

theorem heartbeatInterval_nonneg :
    0 ≤ heartbeatInterval := by
  decide

/- A worker on time is never past its deadline. -/
theorem Phase.Timely.unexpired
    (hT : T.Sufficient)
    {clock x : Time}
    {phase : Phase}
    (hTimely : phase.Timely T clock)
    (hExpires : phase.expires? T = some x) :
    clock ≤ x := by
  have hDelay := hT.delay
  have hGrace := hT.grace
  cases phase with
  | waiting => cases hExpires
  | ended => cases hExpires
  | starting sent =>
      cases hExpires
      have hCovered := hT.covered
      have hBeats :
          0 ≤ ((T.misses : Int) + 1) * heartbeatInterval :=
        mul_nonneg (by omega) heartbeatInterval_nonneg
      have hLag : clock ≤ sent + T.lag := hTimely
      unfold Timing.deadline
      linarith
  | beating h =>
      cases hExpires
      refine hTimely.1.unexpired heartbeatInterval_nonneg ?_
      have hDue := hTimely.2
      simp only [Timing.terms]
      linarith
  | recording h since =>
      cases hExpires
      refine hTimely.1.unexpired heartbeatInterval_nonneg ?_
      have hSince := hTimely.2.1
      have hNow := hTimely.2.2
      simp only [Timing.terms]
      linarith

variable {label : Storage.Step}
variable {sys : Sys}
variable {sent : Time}
variable {h : Holder}

/- A step of someone else keeps the sessions those of others. -/
theorem others_of_step
    {sys sys' : Sys}
    (hOthers :
      ∀ e ∈ sys.sessions,
        e.call.record? ≠ some (jobId, token) ∧
          e.call ≠ .forceFail jobId)
    (hBegin :
      ∀ call, label = .begin call →
        call.record? ≠ some (jobId, token) ∧
          call ≠ .forceFail jobId)
    (hStep : sluice.step label sys = some sys') :
    ∀ e ∈ sys'.sessions,
      e.call.record? ≠ some (jobId, token) ∧
        e.call ≠ .forceFail jobId := by
  intro e he
  cases Engine.effect_of_step hStep with
  | begin _ =>
      rcases List.mem_cons.mp he with hNew | hOld
      · subst hNew
        exact hBegin _ rfl
      · exact hOthers e hOld
  | statement hSplit _ _ _ =>
      rcases mem_split_iff.mp he with hMoved | hOther
      · subst hMoved
        have hSame := hOthers _ (self_mem_of_split hSplit)
        exact hSame
      · exact hOthers e (mem_of_split hSplit hOther)
  | abort hSplit => exact hOthers e (mem_of_split hSplit he)
  | rollback hSplit =>
      exact hOthers e (mem_of_split hSplit he)
  | commit hSplit _ =>
      exact hOthers e (mem_of_split hSplit he)
  | tick => exact hOthers e he

/- A commit of someone else leaves the row of a live claim. -/
theorem Attends.row_of_commit
    (hT : T.Sufficient)
    (hInv : Attends T jobId token s)
    {x : Time}
    (hExpires : s.phase.expires? T = some x)
    {j : Job}
    (hJob : s.sys.db.job? jobId = some j)
    (hHeld : HeldUntil token x j)
    {e : Sess}
    (he : e ∈ s.sys.sessions) :
    (postgres.performAll s.sys.db e.writes).job? jobId =
      some j := by
  have hStart :=
    ((Engine.booked hInv.reach).sessions e he).2.1
  have hNow := hInv.timely.unexpired hT hExpires
  have hSound := sessions_sound hInv.reach e he
  exact row_kept_by_others (moves_committed hSound jobId)
    hJob hHeld (Int.le_trans hStart hNow)
    (hInv.others e he).1 (hInv.others e he).2

theorem Attends.row_of_step
    (hT : T.Sufficient)
    (hInv : Attends T jobId token s)
    (hStep : sluice.step label s.sys = some sys)
    {x : Time}
    (hExpires : s.phase.expires? T = some x) :
    ∃ j, sys.db.job? jobId = some j ∧
      HeldUntil token x j := by
  rcases hInv.held x hExpires with ⟨j, hJob, hHeld⟩
  refine ⟨j, ?_, hHeld⟩
  rcases Engine.step_db hStep with hSame | ⟨e, he, hDb⟩
  · rw [hSame]
    exact hJob
  · rw [hDb]
    exact hInv.row_of_commit hT hExpires hJob hHeld he

------------------------------------------------------------
-- Steps
------------------------------------------------------------

theorem Attends.storage
    (hT : T.Sufficient)
    (hInv : Attends T jobId token s)
    (hForeign : foreign jobId token label = true)
    (hUnforced :
      unforced jobId s (.storage label) = true)
    (hStep : sluice.step label s.sys = some sys) :
    Attends T jobId token { s with sys := sys } where
  reach := .next label hInv.reach trivial hStep
  others := by
    refine others_of_step hInv.others ?_ hStep
    intro call hCall
    subst hCall
    exact ⟨of_decide_eq_true hForeign,
      of_decide_eq_true hUnforced⟩
  timely := by
    -- The clock stands still.
    have hClock : sys.clock = s.sys.clock := by
      cases Engine.effect_of_step hStep with
      | tick => cases hForeign
      | begin | statement | abort | rollback | commit =>
          rfl
    have hTimely := hInv.timely
    rw [← hClock] at hTimely
    exact hTimely
  held := fun _ hExpires => hInv.row_of_step hT hStep hExpires

/- The worker moves on in time. -/
theorem Phase.Timely.later
    {clock later : Time}
    {phase : Phase}
    (hTimely : phase.Timely T clock)
    (hUntil : ∀ t, phase.until? T = some t → later ≤ t) :
    phase.Timely T later := by
  cases phase with
  | waiting => trivial
  | ended => trivial
  | starting sent => exact hUntil _ rfl
  | beating h => exact ⟨hTimely.1, hUntil _ rfl⟩
  | recording h since =>
      exact ⟨hTimely.1, hTimely.2.1, hUntil _ rfl⟩

theorem Attends.tick
    (hT : T.Sufficient)
    (hInv : Attends T jobId token s)
    {n : Nat}
    (hGuard :
      (s.phase.until? T).all
        (fun t => s.sys.clock + n ≤ t) = true)
    (hStep : sluice.step (.tick n) s.sys = some sys) :
    Attends T jobId token { s with sys := sys } where
  reach := .next _ hInv.reach trivial hStep
  others := by
    refine others_of_step hInv.others ?_ hStep
    intro call hCall
    cases hCall
  timely := by
    cases hStep
    refine hInv.timely.later ?_
    intro t hUntil
    rw [hUntil] at hGuard
    exact of_decide_eq_true hGuard
  held := fun _ hExpires => hInv.row_of_step hT hStep hExpires

/- A claim that returns a row has claimed it. -/
theorem row_of_claim
    {db : Db}
    {e : Sess}
    {a : ClaimArgs}
    (hSound : Sound db e)
    (hClaim : e.call.claimArgs? = some a)
    (hReturned : e.writes.isEmpty = false) :
    ∃ old,
      (postgres.performAll db e.writes).job? a.jobId =
        some (Job.claim old a) := by
  rcases hSound.claimWrites a hClaim with
    hNone | ⟨old, hOld, _, _, hWrites⟩
  · rw [hNone] at hReturned
    cases hReturned
  · have hId : a.jobId = (old.claim a).id :=
      (Db.id_of_job? hOld).symm
    refine ⟨old, ?_⟩
    rw [hWrites]
    change
      ((db.perform (.updateJob (old.claim a))).perform
        (.insertRun (RunRow.opened a (old.claim a)))).job?
          a.jobId = _
    simp only [Db.job?_perform, if_pos hId, hOld,
      Option.map_some]

theorem Attends.claim
    (hInv : Attends T jobId token s)
    {i : Nat}
    (hStep : commitClaim T jobId token i sent s = some s') :
    Attends T jobId token s' := by
  unfold commitClaim at hStep
  split at hStep
  case h_1 => cases hStep
  rename_i e hGet
  split at hStep
  case isFalse => cases hStep
  rename_i hGuard
  rcases hGuard with ⟨hReturned, hArgs, hLag⟩
  rcases Option.map_eq_some_iff.mp hStep with
    ⟨sys, hCommit, rfl⟩
  rcases (Option.any_eq_true _ _).mp hArgs with
    ⟨a, hClaim, hMatch⟩
  simp only [Bool.and_eq_true, decide_eq_true_eq] at hMatch
  rcases hMatch with ⟨⟨rfl, rfl⟩, hDeadline⟩
  rcases Engine.writes_of_commit (E := postgres) hGet
    hCommit with ⟨_, hDb, hClock⟩
  have hSound :=
    sessions_sound hInv.reach e (List.mem_of_getElem? hGet)
  rcases row_of_claim hSound hClaim hReturned with
    ⟨old, hRow⟩
  constructor
  · exact .next _ hInv.reach trivial hCommit
  · refine others_of_step hInv.others ?_ hCommit
    intro call hCall
    cases hCall
  · change sys.clock ≤ sent + T.lag
    rw [hClock]
    exact hLag
  · intro x hExpires
    cases hExpires
    refine ⟨old.claim a, ?_, rfl, rfl, ?_⟩
    · rw [hDb]
      exact hRow
    · exact congrArg some hDeadline

theorem Attends.start
    (hT : T.Sufficient)
    (hInv : Attends T jobId token s)
    (hPhase : s.phase = .starting sent) :
    Attends T jobId token
      ⟨s.sys,
        .beating (.started T.terms sent s.sys.clock)⟩ where
  reach := hInv.reach
  others := hInv.others
  timely := by
    have hTimely := hInv.timely
    rw [hPhase] at hTimely
    refine ⟨Holder.safe_started hT.lasting hTimely, ?_⟩
    have hDelay := hT.delay
    have hInterval := heartbeatInterval_nonneg
    simp only [Holder.started, Timing.terms]
    linarith
  held := by
    intro x hExpires
    cases hExpires
    apply hInv.held
    rw [hPhase]
    simp only [Phase.expires?, Timing.deadline,
      Holder.started, Timing.terms, Int.add_assoc]

theorem Attends.beat
    (hT : T.Sufficient)
    (hInv : Attends T jobId token s)
    (hPhase : s.phase = .beating h)
    (hDue : h.due ≤ sent)
    (hBeat :
      committed?
          (.extendDeadline jobId token (T.deadline sent))
          s.sys =
        some sys) :
    Attends T jobId token
      ⟨sys, .beating (h.renew T.terms sent)⟩ := by
  rcases committed?_statement rfl hBeat with
    ⟨_, _, _, _, hSessions, hClock⟩
  have hTimely := hInv.timely
  have hHeld := hInv.held h.expires
  rw [hPhase] at hTimely hHeld
  rcases hHeld rfl with ⟨j, hJob, hHeldUntil⟩
  constructor
  · exact committed?_reachable hInv.reach hBeat
  · simp only [hSessions]
    exact hInv.others
  · refine ⟨Holder.safe_renew hT.lasting hDue, ?_⟩
    have hNow := hTimely.2
    have hInterval := heartbeatInterval_nonneg
    simp only [Holder.renew, Timing.terms, hClock]
    linarith
  · intro x hExpires
    refine ⟨_, row_of_record hJob hHeldUntil rfl hBeat, ?_⟩
    have hSame : T.deadline sent = x := by
      cases hExpires
      simp only [Timing.deadline, Holder.renew,
        Timing.terms, Int.add_assoc]
    rw [← hSame]
    exact hHeldUntil.extend _

theorem Attends.miss
    (hInv : Attends T jobId token s)
    (hPhase : s.phase = .beating h)
    (hMissed : h.missed < T.misses) :
    Attends T jobId token
      ⟨s.sys, .beating (h.miss T.terms)⟩ where
  reach := hInv.reach
  others := hInv.others
  timely := by
    have hTimely := hInv.timely
    rw [hPhase] at hTimely
    refine ⟨hTimely.1.miss hMissed, ?_⟩
    have hNow := hTimely.2
    have hInterval := heartbeatInterval_nonneg
    simp only [Holder.miss, Timing.terms]
    linarith
  held := by
    intro x hExpires
    apply hInv.held
    rw [hPhase]
    exact hExpires

theorem Attends.stop
    (hT : T.Sufficient)
    (hInv : Attends T jobId token s)
    (hPhase : s.phase = .beating h) :
    Attends T jobId token
      ⟨s.sys, .recording h s.sys.clock⟩ where
  reach := hInv.reach
  others := hInv.others
  timely := by
    have hTimely := hInv.timely
    rw [hPhase] at hTimely
    have hGrace := hT.grace
    exact ⟨hTimely.1, hTimely.2, by linarith⟩
  held := by
    intro x hExpires
    apply hInv.held
    rw [hPhase]
    exact hExpires

theorem Attends.record
    (hInv : Attends T jobId token s)
    {call : Call}
    (hRecord : call.record? = some (jobId, token))
    (hDone : committed? call s.sys = some sys) :
    Attends T jobId token ⟨sys, .ended⟩ := by
  rcases committed?_statement (length_of_record hRecord)
    hDone with ⟨_, _, _, _, hSessions, _⟩
  constructor
  · exact committed?_reachable hInv.reach hDone
  · simp only [hSessions]
    exact hInv.others
  · trivial
  · intro x hExpires
    cases hExpires

/- Every step keeps the invariant. -/
theorem Attends.step
    (hT : T.Sufficient)
    (hInv : Attends T jobId token s)
    {label : Label}
    (hUnforced : unforced jobId s label = true)
    (hStep :
      Attended.step T jobId token label s = some s') :
    Attends T jobId token s' := by
  unfold Attended.step at hStep
  split at hStep
  case h_1 label =>
    split at hStep
    case isFalse => cases hStep
    rename_i hForeign
    rcases Option.map_eq_some_iff.mp hStep with
      ⟨sys, hSys, rfl⟩
    exact hInv.storage hT hForeign hUnforced hSys
  case h_2 n =>
    split at hStep
    case isFalse => cases hStep
    rename_i hGuard
    rcases Option.map_eq_some_iff.mp hStep with
      ⟨sys, hSys, rfl⟩
    exact hInv.tick hT hGuard hSys
  case h_3 i sent hPhase => exact hInv.claim hStep
  case h_4 sent hPhase =>
    cases hStep
    exact hInv.start hT hPhase
  case h_5 sent h hPhase =>
    split at hStep
    case isFalse => cases hStep
    rename_i hGuard
    rcases Option.map_eq_some_iff.mp hStep with
      ⟨sys, hSys, rfl⟩
    exact hInv.beat hT hPhase hGuard.1 hSys
  case h_6 h hPhase =>
    split at hStep
    case isFalse => cases hStep
    rename_i hGuard
    cases hStep
    exact hInv.miss hPhase hGuard.2
  case h_7 h hPhase =>
    cases hStep
    exact hInv.stop hT hPhase
  case h_8 call h since hPhase =>
    split at hStep
    case isFalse => cases hStep
    rename_i hRecord
    rcases Option.map_eq_some_iff.mp hStep with
      ⟨sys, hSys, rfl⟩
    exact hInv.record hRecord hSys
  case h_9 => cases hStep

------------------------------------------------------------
-- Live Claims
------------------------------------------------------------

/- Every run keeps the invariant. -/
theorem attends
    (hT : T.Sufficient)
    (hReach :
      (attended T jobId token).ReachableWith
        (fun s label => unforced jobId s label = true) s) :
    Attends T jobId token s := by
  refine Machine.ReachableWith.invariant ?_ ?_ hReach
  · rintro s ⟨hInit, hPhase⟩
    constructor
    · exact .start hInit
    · rcases hInit with ⟨db, clock, _, hSys⟩
      intro e he
      rw [hSys] at he
      cases he
    · rw [hPhase]
      trivial
    · intro x hExpires
      rw [hPhase] at hExpires
      cases hExpires
  · intro s label s' _ hInv hUnforced hStep
    exact hInv.step hT hUnforced hStep

/-
  While the worker beats and until it has recorded the
  outcome, the claim is its own: the deadline lies ahead, the
  reaper does not find the job, a reaper's transaction that
  is under way leaves the job as it is, and what the worker
  records takes effect.
-/
theorem live_claim_is_never_reaped
    (hT : T.Sufficient)
    (hReach :
      (attended T jobId token).ReachableWith
        (fun s label => unforced jobId s label = true) s)
    {x : Time}
    (hLive : s.phase.expires? T = some x) :
    s.sys.clock ≤ x ∧
      ∃ j, s.sys.db.job? jobId = some j ∧
        HeldUntil token x j ∧
        j ∉ getStaleClaims s.sys.clock s.sys.db ∧
        (∀ e ∈ s.sys.sessions,
          (postgres.performAll s.sys.db e.writes).job?
              jobId =
            some j) ∧
        ∀ call sys,
          call.record? = some (jobId, token) →
            committed? call s.sys = some sys →
              sys.db.job? jobId =
                some (recorded j call) := by
  have hInv := attends hT hReach
  have hNow := hInv.timely.unexpired hT hLive
  rcases hInv.held x hLive with ⟨j, hJob, hHeld⟩
  refine ⟨hNow, j, hJob, hHeld, ?_, ?_, ?_⟩
  · intro hStale
    have hFound := (List.mem_filter.mp hStale).2
    rw [hHeld.not_stale hNow] at hFound
    cases hFound
  · intro e he
    exact hInv.row_of_commit hT hLive hJob hHeld he
  · intro call sys hRecord hDone
    exact row_of_record hJob hHeld hRecord hDone

end

namespace Sample

/- One beat in a row may fail, and latencies are short. -/
def timing : Timing where
  skew := 0
  lag := second
  delay := second
  grace := 3 * second
  misses := 1

theorem sufficient_timing : timing.Sufficient where
  lag := by decide
  delay := by decide
  grace := by decide
  covered := by decide

def claimed : ClaimArgs :=
  { Storage.Sample.claim 7 1 with
    deadline := heartbeatTTL }

/-
  A job runs for fifteen seconds; the second of the three
  beats fails, and a reaper that was told of the job looks at
  it just before the outcome is recorded.
-/
def labels : List Label :=
  (Call.insertJob (Storage.Sample.job 7)).whole.map
      .storage ++
    [.storage (.begin (.tryClaim claimed)),
      .storage (.statement 0 (fun k => k)), .claim 0 0,
      .tick 1000000, .start, .tick 5000000,
      .beat (6 * second), .tick 5000000, .miss,
      .tick 5000000, .beat (16 * second), .stop,
      .storage (.begin (.requeueStaleJob 7 (16 * second))),
      .storage (.statement 0 (fun k => k)),
      .storage (.statement 0 (fun k => k)), .tick 3000000]

end Sample

/- The first deadline is long over, and a reaper is at work. -/
theorem live_claim_of_late_job :
    ∃ s, (attended Sample.timing 7 1).ReachableWith
        (fun s label => unforced 7 s label = true) s ∧
      s.phase.expires? Sample.timing = some (31 * second) ∧
      s.sys.clock = 19 * second ∧
      s.sys.sessions.length = 1 ∧
      s.sys.clock ≤ 31 * second ∧
        ∃ j, s.sys.db.job? 7 = some j ∧
          HeldUntil 1 (31 * second) j ∧
          j ∉ getStaleClaims s.sys.clock s.sys.db ∧
          (∀ e ∈ s.sys.sessions,
            (postgres.performAll s.sys.db e.writes).job? 7 =
              some j) ∧
          ∀ call sys,
            call.record? = some (7, 1) →
              committed? call s.sys = some sys →
                sys.db.job? 7 =
                  some (recorded j call) := by
  have hInit :
      (attended Sample.timing 7 1).init
        ⟨Storage.Sample.start, .waiting⟩ :=
    ⟨Storage.Sample.init_start, rfl⟩
  rcases
    Machine.exists_reachableWith_of_run hInit (unforced 7)
      Sample.labels
      (fun s =>
        s.phase.expires? Sample.timing =
            some (31 * second) ∧
          s.sys.clock = 19 * second ∧
          s.sys.sessions.length = 1)
      (by decide +kernel)
  with ⟨s, hReach, hLive, hClock, hSessions⟩
  exact ⟨s, hReach, hLive, hClock, hSessions,
    live_claim_is_never_reaped Sample.sufficient_timing
      hReach hLive⟩

end Heartbeats

end Worker

end Sluice
