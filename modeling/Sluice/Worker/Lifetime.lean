import Sluice.Foundations.Machine
import Sluice.Foundations.Pool
import Sluice.Foundations.Renewal
import Sluice.Job.Basic

/-
  The life of a worker: `Run`, its loops, its sign of life,
  and `Shutdown`.

  `Run` marks the worker alive, starts a ticker that goes on
  marking it, and starts the loops; it returns when all loops
  have ended. Polling stops when the context is cancelled or
  `Shutdown` is called; jobs in flight go on, until the time
  given to `Shutdown` is over. Meanwhile schedulers look for
  workers whose sign of life is gone and take their lists.

  `latePops` and `lateSteps` count what the loops do after
  polling has stopped, `takes` counts the times that the
  worker's list was taken, and `drainUntil` keeps the limit
  of `Shutdown`; the code has none of these.

  Key definitions include:
    * `LoopPhase`, `Loop` and `Loop.step`
    * `Stage`, `Closing` and `Life`
    * `Life.step` and `life`
    * `Orderly` and `Watched`

  Key theorems include:
    * `Loop.moves_of_step`
    * `shutdown_is_orderly`
    * `running_worker_keeps_its_list`
-/

------------------------------------------------------------
-- Loops
------------------------------------------------------------

namespace Sluice

namespace Worker

namespace Lifetime

open Foundations Renewal

/-
  Where a goroutine of `loop` is: about to test the context,
  in `Pop`, in `process`, backing off for a second after an
  error, or done.
-/
inductive LoopPhase
| testing
| popping
| processing
| pausing (limit : Time)
| ended
deriving DecidableEq, Repr

structure Loop where
  phase : LoopPhase
  latePops : Nat
deriving DecidableEq, Repr

/-
  What a goroutine does or is answered: `Pop` returns an item,
  nothing or an error, and `process` returns a Boolean.
-/
inductive Act
| test
| popped
| nothing
| failed
| processed (ok : Bool)
| resume
deriving DecidableEq, Repr

namespace Loop

def moveTo (l : Loop) (phase : LoopPhase) : Loop :=
  { l with phase := phase }

/- One step, given whether polling has been stopped. -/
def step
    (clock : Time)
    (cancelled : Bool)
    (act : Act)
    (l : Loop) :
    Option Loop :=
  match act, l.phase with
  | .test, .testing =>
      some (l.moveTo (if cancelled then .ended else .popping))
  | .popped, .popping =>
      some
        { phase := .processing
          latePops := l.latePops + cancelled.toNat }
  | .nothing, .popping => some (l.moveTo .testing)
  | .failed, .popping =>
      some
        (l.moveTo
          (if cancelled then .ended
            else .pausing (clock + second)))
  | .processed ok, .processing =>
      some
        (l.moveTo
          (if ok then .testing
            else .pausing (clock + second)))
  | .resume, .pausing limit =>
      if cancelled = true ∨ limit ≤ clock then
        some (l.moveTo .testing)
      else none
  | _, _ => none

end Loop

------------------------------------------------------------
-- Workers
------------------------------------------------------------

/- `queue.WorkerAliveTTL`; the ticker has a third of it. -/
def workerAliveTTL : Time := 15 * second

def recordTimeout : Time := 10 * second

/-
  The most time from the first mark to the ticker and from a
  tick to its mark, and the number of marks in a row that may
  fail.
-/
structure Timing where
  lag : Time
  delay : Time
  misses : Nat

def Timing.terms (T : Timing) : Terms where
  interval := workerAliveTTL / 3
  lifetime := workerAliveTTL
  lag := T.lag
  delay := T.delay
  grace := 0
  misses := T.misses

/-
  Where `Run` is: not called; the worker is marked alive; its
  goroutines run; it has returned; or the process has died,
  and then the rest of the state stands still.
-/
inductive Stage
| fresh
| marked (sent : Time)
| running (h : Holder)
| returned (at_ : Time)
| dead (at_ : Time)

/- Where `Shutdown` is: it waits for `done`, twice. -/
inductive Closing
| notCalled
| draining (limit : Time)
| aborting (limit : Time)
| closed
deriving DecidableEq, Repr

/-
  `cancelled` is the state of `pollCtx` and `aborted` that of
  `execCtx`. `key` is the time until which the key of the
  worker exists in Redis. `taking` counts the schedulers that
  have found no key and are about to take the list.
-/
structure Life where
  clock : Time
  stage : Stage
  key : Option Time
  loops : List Loop
  cancelled : Bool
  aborted : Bool
  closing : Closing
  taking : Nat
  takes : Nat
  lateSteps : Nat
  drainUntil : Option Time

/- The key exists in Redis. -/
def Life.alive (s : Life) : Bool :=
  s.key.any (fun t => s.clock ≤ t)

inductive Label
| mark (ok : Bool)
| start
| beat
| miss
| die
| cancel
| shutdown (timeout : Time)
| watch
| loop (i : Nat) (act : Act)
| return_
| awaitDone
| timeout
| giveUp
| check
| take
| tick (n : Nat)

namespace Life

/- `MarkAlive`: a `SET` with the time to live. -/
def markAlive (s : Life) : Life :=
  { s with key := some (s.clock + workerAliveTTL) }

/- The time by which `Run` takes its next step. -/
def due? (T : Timing) (s : Life) : Option Time :=
  match s.stage with
  | .marked sent => some (sent + T.lag)
  | .running h => some (h.due + T.delay)
  | _ => none

def stepLoop (i : Nat) (act : Act) (s : Life) : Option Life :=
  match s.stage, s.loops[i]? with
  | .running _, some l =>
      (l.step s.clock s.cancelled act).map
        (fun l' =>
          { s with
            loops := s.loops.set i l'
            lateSteps := s.lateSteps + s.cancelled.toNat })
  | _, _ => none

/- The steps of `Run` and of the process. -/
def stepRun
    (T : Timing)
    (label : Label)
    (s : Life) :
    Option Life :=
  match label, s.stage with
  | .mark ok, .fresh =>
      some
        { (if ok then s.markAlive else s) with
          stage := .marked s.clock }
  | .start, .marked sent =>
      some
        { s with
          stage :=
            .running (.started T.terms sent s.clock) }
  | .beat, .running h =>
      if h.due ≤ s.clock then
        some
          { s.markAlive with
            stage := .running (h.renew T.terms s.clock) }
      else none
  | .miss, .running h =>
      if h.due ≤ s.clock then
        some { s with stage := .running (h.miss T.terms) }
      else none
  | .return_, .running _ =>
      if s.loops.all (fun l => l.phase = .ended) = true then
        some { s with stage := .returned s.clock }
      else none
  | .die, .marked _ =>
      some { s with stage := .dead s.clock }
  | .die, .running _ =>
      some { s with stage := .dead s.clock }
  | _, _ => none

/- The steps of `Shutdown` and of its caller. -/
def stepShutdown (label : Label) (s : Life) : Option Life :=
  match label, s.closing, s.stage with
  | .cancel, _, _ => some { s with cancelled := true }
  | .shutdown timeout, .notCalled, _ =>
      some
        { s with
          closing := .draining (s.clock + timeout)
          drainUntil := some (s.clock + timeout) }
  | .watch, .notCalled, _ => none
  | .watch, _, _ => some { s with cancelled := true }
  | .awaitDone, .draining _, .returned _ =>
      some { s with closing := .closed }
  | .awaitDone, .aborting _, .returned _ =>
      some { s with closing := .closed }
  | .timeout, .draining limit, _ =>
      if limit ≤ s.clock then
        some
          { s with
            aborted := true
            closing := .aborting (s.clock + recordTimeout) }
      else none
  | .giveUp, .aborting limit, _ =>
      if limit ≤ s.clock then
        some { s with closing := .closed }
      else none
  | _, _, _ => none

/-
  The steps of schedulers: `EXISTS` on the key, and then the
  transaction that takes the list. There is no list before
  the first pop.
-/
def stepScheduler (label : Label) (s : Life) : Option Life :=
  match label, s.stage with
  | .check, .fresh => none
  | .check, _ =>
      if s.alive then some s
      else some { s with taking := s.taking + 1 }
  | .take, _ =>
      if 0 < s.taking then
        some
          { s with
            taking := s.taking - 1
            takes := s.takes + 1 }
      else none
  | _, _ => none

def step (T : Timing) (label : Label) (s : Life) :
    Option Life :=
  match label with
  | .loop i act => s.stepLoop i act
  | .mark _ | .start | .beat | .miss | .die | .return_ =>
      s.stepRun T label
  | .cancel | .shutdown _ | .watch | .awaitDone | .timeout
  | .giveUp =>
      s.stepShutdown label
  | .check | .take => s.stepScheduler label
  | .tick n =>
      if
        (s.due? T).all (fun t => s.clock + n ≤ t) = true
      then some { s with clock := s.clock + n }
      else none

end Life

/- A worker that is not yet running. -/
def life (T : Timing) : Machine Life Label where
  init := fun s =>
    s.stage = .fresh ∧ s.key = none ∧
      (∀ l ∈ s.loops, l = ⟨.testing, 0⟩) ∧
        s.cancelled = false ∧ s.aborted = false ∧
          s.closing = .notCalled ∧ s.taking = 0 ∧
            s.takes = 0 ∧ s.lateSteps = 0 ∧
              s.drainUntil = none
  step := Life.step T

------------------------------------------------------------
-- Effects
------------------------------------------------------------

/- What one step of a goroutine does. -/
inductive Loop.Moves
    (clock : Time)
    (cancelled : Bool)
    (l : Loop) :
    Loop → Prop
| ends
    (hPhase : l.phase = .testing ∨ l.phase = .popping)
    (hStopped : cancelled = true) :
    Moves clock cancelled l (l.moveTo .ended)
| polls
    (hPhase : l.phase = .testing)
    (hGoing : cancelled = false) :
    Moves clock cancelled l (l.moveTo .popping)
| pops
    (hPhase : l.phase = .popping) :
    Moves clock cancelled l
      { phase := .processing
        latePops := l.latePops + cancelled.toNat }
| tests
    (hPhase :
      l.phase = .popping ∨ l.phase = .processing ∨
        ∃ limit, l.phase = .pausing limit) :
    Moves clock cancelled l (l.moveTo .testing)
| pauses
    (hPhase :
      l.phase = .popping ∧ cancelled = false ∨
        l.phase = .processing) :
    Moves clock cancelled l
      (l.moveTo (.pausing (clock + second)))

theorem Loop.moves_of_step
    {clock : Time}
    {cancelled : Bool}
    {act : Act}
    {l l' : Loop}
    (hStep : l.step clock cancelled act = some l') :
    l.Moves clock cancelled l' := by
  unfold Loop.step at hStep
  split at hStep
  case h_1 hPhase =>
    cases hStep
    cases cancelled with
    | false => exact .polls hPhase rfl
    | true => exact .ends (.inl hPhase) rfl
  case h_2 hPhase =>
    cases hStep
    exact .pops hPhase
  case h_3 hPhase =>
    cases hStep
    exact .tests (.inl hPhase)
  case h_4 hPhase =>
    cases hStep
    cases cancelled with
    | false => exact .pauses (.inl ⟨hPhase, rfl⟩)
    | true => exact .ends (.inr hPhase) rfl
  case h_5 ok hPhase =>
    cases hStep
    cases ok with
    | false => exact .pauses (.inr hPhase)
    | true => exact .tests (.inr (.inl hPhase))
  case h_6 limit hPhase =>
    split at hStep
    · cases hStep
      exact .tests (.inr (.inr ⟨limit, hPhase⟩))
    · cases hStep
  case h_7 => cases hStep

/- What each step does. -/
inductive Life.Effect (T : Timing) :
    Label → Life → Life → Prop
| mark {s : Life} (ok : Bool)
    (hStage : s.stage = .fresh) :
    Effect T (.mark ok) s
      { (if ok then s.markAlive else s) with
        stage := .marked s.clock }
| start {s : Life} (sent : Time)
    (hStage : s.stage = .marked sent) :
    Effect T .start s
      { s with
        stage := .running (.started T.terms sent s.clock) }
| beat {s : Life} (h : Holder)
    (hStage : s.stage = .running h)
    (hDue : h.due ≤ s.clock) :
    Effect T .beat s
      { s.markAlive with
        stage := .running (h.renew T.terms s.clock) }
| miss {s : Life} (h : Holder)
    (hStage : s.stage = .running h) :
    Effect T .miss s
      { s with stage := .running (h.miss T.terms) }
| return_ {s : Life} (h : Holder)
    (hStage : s.stage = .running h)
    (hEnded : ∀ l ∈ s.loops, l.phase = .ended) :
    Effect T .return_ s
      { s with stage := .returned s.clock }
| die {s : Life}
    (hStage :
      (∃ sent, s.stage = .marked sent) ∨
        ∃ h, s.stage = .running h) :
    Effect T .die s { s with stage := .dead s.clock }
| loop {s : Life} {l₁ l l₂ l'} (act : Act) (h : Holder)
    (hStage : s.stage = .running h)
    (hSplit : s.loops = l₁ ++ l :: l₂)
    (hMoves : l.Moves s.clock s.cancelled l') :
    Effect T (.loop l₁.length act) s
      { s with
        loops := l₁ ++ l' :: l₂
        lateSteps := s.lateSteps + s.cancelled.toNat }
| cancel {s : Life} (label : Label)
    (hLabel : label = .cancel ∨ label = .watch) :
    Effect T label s { s with cancelled := true }
| shutdown {s : Life} (timeout : Time)
    (hClosing : s.closing = .notCalled) :
    Effect T (.shutdown timeout) s
      { s with
        closing := .draining (s.clock + timeout)
        drainUntil := some (s.clock + timeout) }
| awaitDone {s : Life} (at_ : Time)
    (hClosing :
      (∃ limit, s.closing = .draining limit) ∨
        ∃ limit, s.closing = .aborting limit)
    (hStage : s.stage = .returned at_) :
    Effect T .awaitDone s { s with closing := .closed }
| timeout {s : Life} (limit : Time)
    (hClosing : s.closing = .draining limit)
    (hLimit : limit ≤ s.clock) :
    Effect T .timeout s
      { s with
        aborted := true
        closing := .aborting (s.clock + recordTimeout) }
| giveUp {s : Life} (limit : Time)
    (hClosing : s.closing = .aborting limit)
    (hLimit : limit ≤ s.clock) :
    Effect T .giveUp s { s with closing := .closed }
| found {s : Life}
    (hAlive : s.alive = true) :
    Effect T .check s s
| suspect {s : Life}
    (hStage : s.stage ≠ .fresh)
    (hGone : s.alive = false) :
    Effect T .check s { s with taking := s.taking + 1 }
| take {s : Life}
    (hTaking : 0 < s.taking) :
    Effect T .take s
      { s with
        taking := s.taking - 1
        takes := s.takes + 1 }
| tick {s : Life} (n : Nat)
    (hDue :
      ∀ t : Time, s.due? T = some t → s.clock + n ≤ t) :
    Effect T (.tick n) s { s with clock := s.clock + n }

section

variable {T : Timing}
variable {label : Label}
variable {s s' : Life}

theorem Life.effect_of_stepLoop
    {i : Nat}
    {act : Act}
    (hStep : s.stepLoop i act = some s') :
    Life.Effect T (.loop i act) s s' := by
  unfold Life.stepLoop at hStep
  split at hStep
  · rename_i h l hStage hGet
    rcases exists_split_of_getElem? hGet with
      ⟨l₁, l₂, hSplit, rfl, -, hSet⟩
    rcases Option.map_eq_some_iff.mp hStep with
      ⟨l', hLoop, rfl⟩
    rw [hSet]
    exact .loop act h hStage hSplit
      (Loop.moves_of_step hLoop)
  · cases hStep

theorem Life.effect_of_stepRun
    (hStep : s.stepRun T label = some s') :
    Life.Effect T label s s' := by
  unfold Life.stepRun at hStep
  split at hStep
  case h_1 ok hStage =>
    cases hStep
    exact .mark ok hStage
  case h_2 sent hStage =>
    cases hStep
    exact .start sent hStage
  case h_3 h hStage =>
    split at hStep
    · rename_i hDue
      cases hStep
      exact .beat h hStage hDue
    · cases hStep
  case h_4 h hStage =>
    split at hStep
    · cases hStep
      exact .miss h hStage
    · cases hStep
  case h_5 h hStage =>
    split at hStep
    · rename_i hAll
      cases hStep
      refine .return_ h hStage ?_
      intro l hl
      exact of_decide_eq_true (List.all_eq_true.mp hAll l hl)
    · cases hStep
  case h_6 sent hStage =>
    cases hStep
    exact .die (.inl ⟨sent, hStage⟩)
  case h_7 h hStage =>
    cases hStep
    exact .die (.inr ⟨h, hStage⟩)
  case h_8 => cases hStep

theorem Life.effect_of_stepShutdown
    (hStep : s.stepShutdown label = some s') :
    Life.Effect T label s s' := by
  unfold Life.stepShutdown at hStep
  split at hStep
  case h_1 =>
    cases hStep
    exact .cancel .cancel (.inl rfl)
  case h_2 timeout hClosing =>
    cases hStep
    exact .shutdown timeout hClosing
  case h_3 => cases hStep
  case h_4 =>
    cases hStep
    exact .cancel .watch (.inr rfl)
  case h_5 limit at_ hClosing hStage =>
    cases hStep
    exact .awaitDone at_ (.inl ⟨limit, hClosing⟩) hStage
  case h_6 limit at_ hClosing hStage =>
    cases hStep
    exact .awaitDone at_ (.inr ⟨limit, hClosing⟩) hStage
  case h_7 limit hClosing =>
    split at hStep
    · rename_i hLimit
      cases hStep
      exact .timeout limit hClosing hLimit
    · cases hStep
  case h_8 limit hClosing =>
    split at hStep
    · rename_i hLimit
      cases hStep
      exact .giveUp limit hClosing hLimit
    · cases hStep
  case h_9 => cases hStep

theorem Life.effect_of_stepScheduler
    (hStep : s.stepScheduler label = some s') :
    Life.Effect T label s s' := by
  unfold Life.stepScheduler at hStep
  split at hStep
  case h_1 => cases hStep
  case h_2 hStage =>
    split at hStep
    · rename_i hAlive
      cases hStep
      exact .found hAlive
    · rename_i hGone
      cases hStep
      exact .suspect hStage (Bool.not_eq_true _ ▸ hGone)
  case h_3 =>
    split at hStep
    · rename_i hTaking
      cases hStep
      exact .take hTaking
    · cases hStep
  case h_4 => cases hStep

theorem Life.effect_of_step
    (hStep : s.step T label = some s') :
    Life.Effect T label s s' := by
  unfold Life.step at hStep
  split at hStep
  case h_1 => exact Life.effect_of_stepLoop hStep
  case h_14 => exact Life.effect_of_stepScheduler hStep
  case h_15 => exact Life.effect_of_stepScheduler hStep
  case h_16 n =>
    split at hStep
    · rename_i hAll
      cases hStep
      refine .tick n ?_
      intro t hDue
      rw [hDue] at hAll
      exact of_decide_eq_true hAll
    · cases hStep
  all_goals
    first
    | exact Life.effect_of_stepRun hStep
    | exact Life.effect_of_stepShutdown hStep

end

------------------------------------------------------------
-- Orderly Shutdown
------------------------------------------------------------

/- Pops still to come once polling has stopped. -/
def LoopPhase.popsLeft : LoopPhase → Nat
| .popping => 1
| _ => 0

/- Steps still to come once polling has stopped. -/
def LoopPhase.stepsLeft : LoopPhase → Nat
| .popping => 4
| .processing => 3
| .pausing _ => 2
| .testing => 1
| .ended => 0

def stepsLeft (loops : List Loop) : Nat :=
  (loops.map (fun l => l.phase.stepsLeft)).sum

/- What `Shutdown` has waited for, by where it is. -/
def ClosingOk (s : Life) : Prop :=
  match s.closing with
  | .notCalled => s.aborted = false
  | .draining limit =>
      s.aborted = false ∧ s.drainUntil = some limit
  | .aborting limit =>
      s.aborted = true ∧
        ∃ first, s.drainUntil = some first ∧
          first ≤ s.clock ∧ first + recordTimeout ≤ limit
  | .closed =>
      ((∃ at_, s.stage = .returned at_) ∧
          (s.aborted = true →
            ∃ first, s.drainUntil = some first ∧
              first ≤ s.clock)) ∨
        s.aborted = true ∧
          ∃ first, s.drainUntil = some first ∧
            first + recordTimeout ≤ s.clock

structure Orderly (s : Life) : Prop where
  pops :
    ∀ l ∈ s.loops, l.latePops + l.phase.popsLeft ≤ 1
  early :
    s.cancelled = false →
      s.lateSteps = 0 ∧ ∀ l ∈ s.loops, l.latePops = 0
  steps :
    s.lateSteps + stepsLeft s.loops ≤ 4 * s.loops.length
  returned :
    ∀ at_, s.stage = .returned at_ →
      ∀ l ∈ s.loops, l.phase = .ended
  closing : ClosingOk s

section

variable {T : Timing}
variable {label : Label}
variable {s s' : Life}
variable {clock : Time}
variable {cancelled : Bool}
variable {act : Act}
variable {l l' : Loop}

theorem LoopPhase.stepsLeft_le
    (phase : LoopPhase) :
    phase.stepsLeft ≤ 4 := by
  cases phase <;> simp [LoopPhase.stepsLeft]

/- After the stop every step of a goroutine is progress. -/
theorem Loop.Moves.stepsLeft
    (hMoves : l.Moves clock true l') :
    l'.phase.stepsLeft + 1 ≤ l.phase.stepsLeft := by
  cases hMoves with
  | ends hPhase _ =>
      rcases hPhase with hPhase | hPhase <;>
        simp [hPhase, Loop.moveTo, LoopPhase.stepsLeft]
  | polls _ hGoing => cases hGoing
  | pops hPhase =>
      simp [hPhase, LoopPhase.stepsLeft]
  | tests hPhase =>
      rcases hPhase with hPhase | hPhase | ⟨limit, hPhase⟩ <;>
        simp [hPhase, Loop.moveTo, LoopPhase.stepsLeft]
  | pauses hPhase =>
      rcases hPhase with ⟨_, hGoing⟩ | hPhase
      · cases hGoing
      · simp [hPhase, Loop.moveTo, LoopPhase.stepsLeft]

/- A goroutine pops at most once after the stop. -/
theorem Loop.Moves.latePops
    (hMoves : l.Moves clock cancelled l')
    (hPops : l.latePops + l.phase.popsLeft ≤ 1)
    (hEarly : cancelled = false → l.latePops = 0) :
    l'.latePops + l'.phase.popsLeft ≤ 1 ∧
      (cancelled = false → l'.latePops = 0) := by
  cases hMoves with
  | ends | tests | pauses =>
      refine ⟨?_, hEarly⟩
      simp only [Loop.moveTo, LoopPhase.popsLeft]
      omega
  | polls hPhase hGoing =>
      have hNone := hEarly hGoing
      refine ⟨?_, hEarly⟩
      simp [Loop.moveTo, LoopPhase.popsLeft, hNone]
  | pops hPhase =>
      rw [hPhase] at hPops
      cases cancelled with
      | false =>
          have hNone := hEarly rfl
          simp [LoopPhase.popsLeft, hNone]
      | true =>
          refine ⟨hPops, ?_⟩
          intro hGoing
          cases hGoing

theorem stepsLeft_split
    (l₁ l₂ : List Loop)
    (l : Loop) :
    stepsLeft (l₁ ++ l :: l₂) =
      stepsLeft (l₁ ++ l₂) + l.phase.stepsLeft := by
  simp only [stepsLeft, List.map_append, List.map_cons,
    List.sum_append, List.sum_cons]
  omega

theorem stepsLeft_le
    (loops : List Loop) :
    stepsLeft loops ≤ 4 * loops.length := by
  induction loops with
  | nil => exact Nat.le_refl 0
  | cons l loops ih =>
      have hOne := l.phase.stepsLeft_le
      simp only [stepsLeft, List.map_cons, List.sum_cons,
        List.length_cons] at ih ⊢
      omega

theorem Orderly.loop
    (hInv : Orderly s)
    {h : Holder}
    {l₁ l₂ : List Loop}
    (hStage : s.stage = .running h)
    (hSplit : s.loops = l₁ ++ l :: l₂)
    (hMoves : l.Moves s.clock s.cancelled l') :
    Orderly
      { s with
        loops := l₁ ++ l' :: l₂
        lateSteps := s.lateSteps + s.cancelled.toNat } := by
  have hMem : l ∈ s.loops := self_mem_of_split hSplit
  have hOne :=
    hMoves.latePops (hInv.pops l hMem)
      (fun hGoing => (hInv.early hGoing).2 l hMem)
  refine ⟨?_, ?_, ?_, ?_, ?_⟩
  · intro k hk
    rcases mem_split_iff.mp hk with hMoved | hOther
    · subst hMoved
      exact hOne.1
    · exact hInv.pops k (mem_of_split hSplit hOther)
  · intro hGoing
    have hEarly := hInv.early hGoing
    refine ⟨?_, ?_⟩
    · have hStopped : s.cancelled = false := hGoing
      simp [hStopped, hEarly.1]
    · intro k hk
      rcases mem_split_iff.mp hk with hMoved | hOther
      · subst hMoved
        exact hOne.2 hGoing
      · exact hEarly.2 k (mem_of_split hSplit hOther)
  · have hLength :
        (l₁ ++ l' :: l₂).length = s.loops.length := by
      rw [hSplit]
      simp
    have hSteps := hInv.steps
    rw [hSplit, stepsLeft_split] at hSteps
    cases hStopped : s.cancelled with
    | false =>
        have hNone := (hInv.early hStopped).1
        have hAll := stepsLeft_le (l₁ ++ l' :: l₂)
        simp only [hNone, Bool.toNat_false]
        omega
    | true =>
        rw [hStopped] at hMoves
        have hProgress := hMoves.stepsLeft
        rw [← hSplit] at hSteps
        simp only [Bool.toNat_true, stepsLeft_split, hLength]
        omega
  · intro at_ hReturned
    cases hStage.symm.trans hReturned
  · exact hInv.closing

/- Steps that leave `Shutdown` alone. -/
theorem ClosingOk.frame
    (hOk : ClosingOk s)
    (hClosing : s'.closing = s.closing)
    (hAborted : s'.aborted = s.aborted)
    (hDrain : s'.drainUntil = s.drainUntil)
    (hClock : s.clock ≤ s'.clock)
    (hStage :
      ∀ at_, s.stage = .returned at_ →
        s'.stage = .returned at_) :
    ClosingOk s' := by
  unfold ClosingOk at hOk ⊢
  rw [hClosing, hAborted, hDrain]
  cases hPhase : s.closing with
  | notCalled =>
      rw [hPhase] at hOk
      exact hOk
  | draining limit =>
      rw [hPhase] at hOk
      exact hOk
  | aborting limit =>
      rw [hPhase] at hOk
      rcases hOk with ⟨hAbort, first, hFirst, hPast, hLimit⟩
      exact
        ⟨hAbort, first, hFirst, hPast.trans hClock, hLimit⟩
  | closed =>
      rw [hPhase] at hOk
      rcases hOk with
        ⟨⟨at_, hReturned⟩, hWaited⟩ | ⟨hAbort, first, hFirst, hPast⟩
      · refine .inl ⟨⟨at_, hStage at_ hReturned⟩, ?_⟩
        intro hAbort
        rcases hWaited hAbort with ⟨first, hFirst, hPast⟩
        exact ⟨first, hFirst, hPast.trans hClock⟩
      · exact .inr
          ⟨hAbort, first, hFirst, hPast.trans hClock⟩

/- Steps that leave the loops and `Shutdown` alone. -/
theorem Orderly.frame
    (hInv : Orderly s)
    (hLoops : s'.loops = s.loops)
    (hCancelled : s'.cancelled = s.cancelled)
    (hSteps : s'.lateSteps = s.lateSteps)
    (hReturned :
      ∀ at_, s'.stage = .returned at_ →
        ∀ l ∈ s.loops, l.phase = .ended)
    (hClosing : ClosingOk s') :
    Orderly s' where
  pops := by
    rw [hLoops]
    exact hInv.pops
  early := by
    rw [hLoops, hCancelled, hSteps]
    exact hInv.early
  steps := by
    rw [hLoops, hSteps]
    exact hInv.steps
  returned := by
    rw [hLoops]
    exact hReturned
  closing := hClosing

/- A change of stage, to one that is not the last. -/
theorem Orderly.stage
    (hInv : Orderly s)
    {stage : Stage}
    {key : Option Time}
    (hOld : ∀ at_, s.stage ≠ .returned at_)
    (hNew :
      ∀ at_, stage = .returned at_ →
        ∀ l ∈ s.loops, l.phase = .ended) :
    Orderly { s with stage := stage, key := key } := by
  refine hInv.frame rfl rfl rfl hNew ?_
  refine hInv.closing.frame rfl rfl rfl le_rfl ?_
  intro at_ hReturned
  exact absurd hReturned (hOld at_)

/- Steps that concern the key or the clock only. -/
theorem Orderly.outside
    (hInv : Orderly s)
    {clock : Time}
    {taking takes : Nat}
    (hClock : s.clock ≤ clock) :
    Orderly
      { s with
        clock := clock
        taking := taking
        takes := takes } := by
  refine hInv.frame rfl rfl rfl hInv.returned ?_
  exact hInv.closing.frame rfl rfl rfl hClock
    (fun _ hReturned => hReturned)

/- Polling stops. -/
theorem Orderly.cancel
    (hInv : Orderly s) :
    Orderly { s with cancelled := true } where
  pops := hInv.pops
  early := by
    intro hGoing
    cases hGoing
  steps := hInv.steps
  returned := hInv.returned
  closing :=
    hInv.closing.frame rfl rfl rfl le_rfl
      (fun _ hReturned => hReturned)

/- A step of `Shutdown`. -/
theorem Orderly.shutdown
    (hInv : Orderly s)
    {aborted : Bool}
    {closing : Closing}
    {drainUntil : Option Time}
    (hClosing :
      ClosingOk
        { s with
          aborted := aborted
          closing := closing
          drainUntil := drainUntil }) :
    Orderly
      { s with
        aborted := aborted
        closing := closing
        drainUntil := drainUntil } :=
  hInv.frame rfl rfl rfl hInv.returned hClosing

theorem Orderly.step
    (hInv : Orderly s)
    (hStep : s.step T label = some s') :
    Orderly s' := by
  have hClosing := hInv.closing
  unfold ClosingOk at hClosing
  cases Life.effect_of_step hStep with
  | mark ok hStage =>
      cases ok <;>
        exact hInv.stage (by simp [hStage]) (by simp)
  | start sent hStage =>
      exact hInv.stage (by simp [hStage]) (by simp)
  | beat h hStage _ =>
      exact hInv.stage (by simp [hStage]) (by simp)
  | miss h hStage =>
      exact hInv.stage (by simp [hStage]) (by simp)
  | return_ h hStage hEnded =>
      exact hInv.stage (by simp [hStage])
        (fun _ _ => hEnded)
  | die hStage =>
      refine hInv.stage ?_ (by simp)
      rcases hStage with ⟨sent, hStage⟩ | ⟨h, hStage⟩ <;>
        simp [hStage]
  | loop act h hStage hSplit hMoves =>
      exact hInv.loop hStage hSplit hMoves
  | cancel => exact hInv.cancel
  | shutdown timeout hNot =>
      rw [hNot] at hClosing
      exact hInv.shutdown ⟨hClosing, rfl⟩
  | awaitDone at_ hWaits hStage =>
      refine hInv.shutdown (.inl ⟨⟨at_, hStage⟩, ?_⟩)
      intro hAbort
      rcases hWaits with ⟨limit, hPhase⟩ | ⟨limit, hPhase⟩
      · rw [hPhase] at hClosing
        rw [hClosing.1] at hAbort
        cases hAbort
      · rw [hPhase] at hClosing
        rcases hClosing with ⟨_, first, hFirst, hPast, _⟩
        exact ⟨first, hFirst, hPast⟩
  | timeout limit hPhase hLimit =>
      rw [hPhase] at hClosing
      exact hInv.shutdown
        ⟨rfl, limit, hClosing.2, hLimit,
          Int.add_le_add_right hLimit _⟩
  | giveUp limit hPhase hLimit =>
      rw [hPhase] at hClosing
      rcases hClosing with ⟨hAbort, first, hFirst, _, hLast⟩
      exact hInv.shutdown
        (.inr ⟨hAbort, first, hFirst, hLast.trans hLimit⟩)
  | found _ => exact hInv
  | suspect _ _ => exact hInv.outside le_rfl
  | take _ => exact hInv.outside le_rfl
  | tick n _ =>
      exact hInv.outside
        (Int.le_add_of_nonneg_right (Int.natCast_nonneg n))

theorem orderly_of_reachable
    (hReach : (life T).Reachable s) :
    Orderly s := by
  refine Machine.ReachableWith.invariant ?_ ?_ hReach
  · rintro s ⟨hStage, _, hLoops, _, hAborted, hClosing, _,
      _, hSteps, _⟩
    have hTesting :
        ∀ l ∈ s.loops, l.latePops + l.phase.popsLeft = 0 := by
      intro l hl
      rw [hLoops l hl]
      rfl
    refine ⟨?_, ?_, ?_, ?_, ?_⟩
    · intro l hl
      rw [hTesting l hl]
      exact Nat.zero_le 1
    · intro _
      refine ⟨hSteps, ?_⟩
      intro l hl
      rw [hLoops l hl]
    · rw [hSteps, Nat.zero_add]
      exact stepsLeft_le s.loops
    · intro at_ hReturned
      rw [hStage] at hReturned
      cases hReturned
    · unfold ClosingOk
      rw [hClosing]
      exact hAborted
  · intro s label s' _ hInv _ hStep
    exact hInv.step hStep

/- Jobs are aborted only when `Shutdown` has waited. -/
theorem ClosingOk.of_aborted
    (hOk : ClosingOk s)
    (hAborted : s.aborted = true) :
    ∃ first, s.drainUntil = some first ∧
      first ≤ s.clock := by
  unfold ClosingOk at hOk
  cases hPhase : s.closing with
  | notCalled =>
      rw [hPhase, hAborted] at hOk
      cases hOk
  | draining limit =>
      rw [hPhase, hAborted] at hOk
      cases hOk.1
  | aborting limit =>
      rw [hPhase] at hOk
      rcases hOk with ⟨_, first, hFirst, hPast, _⟩
      exact ⟨first, hFirst, hPast⟩
  | closed =>
      rw [hPhase] at hOk
      rcases hOk with ⟨_, hWaited⟩ | ⟨_, first, hFirst, hPast⟩
      · exact hWaited hAborted
      · have hNonneg : 0 ≤ recordTimeout := by decide
        exact ⟨first, hFirst,
          (Int.le_add_of_nonneg_right hNonneg).trans hPast⟩

/-
  `Run` returns only when no job is in flight. After the stop
  every goroutine pops at most one more job and ends within
  four of its steps. Jobs are aborted only when the time that
  `Shutdown` was given is over, and `Shutdown` returns only
  when `Run` has, or else after another `recordTimeout`.
-/
theorem shutdown_is_orderly
    (hReach : (life T).Reachable s) :
    (∀ at_, s.stage = .returned at_ →
        ∀ l ∈ s.loops, l.phase = .ended) ∧
      (∀ l ∈ s.loops, l.latePops ≤ 1) ∧
      s.lateSteps + stepsLeft s.loops ≤
        4 * s.loops.length ∧
      (s.aborted = true →
        ∃ first, s.drainUntil = some first ∧
          first ≤ s.clock) ∧
      (s.closing = .closed →
        (∃ at_, s.stage = .returned at_) ∨
          s.aborted = true ∧
            ∃ first, s.drainUntil = some first ∧
              first + recordTimeout ≤ s.clock) := by
  have hInv := orderly_of_reachable hReach
  refine ⟨hInv.returned, ?_, hInv.steps,
    hInv.closing.of_aborted, ?_⟩
  · intro l hl
    exact Nat.le_trans (Nat.le_add_right _ _)
      (hInv.pops l hl)
  · intro hOver
    have hClosing := hInv.closing
    unfold ClosingOk at hClosing
    rw [hOver] at hClosing
    rcases hClosing with ⟨hReturned, _⟩ | hWaited
    · exact .inl hReturned
    · exact .inr hWaited

end

namespace Sample

def timing : Timing where
  lag := second
  delay := second
  misses := 1

/- A worker with two goroutines. -/
def start : Life where
  clock := 0
  stage := .fresh
  key := none
  loops := [⟨.testing, 0⟩, ⟨.testing, 0⟩]
  cancelled := false
  aborted := false
  closing := .notCalled
  taking := 0
  takes := 0
  lateSteps := 0
  drainUntil := none

theorem init_start : (life timing).init start := by
  refine ⟨rfl, rfl, ?_, rfl, rfl, rfl, rfl, rfl, rfl, rfl⟩
  simp [start]

/-
  `Shutdown` finds one job in flight, another is popped just
  then, and only one of the two ends before the abort.
-/
def shutdownLabels : List Label :=
  [.mark true, .start, .loop 0 .test, .loop 0 .popped,
    .loop 1 .test, .shutdown second, .watch,
    .loop 1 .popped, .loop 1 (.processed true),
    .loop 1 .test, .tick 1000000, .timeout,
    .loop 0 (.processed true), .loop 0 .test, .return_,
    .awaitDone]

end Sample

theorem shutdown_aborts_one_of_two :
    ∃ s, (life Sample.timing).Reachable s ∧
      s.closing = .closed ∧ s.aborted = true ∧
      s.lateSteps = 5 ∧
      (∀ at_, s.stage = .returned at_ →
          ∀ l ∈ s.loops, l.phase = .ended) ∧
        (∀ l ∈ s.loops, l.latePops ≤ 1) ∧
        s.lateSteps + stepsLeft s.loops ≤
          4 * s.loops.length ∧
        (s.aborted = true →
          ∃ first, s.drainUntil = some first ∧
            first ≤ s.clock) ∧
        (s.closing = .closed →
          (∃ at_, s.stage = .returned at_) ∨
            s.aborted = true ∧
              ∃ first, s.drainUntil = some first ∧
                first + recordTimeout ≤ s.clock) := by
  rcases
    Machine.exists_reachable_of_run Sample.init_start
      Sample.shutdownLabels
      (fun s =>
        s.closing = .closed ∧ s.aborted = true ∧
          s.lateSteps = 5)
      (by decide +kernel)
  with ⟨s, hReach, hOver, hAborted, hSteps⟩
  exact ⟨s, hReach, hOver, hAborted, hSteps,
    shutdown_is_orderly hReach⟩

------------------------------------------------------------
-- Signs Of Life
------------------------------------------------------------

/- The first mark succeeds, and few in a row fail. -/
def reliable (T : Timing) (s : Life) : Label → Bool
| .mark ok => ok
| .miss =>
    match s.stage with
    | .running h => h.missed < T.misses
    | _ => true
| _ => true

/- Nobody has suspected the worker. -/
def Trusted (s : Life) : Prop :=
  s.taking = 0 ∧ s.takes = 0

/- What holds of the key, by where `Run` is. -/
def Watched (T : Timing) (s : Life) : Prop :=
  match s.stage with
  | .fresh => Trusted s
  | .marked sent =>
      s.key = some (sent + workerAliveTTL) ∧
        s.clock ≤ sent + T.lag ∧ Trusted s
  | .running h =>
      s.key = some h.expires ∧ h.Safe T.terms ∧
        s.clock ≤ h.due + T.delay ∧ Trusted s
  | _ => True

/- A key outlives the last mark by its time to live. -/
def Fading (s : Life) : Prop :=
  ∀ t, s.key = some t →
    match s.stage with
    | .returned at_ => t ≤ at_ + workerAliveTTL
    | .dead at_ => t ≤ at_ + workerAliveTTL
    | _ => t ≤ s.clock + workerAliveTTL

structure Timing.Sufficient (T : Timing) : Prop where
  lag : 0 ≤ T.lag
  delay : 0 ≤ T.delay
  covered :
    T.lag + (T.misses + 1) * (workerAliveTTL / 3) +
        T.delay ≤
      workerAliveTTL

section

variable {T : Timing}
variable {label : Label}
variable {s s' : Life}

theorem Timing.Sufficient.lasting
    (hT : T.Sufficient) :
    T.terms.Lasting where
  lag := hT.lag
  lifetime := by
    have hCovered := hT.covered
    simp only [Timing.terms, add_zero]
    exact hCovered

theorem interval_nonneg : 0 ≤ workerAliveTTL / 3 := by
  decide

/- A worker that is marked or running has its key. -/
theorem Watched.alive
    (hT : T.Sufficient)
    (hWatched : Watched T s)
    (hStage :
      (∃ sent, s.stage = .marked sent) ∨
        ∃ h, s.stage = .running h) :
    s.alive = true := by
  unfold Watched at hWatched
  unfold Life.alive
  rcases hStage with ⟨sent, hStage⟩ | ⟨h, hStage⟩
  · rw [hStage] at hWatched
    rcases hWatched with ⟨hKey, hNow, _⟩
    rw [hKey]
    refine decide_eq_true (hNow.trans ?_)
    have hCovered := hT.covered
    have hDelay := hT.delay
    have hBeats :
        0 ≤ ((T.misses : Int) + 1) * (workerAliveTTL / 3) :=
      mul_nonneg (by omega) interval_nonneg
    linarith
  · rw [hStage] at hWatched
    rcases hWatched with ⟨hKey, hSafe, hNow, _⟩
    rw [hKey]
    refine decide_eq_true ?_
    refine hSafe.unexpired interval_nonneg ?_
    simp only [Timing.terms, add_zero]
    exact hNow

/- Until the end nobody has suspected the worker. -/
theorem Watched.trusted
    (hWatched : Watched T s)
    (hStage : ∀ at_, s.stage ≠ .returned at_)
    (hAlive : ∀ at_, s.stage ≠ .dead at_) :
    Trusted s := by
  unfold Watched at hWatched
  cases hPhase : s.stage with
  | fresh =>
      rw [hPhase] at hWatched
      exact hWatched
  | marked sent =>
      rw [hPhase] at hWatched
      exact hWatched.2.2
  | running h =>
      rw [hPhase] at hWatched
      exact hWatched.2.2.2
  | returned at_ => exact absurd hPhase (hStage at_)
  | dead at_ => exact absurd hPhase (hAlive at_)

/- A suspected worker is at its end. -/
theorem Watched.of_suspected
    (hWatched : Watched T s)
    (hSuspected : ¬Trusted s)
    (hStage : s'.stage = s.stage) :
    Watched T s' := by
  have hGone :
      (∃ at_, s.stage = .returned at_) ∨
        ∃ at_, s.stage = .dead at_ := by
    by_contra hNot
    rw [not_or, not_exists, not_exists] at hNot
    exact hSuspected (hWatched.trusted hNot.1 hNot.2)
  unfold Watched
  rw [hStage]
  rcases hGone with ⟨at_, hGone⟩ | ⟨at_, hGone⟩
  · rw [hGone]
    trivial
  · rw [hGone]
    trivial

theorem Watched.step
    (hT : T.Sufficient)
    (hWatched : Watched T s)
    (hReliable : reliable T s label = true)
    (hStep : s.step T label = some s') :
    Watched T s' := by
  have hLag := hT.lag
  have hDelay := hT.delay
  have hInterval := interval_nonneg
  have hNow := hWatched
  unfold Watched at hNow
  cases Life.effect_of_step hStep with
  | mark ok hStage =>
      cases ok with
      | false => cases hReliable
      | true =>
          rw [hStage] at hNow
          exact ⟨rfl, Int.le_add_of_nonneg_right hLag, hNow⟩
  | start sent hStage =>
      rw [hStage] at hNow
      rcases hNow with ⟨hKey, hSent, hTrusted⟩
      refine ⟨hKey, Holder.safe_started hT.lasting hSent,
        ?_, hTrusted⟩
      simp only [Holder.started, Timing.terms]
      linarith
  | beat h hStage hDue =>
      rw [hStage] at hNow
      rcases hNow with ⟨_, _, hClock, hTrusted⟩
      refine ⟨rfl, Holder.safe_renew hT.lasting hDue, ?_,
        hTrusted⟩
      simp only [Holder.renew, Timing.terms, Life.markAlive]
      linarith
  | miss h hStage =>
      simp only [reliable, hStage] at hReliable
      rw [hStage] at hNow
      rcases hNow with ⟨hKey, hSafe, hClock, hTrusted⟩
      refine ⟨hKey, hSafe.miss (of_decide_eq_true hReliable),
        ?_, hTrusted⟩
      simp only [Holder.miss, Timing.terms]
      linarith
  | return_ => trivial
  | die => trivial
  | loop | cancel | shutdown | awaitDone | timeout | giveUp
  | found =>
      exact hWatched
  | suspect hStage hGone =>
      by_cases hTrusted : Trusted s
      · unfold Watched
        cases hPhase : s.stage with
        | fresh => exact absurd hPhase hStage
        | marked sent =>
            rw [hWatched.alive hT (.inl ⟨sent, hPhase⟩)]
              at hGone
            cases hGone
        | running h =>
            rw [hWatched.alive hT (.inr ⟨h, hPhase⟩)]
              at hGone
            cases hGone
        | returned at_ => trivial
        | dead at_ => trivial
      · exact hWatched.of_suspected hTrusted rfl
  | take hTaking =>
      refine hWatched.of_suspected ?_ rfl
      intro hTrusted
      rw [hTrusted.1] at hTaking
      cases hTaking
  | tick n hDue =>
      unfold Life.due? at hDue
      unfold Watched
      cases hPhase : s.stage with
      | fresh =>
          rw [hPhase] at hNow
          exact hNow
      | marked sent =>
          rw [hPhase] at hNow hDue
          exact ⟨hNow.1, hDue _ rfl, hNow.2.2⟩
      | running h =>
          rw [hPhase] at hNow hDue
          exact ⟨hNow.1, hNow.2.1, hDue _ rfl, hNow.2.2.2⟩
      | returned at_ => trivial
      | dead at_ => trivial

theorem watched_of_reachable
    (hT : T.Sufficient)
    (hReach :
      (life T).ReachableWith
        (fun s label => reliable T s label = true) s) :
    Watched T s := by
  refine Machine.ReachableWith.invariant ?_ ?_ hReach
  · rintro s ⟨hStage, _, _, _, _, _, hTaking, hTakes, _, _⟩
    unfold Watched
    rw [hStage]
    exact ⟨hTaking, hTakes⟩
  · intro s label s' _ hInv hReliable hStep
    exact hInv.step hT hReliable hStep

theorem Fading.step
    (hFading : Fading s)
    (hStep : s.step T label = some s') :
    Fading s' := by
  unfold Fading at hFading
  cases Life.effect_of_step hStep with
  | mark ok hStage =>
      rw [hStage] at hFading
      intro t hKey
      cases ok with
      | false => exact hFading t hKey
      | true =>
          cases hKey
          exact le_rfl
  | start sent hStage =>
      rw [hStage] at hFading
      exact hFading
  | beat h hStage _ =>
      intro t hKey
      cases hKey
      exact le_rfl
  | miss h hStage =>
      rw [hStage] at hFading
      exact hFading
  | return_ h hStage _ =>
      rw [hStage] at hFading
      exact hFading
  | die hStage =>
      rcases hStage with ⟨sent, hStage⟩ | ⟨h, hStage⟩
      · rw [hStage] at hFading
        exact hFading
      · rw [hStage] at hFading
        exact hFading
  | loop | cancel | shutdown | awaitDone | timeout | giveUp
  | found | suspect | take =>
      exact hFading
  | tick n _ =>
      intro t hKey
      have hOld := hFading t hKey
      have hNonneg : (0 : Int) ≤ n := Int.natCast_nonneg n
      cases hPhase : s.stage with
      | returned at_ =>
          rw [hPhase] at hOld
          exact hOld
      | dead at_ =>
          rw [hPhase] at hOld
          exact hOld
      | fresh | marked | running =>
          rw [hPhase] at hOld
          simp only at hOld ⊢
          linarith

theorem fading_of_reachable
    (hReach : (life T).Reachable s) :
    Fading s := by
  refine Machine.ReachableWith.invariant ?_ ?_ hReach
  · rintro s ⟨_, hKey, _⟩ t hSome
    rw [hKey] at hSome
    cases hSome
  · intro s label s' _ hInv _ hStep
    exact hInv.step hStep

/-
  While `Run` goes on, draining included, every scheduler
  finds the worker alive, and none has taken or is about to
  take its list. A worker that has died or returned is found
  gone once the time to live is over.
-/
theorem running_worker_keeps_its_list
    (hT : T.Sufficient)
    (hReach :
      (life T).ReachableWith
        (fun s label => reliable T s label = true) s) :
    (∀ h, s.stage = .running h →
        s.alive = true ∧ s.taking = 0 ∧ s.takes = 0) ∧
      ∀ at_,
        s.stage = .returned at_ ∨ s.stage = .dead at_ →
          at_ + workerAliveTTL < s.clock →
            s.alive = false := by
  have hWatched := watched_of_reachable hT hReach
  constructor
  · intro h hStage
    have hTrusted : Trusted s := by
      refine hWatched.trusted ?_ ?_
      · intro at_ hReturned
        cases hStage.symm.trans hReturned
      · intro at_ hDead
        cases hStage.symm.trans hDead
    exact ⟨hWatched.alive hT (.inr ⟨h, hStage⟩), hTrusted⟩
  · intro at_ hGone hLate
    have hFading := fading_of_reachable hReach.reachable
    unfold Fading at hFading
    unfold Life.alive
    cases hKey : s.key with
    | none => rfl
    | some t =>
        have hBound : t ≤ at_ + workerAliveTTL := by
          have hOld := hFading t hKey
          rcases hGone with hStage | hStage
          · rw [hStage] at hOld
            exact hOld
          · rw [hStage] at hOld
            exact hOld
        exact decide_eq_false
          (not_le.mpr (lt_of_le_of_lt hBound hLate))

end

namespace Sample

theorem sufficient_timing : timing.Sufficient where
  lag := by decide
  delay := by decide
  covered := by decide

/-
  A worker drains for a minute and goes on beating, with one
  failure; a scheduler looks at it meanwhile.
-/
def beats : List Label :=
  [.mark true, .tick 1000000, .start, .loop 0 .test,
    .loop 0 .popped, .shutdown (60 * second), .watch,
    .tick 5000000, .beat, .tick 5000000, .miss,
    .tick 5000000, .beat, .check, .tick 5000000]

end Sample

theorem draining_worker_keeps_its_list :
    ∃ s h, (life Sample.timing).ReachableWith
        (fun s label =>
          reliable Sample.timing s label = true) s ∧
      s.stage = .running h ∧ s.cancelled = true ∧
      s.clock = 21 * second ∧
      s.alive = true ∧ s.taking = 0 ∧ s.takes = 0 := by
  rcases
    Machine.exists_reachableWith_of_run Sample.init_start
      (reliable Sample.timing) Sample.beats
      (fun s =>
        s.cancelled = true ∧ s.clock = 21 * second ∧
          (match s.stage with
            | .running _ => true
            | _ => false) = true)
      (by decide +kernel)
  with ⟨s, hReach, hStop, hClock, hRunning⟩
  split at hRunning
  case h_2 => cases hRunning
  rename_i h hStage
  exact ⟨s, h, hReach, hStage, hStop, hClock,
    (running_worker_keeps_its_list Sample.sufficient_timing
      hReach).1 h hStage⟩

end Lifetime

end Worker

end Sluice
