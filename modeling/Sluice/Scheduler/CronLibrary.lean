import Sluice.Scheduler.Requests

/-
  What is assumed of the library that computes occurrences.

  `Next` returns the first matching instant after its
  argument. It gives up after five years, and then returns
  the zero time: an expression such as day 30 of month 2 is
  accepted although it never matches.

  Key definitions include:
    * `zeroTime`
    * `CronLibrary`
    * `CronLibrary.Recurs`

  Key theorems include:
    * `CronLibrary.occurs_next`
    * `CronLibrary.lt_next_iff`
-/

------------------------------------------------------------
-- The Library
------------------------------------------------------------

namespace Sluice

namespace Scheduler

namespace Cron

/- `time.Time{}`: the first instant of the year 1. -/
def zeroTime : Time := -62135596800 * second

/-
  `occurs cron timezone t` tells that the expression matches
  the instant `t`, and `searchEnd now` is the end of the
  five years in which `Next` looks for a match.
-/
structure CronLibrary extends RequestParsers where
  occurs : String → String → Time → Prop
  searchEnd : Time → Time
  next_first :
    ∀ {cron timezone : String} {now t : Time},
      next cron timezone now = some t →
        (∃ u, now < u ∧ u ≤ searchEnd now ∧
          occurs cron timezone u) →
          now < t ∧ occurs cron timezone t ∧
            ∀ u, now < u → occurs cron timezone u → t ≤ u
  next_zero :
    ∀ {cron timezone : String} {now t : Time},
      next cron timezone now = some t →
        (¬∃ u, now < u ∧ u ≤ searchEnd now ∧
          occurs cron timezone u) →
          t = zeroTime

namespace CronLibrary

variable (L : CronLibrary)
variable {cron timezone : String}
variable {now t : Time}

/- The expression matches within five years after `now`. -/
def Recurs (cron timezone : String) (now : Time) : Prop :=
  ∃ u, now < u ∧ u ≤ L.searchEnd now ∧
    L.occurs cron timezone u

variable {L}

theorem occurs_next
    (hNext : L.next cron timezone now = some t)
    (hRecurs : L.Recurs cron timezone now) :
    L.occurs cron timezone t :=
  (L.next_first hNext hRecurs).2.1

/- The computed run is later, unless there was none to find. -/
theorem lt_next_iff
    (hNext : L.next cron timezone now = some t) :
    now < t ↔
      L.Recurs cron timezone now ∨ now < zeroTime := by
  by_cases hRecurs : L.Recurs cron timezone now
  · have hLater : now < t := (L.next_first hNext hRecurs).1
    exact ⟨fun _ => .inl hRecurs, fun _ => hLater⟩
  · rw [L.next_zero hNext hRecurs]
    exact ⟨.inr, fun h => h.resolve_left hRecurs⟩

end CronLibrary

------------------------------------------------------------
-- A Sample Library
------------------------------------------------------------

namespace SampleLibrary

def minute : Int := 60000000

def hour : Int := 60 * minute

/- The first multiple of a period after a time. -/
def nextMultiple (period now : Int) : Int :=
  (now / period + 1) * period

def fiveYears : Int := 5 * 365 * 24 * hour

theorem lt_nextMultiple
    {period : Int}
    (hPos : 0 < period)
    (now : Int) :
    now < nextMultiple period now :=
  Int.lt_mul_of_ediv_lt hPos (Int.lt_succ _)

theorem nextMultiple_le
    {period : Int}
    (hPos : 0 < period)
    (now : Int) :
    nextMultiple period now ≤ now + period := by
  unfold nextMultiple
  rw [Int.add_mul, Int.one_mul]
  exact Int.add_le_add_right
    (Int.ediv_mul_le now (ne_of_gt hPos)) period

theorem nextMultiple_le_of_multiple
    {period now t : Int}
    (hPos : 0 < period)
    (hLater : now < t)
    (hMultiple : t % period = 0) :
    nextMultiple period now ≤ t := by
  have hWhole : t / period * period = t :=
    Int.ediv_mul_cancel_of_emod_eq_zero hMultiple
  have hBelow : now / period < t / period := by
    apply Int.ediv_lt_of_lt_mul hPos
    rw [hWhole]
    exact hLater
  calc
    nextMultiple period now ≤ t / period * period :=
      Int.mul_le_mul_of_nonneg_right hBelow (le_of_lt hPos)
    _ = t := hWhole

/- Every minute, and every hour. -/
def period? (cron : String) : Option Int :=
  if cron = "* * * * *" then some minute
  else if cron = "0 * * * *" then some hour
  else none

theorem period?_bounds
    {cron : String}
    {period : Int}
    (hPeriod : period? cron = some period) :
    0 < period ∧ period ≤ fiveYears := by
  unfold period? at hPeriod
  split at hPeriod
  · cases hPeriod
    exact ⟨by decide, by decide⟩
  · split at hPeriod
    · cases hPeriod
      exact ⟨by decide, by decide⟩
    · cases hPeriod

/-
  Three expressions: the two that have a period, and one for
  day 30 of month 2.
-/
def library : CronLibrary where
  next := fun cron _ now =>
    match period? cron with
    | some period => some (nextMultiple period now)
    | none =>
        if cron = "0 0 30 2 *" then some zeroTime else none
  template := fun _ => some ⟨"webhook", "", none, none, none⟩
  validateWebhookPayload := fun _ => .ok ()
  nextError := fun _ _ => "invalid cron expression"
  occurs := fun cron _ t =>
    ∃ period, period? cron = some period ∧ t % period = 0
  searchEnd := fun now => now + fiveYears
  next_first := by
    intro cron timezone now t hNext hMatch
    rcases hMatch with ⟨_, _, _, period, hPeriod, _⟩
    have hPos := (period?_bounds hPeriod).1
    have hMultiple : t = nextMultiple period now := by
      rw [hPeriod] at hNext
      exact (Option.some.inj hNext).symm
    rw [hMultiple]
    refine
      ⟨lt_nextMultiple hPos now,
        ⟨period, hPeriod, Int.mul_emod_left _ _⟩, ?_⟩
    rintro u hLater ⟨period', hPeriod', hZero⟩
    have hSame : period' = period :=
      Option.some.inj (hPeriod'.symm.trans hPeriod)
    rw [hSame] at hZero
    exact nextMultiple_le_of_multiple hPos hLater hZero
  next_zero := by
    intro cron timezone now t hNext hNone
    cases hPeriod : period? cron with
    | some period =>
        rcases period?_bounds hPeriod with ⟨hPos, hShort⟩
        have hSoon :
            nextMultiple period now ≤ now + fiveYears :=
          le_trans (nextMultiple_le hPos now)
            (Int.add_le_add_left hShort now)
        exact absurd
          ⟨nextMultiple period now,
            lt_nextMultiple hPos now, hSoon, period,
            hPeriod, Int.mul_emod_left _ _⟩
          hNone
    | none =>
        simp only [hPeriod] at hNext
        split at hNext
        · exact (Option.some.inj hNext).symm
        · cases hNext

theorem recurs_everyMinute
    (timezone : String)
    (now : Int) :
    library.Recurs "* * * * *" timezone now := by
  have hPos : 0 < minute := by decide
  have hSoon :
      nextMultiple minute now ≤ now + fiveYears :=
    le_trans (nextMultiple_le hPos now)
      (Int.add_le_add_left (by decide) now)
  exact
    ⟨nextMultiple minute now, lt_nextMultiple hPos now,
      hSoon, minute, rfl, Int.mul_emod_left _ _⟩

/- A schedule that runs every minute and is due at zero. -/
def everyMinute (id : Uuid) : Storage.Schedule where
  id := id
  tenantId := 1
  name := Nat.repr id
  cron := "* * * * *"
  timezone := "UTC"
  jobTemplate := ""
  enabled := true
  lastRunAt := none
  nextRunAt := 0

end SampleLibrary

end Cron

end Scheduler

end Sluice
