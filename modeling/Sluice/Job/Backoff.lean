import Mathlib.Algebra.Order.Ring.Int
import Mathlib.Algebra.Order.Monoid.Unbundled.Pow
import Sluice.Job.Basic

/-
  The wait before a retry: `NextRetryAt`.

  The random draw is `rand.Intn`, of which any result in its
  range is possible.

  Key definitions include:
    * `doubled`
    * `backoffDelay` and `jitterOf`
    * `nextRetryAt`
    * `retryValues`

  Key theorems include:
    * `lt_nextRetryAt`
    * `backoffDelay_eq`
    * `nextRetryAt_closed_form`
-/

namespace Sluice

/- The loop that doubles a delay below one hour. -/
def doubled : Nat → Int → Int
| 0, delay => delay
| n + 1, delay =>
    if delay < 3600 then doubled n (delay * 2) else delay

/- The delay in seconds before it is spread out. -/
def backoffDelay (attempt backoffSeconds : Int) : Int :=
  min (doubled attempt.toNat backoffSeconds) 3600

/-
  `int(float64(delay) * 0.2)`; for these delays the product
  is cut off to a fifth.
-/
def jitterOf (delay : Int) : Int :=
  delay.tdiv 5

/- `draw` stands for the state of the random generator. -/
def nextRetryAt
    (attempt backoffSeconds : Int)
    (now : Time)
    (draw : Nat) :
    Time :=
  let delay := backoffDelay attempt backoffSeconds
  let jitter := jitterOf delay
  let spread :=
    if jitter > 0 then
      delay + (draw : Int) % (2 * jitter + 1) - jitter
    else delay
  now + spread * second

variable {delay backoffSeconds : Int}

theorem one_le_doubled
    (n : Nat)
    (hDelay : 1 ≤ delay) :
    1 ≤ doubled n delay := by
  induction n generalizing delay with
  | zero => exact hDelay
  | succ n ih =>
      unfold doubled
      split
      · exact ih (by omega)
      · exact hDelay

theorem one_le_backoffDelay
    (attempt : Int)
    (hBackoff : 1 ≤ backoffSeconds) :
    1 ≤ backoffDelay attempt backoffSeconds := by
  have hDoubled := one_le_doubled attempt.toNat hBackoff
  unfold backoffDelay
  omega

/- The delay after the draw. -/
def spreadDelay (delay : Int) (draw : Nat) : Int :=
  if jitterOf delay > 0 then
    delay + (draw : Int) % (2 * jitterOf delay + 1) -
      jitterOf delay
  else delay

theorem nextRetryAt_eq
    (attempt backoffSeconds : Int)
    (now : Time)
    (draw : Nat) :
    nextRetryAt attempt backoffSeconds now draw =
      now +
        spreadDelay (backoffDelay attempt backoffSeconds)
          draw * second :=
  rfl

theorem jitterOf_eq
    (hDelay : 0 ≤ delay) :
    jitterOf delay = delay / 5 :=
  Int.tdiv_eq_ediv_of_nonneg hDelay

/- The draw moves a delay by at most a fifth. -/
theorem spreadDelay_bounds
    (hDelay : 0 ≤ delay)
    (draw : Nat) :
    delay - delay / 5 ≤ spreadDelay delay draw ∧
      spreadDelay delay draw ≤ delay + delay / 5 := by
  unfold spreadDelay
  rw [jitterOf_eq hDelay]
  split
  · have hDrawn :
        0 ≤ (draw : Int) % (2 * (delay / 5) + 1) :=
      Int.emod_nonneg _ (by omega)
    have hBelow :
        (draw : Int) % (2 * (delay / 5) + 1) <
          2 * (delay / 5) + 1 :=
      Int.emod_lt_of_pos _ (by omega)
    omega
  · omega

theorem spreadDelay_pos
    (hDelay : 1 ≤ delay)
    (draw : Nat) :
    0 < spreadDelay delay draw := by
  have hNonneg : 0 ≤ delay := by omega
  have hBounds := spreadDelay_bounds hNonneg draw
  omega

/- A retry is never due at once. -/
theorem lt_nextRetryAt
    (attempt : Int)
    (hBackoff : 1 ≤ backoffSeconds)
    (now : Time)
    (draw : Nat) :
    now < nextRetryAt attempt backoffSeconds now draw := by
  have hDelay := one_le_backoffDelay attempt hBackoff
  exact Int.lt_add_of_pos_right now
    (Int.mul_pos (spreadDelay_pos hDelay draw) (by decide))

------------------------------------------------------------
-- The Capped Exponential
------------------------------------------------------------

/- The exponential that the loop is meant to compute. -/
def cappedExponential
    (attempt : Nat)
    (backoffSeconds : Int) :
    Int :=
  min (backoffSeconds * 2 ^ attempt) 3600

theorem self_le_mul_two_pow
    (n : Nat)
    (hDelay : 0 ≤ delay) :
    delay ≤ delay * 2 ^ n :=
  le_mul_of_one_le_right hDelay (one_le_pow₀ (by decide))

/-
  The loop gives up its exponent once it is past the cap,
  where the exponential is cut off as well.
-/
theorem min_doubled
    (n : Nat)
    (hDelay : 0 ≤ delay) :
    min (doubled n delay) 3600 =
      min (delay * 2 ^ n) 3600 := by
  induction n generalizing delay with
  | zero => rw [doubled, pow_zero, mul_one]
  | succ n ih =>
      unfold doubled
      split
      · rw [ih (by omega), pow_succ', mul_assoc]
      · have hBeyond :=
          self_le_mul_two_pow (n + 1) hDelay
        omega

theorem backoffDelay_eq
    (attempt : Nat)
    (hBackoff : 0 ≤ backoffSeconds) :
    backoffDelay attempt backoffSeconds =
      cappedExponential attempt backoffSeconds := by
  unfold backoffDelay
  rw [Int.toNat_natCast]
  exact min_doubled attempt hBackoff

theorem cappedExponential_mono_attempt
    {attempt attempt' : Nat}
    (hBackoff : 0 ≤ backoffSeconds)
    (hLe : attempt ≤ attempt') :
    cappedExponential attempt backoffSeconds ≤
      cappedExponential attempt' backoffSeconds := by
  have hPow : (2 : Int) ^ attempt ≤ 2 ^ attempt' :=
    pow_le_pow_right₀ (by decide) hLe
  exact min_le_min_right 3600
    (mul_le_mul_of_nonneg_left hPow hBackoff)

theorem cappedExponential_mono_backoff
    (attempt : Nat)
    {backoffSeconds backoffSeconds' : Int}
    (hLe : backoffSeconds ≤ backoffSeconds') :
    cappedExponential attempt backoffSeconds ≤
      cappedExponential attempt backoffSeconds' := by
  have hPow : (0 : Int) ≤ 2 ^ attempt :=
    pow_nonneg (by decide) attempt
  exact min_le_min_right 3600
    (mul_le_mul_of_nonneg_right hLe hPow)

------------------------------------------------------------
-- The Values On The Way
------------------------------------------------------------

/- The values that `delay` takes in the loop. -/
def doublings : Nat → Int → List Int
| 0, delay => [delay]
| n + 1, delay =>
    if delay < 3600 then
      delay :: doublings n (delay * 2)
    else [delay]

/-
  The numbers of seconds that the calculation goes through,
  in the order in which it computes them.
-/
def retryValues
    (attempt backoffSeconds : Int)
    (draw : Nat) :
    List Int :=
  let delay := backoffDelay attempt backoffSeconds
  let jitter := jitterOf delay
  doublings attempt.toNat backoffSeconds ++ [jitter, delay] ++
    if jitter > 0 then
      let drawn := (draw : Int) % (2 * jitter + 1)
      [2 * jitter, 2 * jitter + 1, drawn, drawn - jitter,
        delay + drawn - jitter]
    else []

/- They end with what the loop returns. -/
theorem doublings_getLast?
    (n : Nat)
    (delay : Int) :
    (doublings n delay).getLast? = some (doubled n delay) := by
  induction n generalizing delay with
  | zero => rfl
  | succ n ih =>
      unfold doublings doubled
      split
      · rw [List.getLast?_cons, ih]
        rfl
      · rfl

/-
  A value is the first one, or twice one below the cap.
-/
theorem mem_doublings
    {n : Nat}
    {delay x : Int}
    (hDelay : 1 ≤ delay)
    (hx : x ∈ doublings n delay) :
    1 ≤ x ∧ (x ≤ delay ∨ x < 7200) := by
  induction n generalizing delay with
  | zero =>
      rw [doublings, List.mem_singleton] at hx
      omega
  | succ n ih =>
      unfold doublings at hx
      split at hx
      · rcases List.mem_cons.mp hx with rfl | hLater
        · omega
        · have hBounds := ih (by omega) hLater
          omega
      · rw [List.mem_singleton] at hx
        omega

/- Twelve doublings reach the cap from any start. -/
theorem length_doublings_le
    {n k : Nat}
    (hDelay : 3600 ≤ delay * 2 ^ k) :
    (doublings n delay).length ≤ k + 1 := by
  induction n generalizing k delay with
  | zero => exact Nat.le_add_left 1 k
  | succ n ih =>
      unfold doublings
      split
      · cases k with
        | zero =>
            rw [pow_zero] at hDelay
            omega
        | succ k =>
            rw [pow_succ', ← mul_assoc] at hDelay
            exact Nat.succ_le_succ (ih hDelay)
      · exact Nat.le_add_left 1 k

/- The last value is the delay that is added to `now`. -/
theorem retryValues_getLast?
    (attempt backoffSeconds : Int)
    (draw : Nat) :
    (retryValues attempt backoffSeconds draw).getLast? =
      some
        (spreadDelay (backoffDelay attempt backoffSeconds)
          draw) := by
  unfold retryValues spreadDelay
  by_cases hJitter :
      jitterOf (backoffDelay attempt backoffSeconds) > 0
  · simp only [if_pos hJitter, List.getLast?_append,
      List.getLast?_cons_cons, List.getLast?_singleton,
      Option.some_or]
  · simp only [if_neg hJitter, List.append_nil,
      List.getLast?_append, List.getLast?_cons_cons,
      List.getLast?_singleton, Option.some_or]

/- After the loop nothing is larger than a spread hour. -/
theorem mem_retryValues
    {attempt backoffSeconds x : Int}
    {draw : Nat}
    (hBackoff : 1 ≤ backoffSeconds)
    (hx : x ∈ retryValues attempt backoffSeconds draw) :
    x ∈ doublings attempt.toNat backoffSeconds ∨
      -720 ≤ x ∧ x ≤ 4320 := by
  have hLeast := one_le_backoffDelay attempt hBackoff
  have hMost :
      backoffDelay attempt backoffSeconds ≤ 3600 :=
    Int.min_le_right _ _
  unfold retryValues at hx
  generalize backoffDelay attempt backoffSeconds = delay
    at hx hLeast hMost
  simp only [jitterOf_eq (show 0 ≤ delay by omega)] at hx
  rcases List.mem_append.mp hx with hBefore | hSpread
  · rcases List.mem_append.mp hBefore with hLoop | hPair
    · exact .inl hLoop
    · simp only [List.mem_cons, List.not_mem_nil, or_false]
        at hPair
      omega
  · split at hSpread
    · have hDrawn :
          0 ≤ (draw : Int) % (2 * (delay / 5) + 1) :=
        Int.emod_nonneg _ (by omega)
      have hBelow :
          (draw : Int) % (2 * (delay / 5) + 1) <
            2 * (delay / 5) + 1 :=
        Int.emod_lt_of_pos _ (by omega)
      simp only [List.mem_cons, List.not_mem_nil, or_false]
        at hSpread
      omega
    · cases hSpread

theorem retryValues_bounds
    {attempt backoffSeconds x : Int}
    {draw : Nat}
    (hLeast : 1 ≤ backoffSeconds)
    (hMost : backoffSeconds ≤ 86400)
    (hx : x ∈ retryValues attempt backoffSeconds draw) :
    -172800 ≤ x ∧ x ≤ 172800 := by
  rcases mem_retryValues hLeast hx with hLoop | hAfter
  · have hBounds := mem_doublings hLeast hLoop
    omega
  · omega

/- The wait lies around the capped exponential. -/
theorem nextRetryAt_bounds
    (attempt : Nat)
    (hLeast : 1 ≤ backoffSeconds)
    (now : Time)
    (draw : Nat) :
    let d := cappedExponential attempt backoffSeconds
    now + (d - d / 5) * second ≤
        nextRetryAt attempt backoffSeconds now draw ∧
      nextRetryAt attempt backoffSeconds now draw ≤
        now + (d + d / 5) * second := by
  intro d
  have hDelay := one_le_backoffDelay attempt hLeast
  have hd : backoffDelay attempt backoffSeconds = d :=
    backoffDelay_eq attempt (by omega)
  rw [hd] at hDelay
  rw [nextRetryAt_eq, hd]
  have hNonneg : 0 ≤ d := by omega
  rcases spreadDelay_bounds hNonneg draw with
    ⟨hAbove, hBelow⟩
  have hSecond : 0 ≤ second := by decide
  constructor
  · exact Int.add_le_add_left
      (Int.mul_le_mul_of_nonneg_right hAbove hSecond) now
  · exact Int.add_le_add_left
      (Int.mul_le_mul_of_nonneg_right hBelow hSecond) now

/-
  The wait is the capped exponential spread by a fifth; it
  is positive and at most 72 minutes; the exponential grows
  with the attempt and with the base; the loop ends after at
  most twelve rounds, with the last of its values, and
  neither these nor those after it, nor the nanoseconds of
  the duration, come near the bounds of their types.
-/
theorem nextRetryAt_closed_form
    (attempt : Nat)
    {backoffSeconds : Int}
    (hLeast : 1 ≤ backoffSeconds)
    (hMost : backoffSeconds ≤ 86400)
    (now : Time)
    (draw : Nat) :
    let d := cappedExponential attempt backoffSeconds
    let next :=
      nextRetryAt attempt backoffSeconds now draw
    (now + (d - d / 5) * second ≤ next ∧
        next ≤ now + (d + d / 5) * second) ∧
      (now < next ∧ next ≤ now + 4320 * second) ∧
        (∀ attempt', attempt ≤ attempt' →
          d ≤ cappedExponential attempt' backoffSeconds) ∧
          (∀ backoffSeconds',
            backoffSeconds ≤ backoffSeconds' →
              d ≤ cappedExponential attempt
                backoffSeconds') ∧
            (∀ x ∈ retryValues attempt backoffSeconds draw,
              -172800 ≤ x ∧ x ≤ 172800) ∧
              (doublings attempt backoffSeconds).length ≤
                13 ∧
                ((doublings attempt backoffSeconds).getLast? =
                    some (doubled attempt backoffSeconds) ∧
                  doublings attempt backoffSeconds <+:
                    retryValues attempt backoffSeconds
                      draw) ∧
                ∃ spread,
                  (retryValues attempt backoffSeconds
                      draw).getLast? = some spread ∧
                    next = now + spread * second ∧
                      spread * 1000000000 < 2 ^ 63 := by
  intro d next
  have hNonneg : 0 ≤ backoffSeconds := by omega
  have hBounds := nextRetryAt_bounds attempt hLeast now draw
  have hCap : d ≤ 3600 := min_le_right _ _
  refine ⟨hBounds, ⟨?_, ?_⟩, ?_, ?_, ?_, ?_, ⟨?_, ?_⟩, ?_⟩
  · exact lt_nextRetryAt attempt hLeast now draw
  · refine Int.le_trans hBounds.2
      (Int.add_le_add_left ?_ now)
    have hHour : d + d / 5 ≤ 4320 := by omega
    exact Int.mul_le_mul_of_nonneg_right hHour (by decide)
  · intro attempt' hLe
    exact cappedExponential_mono_attempt hNonneg hLe
  · intro backoffSeconds' hLe
    exact cappedExponential_mono_backoff attempt hLe
  · intro x hx
    exact retryValues_bounds hLeast hMost hx
  · have hTwelve : 3600 ≤ backoffSeconds * 2 ^ 12 := by
      omega
    exact length_doublings_le hTwelve
  · exact doublings_getLast? attempt backoffSeconds
  · unfold retryValues
    rw [List.append_assoc]
    exact List.prefix_append _ _
  · have hLast :=
      retryValues_getLast? attempt backoffSeconds draw
    refine ⟨_, hLast, rfl, ?_⟩
    have hSpread :=
      retryValues_bounds hLeast hMost
        (List.mem_of_getLast? hLast)
    omega

/- The second retry of a job with a base of 30 seconds. -/
theorem nextRetryAt_of_two_attempts :
    cappedExponential 2 30 = 120 ∧
      0 < nextRetryAt 2 30 0 7 ∧
        nextRetryAt 2 30 0 7 ≤ 0 + (120 + 24) * second := by
  have hForm :=
    @nextRetryAt_closed_form 2 30 (by decide) (by decide)
      0 7
  exact ⟨by decide, hForm.2.1.1, hForm.1.2⟩

end Sluice
