import Mathlib.Algebra.Order.Field.Basic
import Mathlib.Tactic.Positivity
import Sluice.Api.RateBound

/-
  The rate limiter under a Redis clock that may step back.

  The refill of a bucket is signed: a call that reads a time
  before the stored one takes tokens out of the bucket, and
  nothing keeps them from falling below zero. The call is
  denied, but the bucket is written and its expiry renewed,
  so a busy tenant is denied until its clock has made up for
  the step.

  Key definitions include:
    * `InRange`
    * `LetsThrough`

  Key theorems include:
    * `serve_burst` and `debt_after_step_back`
    * `never_locked_out_by_forward_clock`
    * `locked_out_by_clock_step`
-/

------------------------------------------------------------
-- What A Tenant May Rely On
------------------------------------------------------------

namespace Sluice

namespace Api

namespace Limiter

/- The stored tokens are between none and the limit. -/
def InRange
    (limit : Int)
    (state : Option TokenBucket) :
    Prop :=
  ∀ b, state = some b → 0 ≤ b.tokens ∧ b.tokens ≤ limit

/- A call is allowed a second after the call at `last`. -/
def LetsThrough
    (tenantId : Uuid)
    (limit last : Int)
    (buckets : TokenBuckets) :
    Prop :=
  ∀ now, last + 1000 ≤ now →
    (allow tenantId limit now buckets).1 = true

section

variable {tenantId : Uuid}
variable {limit last now : Int}
variable {buckets buckets' mid : TokenBuckets}
variable {events before : List Event}
variable {answers first : List Bool}

/- The answer is read off what the bucket has available. -/
theorem allow_fst
    (hLimit : 0 < limit) :
    (allow tenantId limit now buckets).1 =
      decide (1 ≤ available limit now (buckets tenantId)) := by
  have hPositive : ¬limit ≤ 0 := Int.not_le.mpr hLimit
  simp only [allow, hPositive, if_false, takeScript_eq]

theorem serve_append
    {rest : List Bool}
    (hBefore :
      serve tenantId buckets before = some (first, mid))
    (hEvents :
      serve tenantId mid events = some (rest, buckets')) :
    serve tenantId buckets (before ++ events) =
      some (first ++ rest, buckets') := by
  induction before generalizing buckets first with
  | nil =>
      cases hBefore
      exact hEvents
  | cons e before ih =>
      rcases serve_cons_eq_some hBefore with
        ⟨answer, next, later, hStep, hRest, rfl⟩
      rw [List.append_assoc]
      exact serve_cons hStep (ih hRest)

/- One more call, by what the bucket has available. -/
theorem serve_append_allow
    (now : Int)
    (hLimit : 0 < limit)
    (hBefore :
      serve tenantId buckets before = some (first, mid)) :
    ∃ answers buckets',
      serve tenantId buckets
          (before ++ [.allow limit now]) =
        some (answers, buckets') ∧
        buckets' tenantId =
          some
            ⟨available limit now (mid tenantId) -
                taken (decide (1 ≤
                  available limit now (mid tenantId))),
              now⟩ := by
  have hCall :
      serve tenantId mid [.allow limit now] =
        some
          (_ ++ [],
            Function.update mid tenantId
              (some
                (takeScript limit now (mid tenantId)).2)) :=
    serve_cons (step_allow hLimit) rfl
  refine ⟨_, _, serve_append hBefore hCall, ?_⟩
  rw [Function.update_self, takeScript_eq]

theorem inRange_of_forward
    (hLimit : 0 < limit)
    (hMissing : buckets tenantId = none)
    (hLimits : Limits (· = limit) events)
    (hForward : Forward events)
    (hServe :
      serve tenantId buckets events =
        some (answers, buckets')) :
    InRange limit (buckets' tenantId) := by
  intro b hb
  rcases stored_bucket hLimit hMissing hLimits hForward
    hServe hb with ⟨hLeast, hMost, _⟩
  exact ⟨hLeast, hMost⟩

theorem letsThrough_of_forward
    (hLimit : 0 < limit)
    (hMissing : buckets tenantId = none)
    (hLimits : Limits (· = limit) events)
    (hForward : Forward events)
    (hServe :
      serve tenantId buckets events =
        some (answers, buckets'))
    (hLast : lastCall events = some last) :
    LetsThrough tenantId limit last buckets' := by
  intro now hNow
  have hOne : (1 : ℚ) ≤ limit := by exact_mod_cast hLimit
  have hPause : (1000 : ℚ) / limit ≤ (now - last : Int) := by
    have hSecond : (1000 : ℚ) ≤ (now - last : Int) := by
      exact_mod_cast (show 1000 ≤ now - last by omega)
    exact le_trans (div_le_self (by norm_num) hOne) hSecond
  have hEnough := available_after_pause hLimit hMissing
    hLimits hForward hServe hLast hPause
  rw [allow_fst hLimit]
  exact decide_eq_true hEnough

------------------------------------------------------------
-- A Step Back
------------------------------------------------------------

/- As many calls at one time as the bucket has tokens. -/
def burst (limit last : Int) (n : Nat) : List Event :=
  List.replicate n (.allow limit last)

theorem limits_burst
    (limit last : Int)
    (n : Nat) :
    Limits (· = limit) (burst limit last n) := by
  intro e he l hl
  rw [List.eq_of_mem_replicate he] at hl
  exact (Option.some.inj hl).symm

theorem forward_burst
    (limit last : Int)
    (n : Nat) :
    Forward (burst limit last n) := by
  apply Ordered.forward
  exact List.pairwise_replicate.mpr (.inr (Int.le_refl _))

theorem lastCall_burst
    (limit last : Int)
    (n : Nat) :
    lastCall (burst limit last (n + 1)) = some last := by
  simp [lastCall, burst, List.replicate_succ', Event.isCall,
    Event.time]

/- Each call of a burst takes one token. -/
theorem serve_burst
    (last : Int)
    (hMissing : buckets tenantId = none)
    (n : Nat)
    (hn : (n : Int) + 1 ≤ limit) :
    ∃ answers buckets',
      serve tenantId buckets (burst limit last (n + 1)) =
        some (answers, buckets') ∧
        buckets' tenantId =
          some ⟨limit - (n + 1), last⟩ := by
  have hLimit : 0 < limit := by omega
  induction n with
  | zero =>
      have hOne : (1 : ℚ) ≤ limit := by
        exact_mod_cast hLimit
      have hNone :
          serve tenantId buckets [] = some ([], buckets) :=
        rfl
      rcases serve_append_allow last hLimit hNone
        with ⟨answers, buckets', hServe, hStored⟩
      refine ⟨answers, buckets', hServe, ?_⟩
      rw [hStored, hMissing]
      simp [available, taken, hOne]
  | succ n ih =>
      rcases ih (by omega) with
        ⟨first, mid, hBefore, hMid⟩
      have hLeft :
          available limit last (mid tenantId) =
            limit - (n + 1) := by
        rw [hMid]
        have hNat : (0 : ℚ) ≤ n := Nat.cast_nonneg n
        have hBelow : (limit : ℚ) - (n + 1) ≤ limit := by
          linarith
        simp [available, hBelow]
      have hEnough : (1 : ℚ) ≤ limit - (n + 1) := by
        have hCast : ((n + 1 : Nat) : ℚ) + 1 ≤ limit := by
          exact_mod_cast hn
        push_cast at hCast
        linarith
      rcases serve_append_allow last hLimit hBefore
        with ⟨answers, buckets', hServe, hStored⟩
      refine ⟨answers, buckets', ?_, ?_⟩
      · rw [burst, List.replicate_succ']
        exact hServe
      · rw [hStored, hLeft]
        simp only [taken, decide_eq_true hEnough, if_true]
        push_cast
        congr 2
        ring

/- What a step back takes out of a bucket. -/
theorem debt_pos
    (hLimit : 0 < limit)
    (hBack : now < last) :
    (0 : ℚ) < (last - now : Int) * limit / 1000 := by
  have hRate : (0 : ℚ) < limit := by exact_mod_cast hLimit
  have hStep : (0 : ℚ) < (last - now : Int) := by
    exact_mod_cast Int.sub_pos_of_lt hBack
  positivity

/-
  After a burst that has emptied the bucket, a call at an
  earlier time leaves a debt.
-/
theorem debt_after_step_back
    (hLimit : 0 < limit)
    (hMissing : buckets tenantId = none)
    (hBack : now < last) :
    ∃ answers buckets',
      serve tenantId buckets
          (burst limit last limit.toNat ++
            [.allow limit now]) =
        some (answers, buckets') ∧
        buckets' tenantId =
          some
            ⟨-((last - now : Int) * limit / 1000), now⟩ := by
  obtain ⟨n, hn⟩ : ∃ n : Nat, limit = n + 1 :=
    ⟨(limit - 1).toNat, by omega⟩
  have hToNat : limit.toNat = n + 1 := by omega
  rcases serve_burst last hMissing n
    (Int.le_of_eq hn.symm) with
    ⟨first, mid, hBefore, hMid⟩
  have hEmpty : (limit : ℚ) - (n + 1) = 0 := by
    rw [hn]
    push_cast
    ring
  rw [hEmpty] at hMid
  have hPos := debt_pos hLimit hBack
  have hDebt :
      available limit now (mid tenantId) =
        -((last - now : Int) * limit / 1000) := by
    rw [hMid]
    have hRefill :
        (0 : ℚ) + (now - last : Int) * limit / 1000 =
          -((last - now : Int) * limit / 1000) := by
      push_cast
      ring
    have hRate : (0 : ℚ) ≤ limit := by
      exact_mod_cast Int.le_of_lt hLimit
    simp only [available, hRefill]
    exact min_eq_right (by linarith)
  have hNotEnough :
      ¬(1 : ℚ) ≤ -((last - now : Int) * limit / 1000) := by
    linarith
  rcases serve_append_allow now hLimit hBefore
    with ⟨answers, buckets', hServe, hStored⟩
  refine ⟨answers, buckets', ?_, ?_⟩
  · rw [hToNat]
    exact hServe
  · rw [hStored, hDebt]
    simp only [taken, decide_eq_false hNotEnough]
    simp

/- A debt of a second or more outlasts a second. -/
theorem not_letsThrough_of_debt
    (hLimit : 0 < limit)
    (hStored :
      buckets tenantId =
        some ⟨-((last - now : Int) * limit / 1000), now⟩)
    (hSecond : last - now ≥ 1000) :
    ¬LetsThrough tenantId limit now buckets := by
  intro hLets
  have hAllowed := hLets (now + 1000) (Int.le_refl _)
  rw [allow_fst hLimit, hStored] at hAllowed
  have hEnough :=
    le_trans (of_decide_eq_true hAllowed) (min_le_right _ _)
  have hRate : (0 : ℚ) ≤ limit := by
    exact_mod_cast Int.le_of_lt hLimit
  have hLong : (1000 : ℚ) ≤ (last - now : Int) := by
    exact_mod_cast hSecond
  have hMore :
      1000 * (limit : ℚ) ≤ (last - now : Int) * limit :=
    mul_le_mul_of_nonneg_right hLong hRate
  have hRefill : ((now + 1000 - now : Int) : ℚ) = 1000 := by
    push_cast
    ring
  simp only [hRefill] at hEnough
  linarith

/-
  Calls under a constant limit, from a missing bucket. As
  long as no call reads a time before that of the call
  before it, the tokens stay in their range and a call a
  second after the last one is allowed. Nothing less will
  do: for every step back there are calls before it after
  which the tokens are negative, and a step of a second or
  more denies a call that comes a second later.
-/
theorem never_locked_out_by_forward_clock
    (hLimit : 1 ≤ limit)
    (hMissing : buckets tenantId = none) :
    (∀ events answers buckets',
        Limits (· = limit) events →
          Forward events →
            serve tenantId buckets events =
                some (answers, buckets') →
              InRange limit (buckets' tenantId) ∧
                ∀ last, lastCall events = some last →
                  LetsThrough tenantId limit last
                    buckets') ∧
      ∀ last now, now < last →
        ∃ before answers buckets',
          Limits (· = limit) before ∧
            Forward before ∧
              lastCall before = some last ∧
                serve tenantId buckets
                    (before ++ [.allow limit now]) =
                  some (answers, buckets') ∧
                  ¬InRange limit (buckets' tenantId) ∧
                    (last - now ≥ 1000 →
                      ¬LetsThrough tenantId limit now
                        buckets') := by
  have hPositive : 0 < limit := hLimit
  constructor
  · intro events answers buckets' hLimits hForward hServe
    exact ⟨inRange_of_forward hPositive hMissing hLimits
        hForward hServe,
      fun last hLast => letsThrough_of_forward hPositive
        hMissing hLimits hForward hServe hLast⟩
  · intro last now hBack
    rcases debt_after_step_back hPositive hMissing hBack
      with ⟨answers, buckets', hServe, hStored⟩
    refine ⟨burst limit last limit.toNat, answers, buckets',
      limits_burst _ _ _, forward_burst _ _ _, ?_, hServe,
      ?_, not_letsThrough_of_debt hPositive hStored⟩
    · obtain ⟨n, hn⟩ : ∃ n : Nat, limit.toNat = n + 1 :=
        ⟨limit.toNat - 1, by omega⟩
      rw [hn]
      exact lastCall_burst limit last n
    · intro hRange
      have hLeast := (hRange _ hStored).1
      have hPos := debt_pos hPositive hBack
      simp only at hLeast
      linarith

end

/- The whole burst at one time, and a second later. -/
theorem never_locked_out_after_burst :
    ∃ answers buckets',
      serve 1 (fun _ => none) (burst 2 5 2) =
          some (answers, buckets') ∧
        InRange 2 (buckets' 1) ∧
          LetsThrough 1 2 5 buckets' := by
  have hRun :
      ∃ answers buckets',
        serve 1 (fun _ => none) (burst 2 5 2) =
            some (answers, buckets') ∧
          buckets' 1 = some ⟨(2 : Int) - ((1 : Nat) + 1), 5⟩ :=
    serve_burst 5 rfl 1 (by decide)
  rcases hRun with ⟨answers, buckets', hServe, _⟩
  have hSafe :=
    (@never_locked_out_by_forward_clock 1 2 (fun _ => none)
      (by decide) rfl).1 (burst 2 5 2) answers buckets'
      (limits_burst 2 5 2) (forward_burst 2 5 2) hServe
  exact ⟨answers, buckets', hServe, hSafe.1,
    hSafe.2 5 (lastCall_burst 2 5 1)⟩

/-
  A tenant with one job a second. The clock falls back by
  ten seconds; the calls of the next ten seconds, each a
  second after the last, are all denied.
-/
theorem locked_out_by_clock_step :
    ∃ b,
      (serve 1 (fun _ => none)
          [.allow 1 10000, .allow 1 0, .allow 1 1000,
            .allow 1 2000, .allow 1 3000, .allow 1 4000,
            .allow 1 5000, .allow 1 6000, .allow 1 7000,
            .allow 1 8000, .allow 1 9000]).map
          (fun last => (last.1, last.2 1)) =
        some
          ([true, false, false, false, false, false, false,
            false, false, false, false], some b) ∧
        b.tokens < 0 ∧ ¬InRange 1 (some b) := by
  refine ⟨⟨-1, 9000⟩, by decide +kernel, by decide, ?_⟩
  intro hRange
  exact absurd (hRange _ rfl).1 (by decide)

end Limiter

end Api

end Sluice
