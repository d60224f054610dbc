import Mathlib.Data.List.Induction
import Mathlib.Tactic.Linarith
import Mathlib.Tactic.Ring
import Sluice.Api.RateLimit

/-
  What the rate limiter grants over whole sequences of calls.

  A bucket is judged by what it has available for a call at
  a time. A call answers by that number alone and leaves one
  token less, or all of it. A bucket that was not touched
  for two seconds is full under every limit, so the expiry
  of its key changes nothing that a later call can see.

  Key definitions include:
    * `available`
    * `Event`
    * `serve`

  Key theorems include:
    * `takeScript_eq`
    * `available_of_idle`
    * `granted_in_window`
    * `expiry_is_unobservable`
-/

------------------------------------------------------------
-- What A Bucket Has Available
------------------------------------------------------------

namespace Sluice

namespace Api

/- The time of `PEXPIRE`, in ms. -/
def bucketTTL : Int := 2000

/- The tokens in a bucket after its refill by a call. -/
def available
    (rate now : Int) :
    Option TokenBucket → ℚ
| none => rate
| some b =>
    min (rate : ℚ) (b.tokens + (now - b.ts : Int) * rate / 1000)

/- The token that an allowed call takes. -/
def taken (allowed : Bool) : ℚ :=
  if allowed then 1 else 0

section

variable {rate now : Int}
variable {state : Option TokenBucket}

/- The answer and the new bucket depend on it alone. -/
theorem takeScript_eq
    (rate now : Int)
    (state : Option TokenBucket) :
    takeScript rate now state =
      (decide (1 ≤ available rate now state),
        ⟨available rate now state -
            taken (decide (1 ≤ available rate now state)),
          now⟩) := by
  have hFilled :
      min (rate : ℚ)
          ((state.map TokenBucket.tokens).getD rate +
            (now - (state.map TokenBucket.ts).getD now :
              Int) * rate / 1000) =
        available rate now state := by
    cases state with
    | none => simp [available]
    | some b => rfl
  simp only [takeScript, hFilled]
  by_cases hEnough : 1 ≤ available rate now state
  · simp [hEnough, taken]
  · simp [hEnough, taken]

theorem available_le
    (rate now : Int)
    (state : Option TokenBucket) :
    available rate now state ≤ rate := by
  cases state with
  | none => exact le_refl _
  | some b => exact min_le_left _ _

theorem available_nonneg
    {b : TokenBucket}
    (hRate : 0 ≤ rate)
    (hTokens : 0 ≤ b.tokens)
    (hNow : b.ts ≤ now) :
    0 ≤ available rate now (some b) := by
  have hRate' : (0 : ℚ) ≤ rate := Int.cast_nonneg hRate
  have hElapsed : (0 : ℚ) ≤ (now - b.ts : Int) :=
    Int.cast_nonneg (Int.sub_nonneg_of_le hNow)
  have hRefill :
      (0 : ℚ) ≤ (now - b.ts : Int) * rate / 1000 :=
    div_nonneg (mul_nonneg hElapsed hRate') (by norm_num)
  exact le_min hRate' (add_nonneg hTokens hRefill)

/- After two seconds a bucket is full, at any limit. -/
theorem available_of_idle
    {b : TokenBucket}
    (hRate : 0 ≤ rate)
    (hTokens : 0 ≤ b.tokens)
    (hIdle : b.ts + bucketTTL ≤ now) :
    available rate now (some b) = rate := by
  have hRate' : (0 : ℚ) ≤ rate := Int.cast_nonneg hRate
  have hElapsed : (2000 : ℚ) ≤ (now - b.ts : Int) := by
    have hInt : (2000 : Int) ≤ now - b.ts := by
      unfold bucketTTL at hIdle
      omega
    exact_mod_cast hInt
  have hRefill :
      2000 * (rate : ℚ) / 1000 ≤
        (now - b.ts : Int) * rate / 1000 := by
    have hMul := mul_le_mul_of_nonneg_right hElapsed hRate'
    linarith
  apply min_eq_left
  linarith

end

------------------------------------------------------------
-- Sequences Of Calls
------------------------------------------------------------

namespace Limiter

/-
  What happens to the bucket of a tenant: a call of `Allow`,
  or the expiry of its key. `now` is Redis's time in ms.
-/
inductive Event
| allow (limit now : Int)
| expire (now : Int)
deriving DecidableEq, Repr

namespace Event

def time : Event → Int
| .allow _ now => now
| .expire now => now

def limit? : Event → Option Int
| .allow limit _ => some limit
| .expire _ => none

def isCall : Event → Bool
| .allow _ _ => true
| .expire _ => false

end Event

/-
  The answer to a call, and the buckets after the event. A
  key expires no sooner than `bucketTTL` after its last
  write.
-/
def step
    (tenantId : Uuid)
    (buckets : TokenBuckets) :
    Event → Option (Option Bool × TokenBuckets)
| .allow limit now =>
    let (allowed, buckets) := allow tenantId limit now buckets
    some (some allowed, buckets)
| .expire now =>
    if (buckets tenantId).any
        (fun b => decide (b.ts + bucketTTL ≤ now)) then
      some (none, Function.update buckets tenantId none)
    else none

/- The answers to a sequence, and the buckets after it. -/
def serve
    (tenantId : Uuid)
    (buckets : TokenBuckets) :
    List Event → Option (List Bool × TokenBuckets)
| [] => some ([], buckets)
| e :: events => do
    let (answer, buckets) ← step tenantId buckets e
    let (answers, buckets) ← serve tenantId buckets events
    some (answer.toList ++ answers, buckets)

/- Times do not decrease. -/
def Ordered (events : List Event) : Prop :=
  events.Pairwise (fun e e' => e.time ≤ e'.time)

/- The time of the latest call. -/
def lastCall (events : List Event) : Option Int :=
  ((events.filter Event.isCall).getLast?).map Event.time

/- No call comes at a time before that of the last one. -/
def Forward (events : List Event) : Prop :=
  ∀ before limit now after,
    events = before ++ .allow limit now :: after →
      ∀ last, lastCall before = some last → last ≤ now

------------------------------------------------------------
-- Steps
------------------------------------------------------------

/- What an event does to the tenant's own bucket. -/
inductive Served : Option TokenBucket → Event →
    Option Bool → Option TokenBucket → Prop
| allow
    {limit now : Int}
    {state : Option TokenBucket} :
    Served state (.allow limit now)
      (some (decide (1 ≤ available limit now state)))
      (some
        ⟨available limit now state -
            taken (decide (1 ≤ available limit now state)),
          now⟩)
| expire
    {now : Int}
    {b : TokenBucket}
    (hIdle : b.ts + bucketTTL ≤ now) :
    Served (some b) (.expire now) none none

/- The limits that the calls of a sequence come with. -/
def Limits (p : Int → Prop) (events : List Event) : Prop :=
  ∀ e ∈ events, ∀ limit, e.limit? = some limit → p limit

section

variable {tenantId : Uuid}
variable {buckets buckets' : TokenBuckets}
variable {e : Event}
variable {events : List Event}
variable {answers : List Bool}

/- A call under a positive limit runs the script. -/
theorem step_allow
    {limit now : Int}
    (hLimit : 0 < limit) :
    step tenantId buckets (.allow limit now) =
      some
        (some (takeScript limit now (buckets tenantId)).1,
          Function.update buckets tenantId
            (some
              (takeScript limit now (buckets tenantId)).2)) := by
  have hPositive : ¬limit ≤ 0 := Int.not_le.mpr hLimit
  simp only [step, Api.allow, hPositive, if_false]

theorem served_of_step
    {answer : Option Bool}
    (hPositive : ∀ limit, e.limit? = some limit → 0 < limit)
    (hStep :
      step tenantId buckets e = some (answer, buckets')) :
    Served (buckets tenantId) e answer
      (buckets' tenantId) := by
  cases e with
  | allow limit now =>
      rw [step_allow (hPositive limit rfl), takeScript_eq]
        at hStep
      cases hStep
      rw [Function.update_self]
      exact .allow
  | expire now =>
      simp only [step] at hStep
      split at hStep
      · rename_i hDue
        cases hStep
        rcases (Option.any_eq_true _ _).mp hDue with
          ⟨b, hb, hIdle⟩
        rw [hb, Function.update_self]
        exact .expire (of_decide_eq_true hIdle)
      · cases hStep

theorem serve_cons
    {answer : Option Bool}
    {mid : TokenBuckets}
    (hStep :
      step tenantId buckets e = some (answer, mid))
    (hRest :
      serve tenantId mid events = some (answers, buckets')) :
    serve tenantId buckets (e :: events) =
      some (answer.toList ++ answers, buckets') := by
  simp only [serve, hStep, Option.bind_eq_bind,
    Option.bind_some, hRest]

/- A sequence is served from its first event on. -/
theorem serve_cons_eq_some
    (hServe :
      serve tenantId buckets (e :: events) =
        some (answers, buckets')) :
    ∃ answer mid rest,
      step tenantId buckets e = some (answer, mid) ∧
        serve tenantId mid events = some (rest, buckets') ∧
          answers = answer.toList ++ rest := by
  simp only [serve] at hServe
  rcases Option.bind_eq_some_iff.mp hServe with
    ⟨⟨answer, mid⟩, hStep, hRest⟩
  rcases Option.bind_eq_some_iff.mp hRest with
    ⟨⟨rest, last⟩, hEvents, hAll⟩
  cases hAll
  exact ⟨answer, mid, rest, hStep, hEvents, rfl⟩

theorem serve_append_eq_some
    {before : List Event}
    (hServe :
      serve tenantId buckets (before ++ events) =
        some (answers, buckets')) :
    ∃ first mid rest,
      serve tenantId buckets before = some (first, mid) ∧
        serve tenantId mid events = some (rest, buckets') ∧
          answers = first ++ rest := by
  induction before generalizing buckets answers with
  | nil => exact ⟨[], buckets, answers, rfl, hServe, rfl⟩
  | cons e before ih =>
      rcases serve_cons_eq_some hServe with
        ⟨answer, mid, rest, hStep, hRest, rfl⟩
      rcases ih hRest with
        ⟨first, mid', rest', hBefore, hEvents, rfl⟩
      refine ⟨answer.toList ++ first, mid', rest', ?_,
        hEvents, ?_⟩
      · exact serve_cons hStep hBefore
      · rw [List.append_assoc]

theorem Limits.head
    {p : Int → Prop}
    (hLimits : Limits p (e :: events)) :
    ∀ limit, e.limit? = some limit → p limit :=
  hLimits e List.mem_cons_self

theorem Limits.tail
    {p : Int → Prop}
    (hLimits : Limits p (e :: events)) :
    Limits p events :=
  fun e' he' => hLimits e' (List.mem_cons_of_mem _ he')

theorem Limits.pos
    {rate : Int}
    (hLimits : Limits (· = rate) events)
    (hRate : 0 < rate)
    (he : e ∈ events) :
    ∀ limit, e.limit? = some limit → 0 < limit := by
  intro limit hLimit
  rw [hLimits e he limit hLimit]
  exact hRate

/- An answer counts as what it takes out of the bucket. -/
theorem count_answer
    (answer : Bool)
    (rest : List Bool) :
    (((some answer).toList ++ rest).count true : ℚ) =
      taken answer + (rest.count true : ℚ) := by
  cases answer with
  | true => simp [taken, add_comm]
  | false => simp [taken]

end

------------------------------------------------------------
-- Stored Buckets
------------------------------------------------------------

/- A stored bucket is not negative and not of the future. -/
def Sound (now : Int) (state : Option TokenBucket) : Prop :=
  ∀ b, state = some b → 0 ≤ b.tokens ∧ b.ts ≤ now

section

variable {e : Event}
variable {now : Int}
variable {state state' : Option TokenBucket}
variable {answer : Option Bool}

theorem taken_le
    {x : ℚ}
    (hx : 0 ≤ x) :
    taken (decide (1 ≤ x)) ≤ x := by
  by_cases hEnough : 1 ≤ x
  · simp [taken, hEnough]
  · simpa [taken, hEnough] using hx

theorem taken_nonneg
    (allowed : Bool) :
    0 ≤ taken allowed := by
  cases allowed with
  | false => exact le_refl 0
  | true => exact zero_le_one

theorem Sound.available_nonneg
    {rate : Int}
    (hSound : Sound now state)
    (hRate : 0 ≤ rate) :
    0 ≤ available rate now state := by
  cases state with
  | none => exact Int.cast_nonneg hRate
  | some b =>
      rcases hSound b rfl with ⟨hTokens, hTs⟩
      exact Api.available_nonneg hRate hTokens hTs

theorem Sound.mono
    {now' : Int}
    (hSound : Sound now state)
    (hLe : now ≤ now') :
    Sound now' state := by
  intro b hb
  rcases hSound b hb with ⟨hTokens, hTs⟩
  exact ⟨hTokens, Int.le_trans hTs hLe⟩

theorem Sound.served
    (hSound : Sound now state)
    (hPositive : ∀ limit, e.limit? = some limit → 0 < limit)
    (hNow : now ≤ e.time)
    (hServed : Served state e answer state') :
    Sound e.time state' := by
  intro b hb
  cases hServed with
  | allow =>
      rename_i limit at_
      cases hb
      have hSome :=
        (hSound.mono hNow).available_nonneg
          (Int.le_of_lt (hPositive limit rfl))
      exact ⟨sub_nonneg.mpr (taken_le hSome),
        Int.le_refl _⟩
  | expire => cases hb

end

------------------------------------------------------------
-- The Rate Bound
------------------------------------------------------------

/-
  From time `since` on the bucket has at most `level` tokens
  and what has flowed in since then.
-/
def Covers
    (rate since : Int)
    (level : ℚ)
    (state : Option TokenBucket) :
    Prop :=
  ∀ now, since ≤ now →
    available rate now state ≤
      level + (now - since : Int) * rate / 1000

section

variable {tenantId : Uuid}
variable {rate since until_ : Int}
variable {level : ℚ}
variable {state : Option TokenBucket}
variable {buckets buckets' : TokenBuckets}
variable {events before : List Event}
variable {answers : List Bool}

theorem refill_add
    (rate a b c : Int) :
    ((b - a : Int) : ℚ) * rate / 1000 +
        ((c - b : Int) : ℚ) * rate / 1000 =
      ((c - a : Int) : ℚ) * rate / 1000 := by
  push_cast
  ring

/- No bucket has more than the limit. -/
theorem covers_rate
    (hRate : 0 ≤ rate)
    (since : Int)
    (state : Option TokenBucket) :
    Covers rate since rate state := by
  intro now hNow
  have hRate' : (0 : ℚ) ≤ rate := Int.cast_nonneg hRate
  have hElapsed : (0 : ℚ) ≤ (now - since : Int) :=
    Int.cast_nonneg (Int.sub_nonneg_of_le hNow)
  have hRefill :
      (0 : ℚ) ≤ (now - since : Int) * rate / 1000 :=
    div_nonneg (mul_nonneg hElapsed hRate') (by norm_num)
  have hMost := available_le rate now state
  linarith

theorem covers_tokens
    (rate : Int)
    (b : TokenBucket) :
    Covers rate b.ts b.tokens (some b) :=
  fun _ _ => min_le_right _ _

/-
  What a bucket covers bounds the calls that are allowed.
  The induction goes from event to event, with the level of
  the bucket that the event leaves.
-/
theorem granted_le_of_covers
    (hRate : 0 < rate)
    (hLimits : Limits (· = rate) events)
    (hOrdered : Ordered events)
    (hFrom : ∀ e ∈ events, since ≤ e.time)
    (hUntil : ∀ e ∈ events, e.time ≤ until_)
    (hSpan : since ≤ until_)
    (hSound : Sound since (buckets tenantId))
    (hCovers : Covers rate since level (buckets tenantId))
    (hServe :
      serve tenantId buckets events =
        some (answers, buckets')) :
    (answers.count true : ℚ) ≤
      level + (until_ - since : Int) * rate / 1000 := by
  induction events generalizing buckets answers since level
    with
  | nil =>
      cases hServe
      have hLeft := hCovers until_ hSpan
      have hSome :=
        (hSound.mono hSpan).available_nonneg
          (Int.le_of_lt hRate)
      simpa using le_trans hSome hLeft
  | cons e events ih =>
      rcases serve_cons_eq_some hServe with
        ⟨answer, mid, rest, hStep, hRest, rfl⟩
      have hPositive := hLimits.pos hRate List.mem_cons_self
      have hServed := served_of_step hPositive hStep
      have hSince := hFrom e List.mem_cons_self
      have hLater := List.pairwise_cons.mp hOrdered
      have hSound' :=
        hSound.served hPositive hSince hServed
      have hHere := hCovers e.time hSince
      have hFlow := refill_add rate since e.time until_
      have hNext : ∀ level',
          Covers rate e.time level' (mid tenantId) →
            (rest.count true : ℚ) ≤
              level' +
                (until_ - e.time : Int) * rate / 1000 :=
        fun level' hCovers' =>
          ih hLimits.tail hLater.2 hLater.1
            (fun e' he' =>
              hUntil e' (List.mem_cons_of_mem _ he'))
            (hUntil e List.mem_cons_self) hSound' hCovers'
            hRest
      generalize buckets tenantId = state at *
      generalize hMid : mid tenantId = state' at *
      cases hServed with
      | allow =>
          rename_i limit now
          have hLimit : limit = rate := hLimits.head limit rfl
          subst hLimit
          have hGranted :=
            hNext _ (covers_tokens limit ⟨_, now⟩)
          rw [count_answer]
          simp only [Event.time] at hGranted hHere hFlow
          linarith
      | expire hIdle =>
          rename_i now b
          have hTokens := (hSound b rfl).1
          have hFull := available_of_idle
            (Int.le_of_lt hRate) hTokens hIdle
          have hGranted := hNext rate
            (covers_rate (Int.le_of_lt hRate) _ _)
          simp only [Event.time] at hGranted hHere hFlow
          rw [hFull] at hHere
          change (rest.count true : ℚ) ≤ _
          linarith

theorem lastCall_le
    {last now : Int}
    (hLast : lastCall before = some last)
    (hTimes : ∀ e ∈ before, e.time ≤ now) :
    last ≤ now := by
  rcases Option.map_eq_some_iff.mp hLast with
    ⟨call, hCall, rfl⟩
  exact hTimes call
    (List.mem_filter.mp (List.mem_of_getLast? hCall)).1

theorem Ordered.forward
    (hOrdered : Ordered events) :
    Forward events := by
  intro before limit now after hEvents last hLast
  subst hEvents
  have hTimes := List.pairwise_append.mp hOrdered
  exact lastCall_le hLast
    (fun e he => hTimes.2.2 e he _ List.mem_cons_self)

theorem Forward.of_append
    (hForward : Forward (before ++ events)) :
    Forward before := by
  intro first limit now after hBefore
  refine hForward first limit now (after ++ events) ?_
  rw [hBefore, List.append_assoc, List.cons_append]

/-
  After a sequence from a missing bucket: the tokens are in
  their range, and the time is that of the latest call.
-/
theorem stored_bucket
    (hRate : 0 < rate)
    (hMissing : buckets tenantId = none)
    (hLimits : Limits (· = rate) before)
    (hForward : Forward before)
    (hServe :
      serve tenantId buckets before =
        some (answers, buckets'))
    {b : TokenBucket}
    (hStored : buckets' tenantId = some b) :
    0 ≤ b.tokens ∧ b.tokens ≤ rate ∧
      lastCall before = some b.ts := by
  induction before using List.reverseRecOn
    generalizing answers buckets' b with
  | nil =>
      cases hServe
      rw [hMissing] at hStored
      cases hStored
  | append_singleton before e ih =>
      rcases serve_append_eq_some hServe with
        ⟨first, mid, rest, hBefore, hLast, rfl⟩
      rcases serve_cons_eq_some hLast with
        ⟨answer, end_, none_, hStep, hNil, rfl⟩
      cases hNil
      have hLastMem : e ∈ before ++ [e] :=
        List.mem_append_right _ List.mem_cons_self
      have hServed := served_of_step
        (hLimits.pos hRate hLastMem) hStep
      have hMid : ∀ c, mid tenantId = some c →
          0 ≤ c.tokens ∧ c.tokens ≤ rate ∧
            lastCall before = some c.ts :=
        fun c hc => ih
          (fun e' he' =>
            hLimits e' (List.mem_append_left _ he'))
          hForward.of_append hBefore hc
      rw [hStored] at hServed
      generalize mid tenantId = state at hMid hServed
      cases hServed with
      | allow =>
          rename_i limit now
          have hLimit : limit = rate :=
            hLimits (.allow limit now) (by simp) limit rfl
          subst hLimit
          have hSound : Sound now state := by
            intro c hc
            rcases hMid c hc with ⟨hTokens, _, hCall⟩
            exact ⟨hTokens,
              hForward before limit now [] rfl c.ts hCall⟩
          have hLeast :=
            hSound.available_nonneg (Int.le_of_lt hRate)
          have hMost := available_le limit now state
          refine ⟨?_, ?_, ?_⟩
          · exact sub_nonneg.mpr (taken_le hLeast)
          · have hTaken := taken_nonneg
              (decide (1 ≤ available limit now state))
            change _ - _ ≤ _
            linarith
          · simp [lastCall, Event.isCall, Event.time]

/- A call that is late enough finds a token. -/
theorem allowed_after_pause
    {now last : Int}
    (hRate : 0 < rate)
    (hPause : (1000 : ℚ) / rate ≤ (now - last : Int))
    (hStored :
      ∀ b, state = some b → 0 ≤ b.tokens ∧ b.ts = last) :
    1 ≤ available rate now state := by
  have hOne : (1 : ℚ) ≤ rate := by exact_mod_cast hRate
  cases state with
  | none => exact hOne
  | some b =>
      rcases hStored b rfl with ⟨hTokens, hLast⟩
      subst hLast
      have hPos : (0 : ℚ) < rate := lt_of_lt_of_le one_pos hOne
      have hRefill :
          (1000 : ℚ) ≤ (now - b.ts : Int) * rate :=
        (div_le_iff₀ hPos).mp hPause
      refine le_min hOne ?_
      linarith

/- The same after a sequence from a missing bucket. -/
theorem available_after_pause
    {now last : Int}
    (hRate : 0 < rate)
    (hMissing : buckets tenantId = none)
    (hLimits : Limits (· = rate) before)
    (hForward : Forward before)
    (hServe :
      serve tenantId buckets before =
        some (answers, buckets'))
    (hLast : lastCall before = some last)
    (hPause : (1000 : ℚ) / rate ≤ (now - last : Int)) :
    1 ≤ available rate now (buckets' tenantId) := by
  apply allowed_after_pause hRate hPause
  intro b hb
  rcases stored_bucket hRate hMissing hLimits hForward
    hServe hb with ⟨hTokens, _, hCall⟩
  rw [hLast] at hCall
  exact ⟨hTokens, (Option.some.inj hCall).symm⟩

/- What a sequence may grant that lies in a stretch. -/
theorem granted_le_of_within
    {s t : Int}
    (hRate : 0 < rate)
    (hLimits : Limits (· = rate) events)
    (hOrdered : Ordered events)
    (hSpan : s ≤ t)
    (hWithin : ∀ e ∈ events, s ≤ e.time ∧ e.time ≤ t)
    (hSound :
      ∀ e ∈ events, Sound e.time (buckets tenantId))
    (hServe :
      serve tenantId buckets events =
        some (answers, buckets')) :
    (answers.count true : ℚ) ≤
      rate + rate * (t - s : Int) / 1000 := by
  have hNonneg := Int.le_of_lt hRate
  rw [mul_comm (rate : ℚ)]
  cases events with
  | nil =>
      cases hServe
      have hCovers := covers_rate hNonneg s none t hSpan
      have hSome : (0 : ℚ) ≤ available rate t none :=
        Int.cast_nonneg hNonneg
      simpa using le_trans hSome hCovers
  | cons e events =>
      have hIn := hWithin e List.mem_cons_self
      have hFrom : ∀ e' ∈ e :: events, e.time ≤ e'.time := by
        intro e' he'
        rcases List.mem_cons.mp he' with rfl | hLater
        · exact Int.le_refl _
        · exact (List.pairwise_cons.mp hOrdered).1 e' hLater
      have hGranted := granted_le_of_covers hRate hLimits
        hOrdered hFrom (fun e' he' => (hWithin e' he').2)
        hIn.2 (hSound e List.mem_cons_self)
        (covers_rate hNonneg _ _) hServe
      have hFlow := refill_add rate s e.time t
      have hElapsed : (0 : ℚ) ≤ (e.time - s : Int) :=
        Int.cast_nonneg (Int.sub_nonneg_of_le hIn.1)
      have hRefill :
          (0 : ℚ) ≤ (e.time - s : Int) * rate / 1000 :=
        div_nonneg
          (mul_nonneg hElapsed (Int.cast_nonneg hNonneg))
          (by norm_num)
      linarith

/-
  Calls under a constant limit, from a missing bucket: in
  every stretch the allowed calls are at most the limit and
  what flows in over the stretch; the tokens stay in their
  range; and a call is allowed if the call before it was
  long enough ago.
-/
theorem granted_in_window
    {limit : Int}
    {stretch : List Event}
    {earlier : List Bool}
    {mid : TokenBuckets}
    (hLimit : 1 ≤ limit)
    (hMissing : buckets tenantId = none)
    (hLimits : Limits (· = limit) (before ++ stretch))
    (hOrdered : Ordered (before ++ stretch))
    (hBefore :
      serve tenantId buckets before = some (earlier, mid))
    (hStretch :
      serve tenantId mid stretch =
        some (answers, buckets')) :
    (∀ s t, s ≤ t →
        (∀ e ∈ stretch, s ≤ e.time ∧ e.time ≤ t) →
          (answers.count true : ℚ) ≤
            limit + limit * (t - s : Int) / 1000) ∧
      (∀ b, mid tenantId = some b →
        0 ≤ b.tokens ∧ b.tokens ≤ limit) ∧
        ∀ now last rest,
          stretch = .allow limit now :: rest →
            lastCall before = some last →
              (1000 : ℚ) / limit ≤ (now - last : Int) →
                answers.head? = some true := by
  have hRate : 0 < limit := hLimit
  have hLimitsBefore : Limits (· = limit) before :=
    fun e he => hLimits e (List.mem_append_left _ he)
  have hLimitsStretch : Limits (· = limit) stretch :=
    fun e he => hLimits e (List.mem_append_right _ he)
  have hTimes := List.pairwise_append.mp hOrdered
  have hStored : ∀ b, mid tenantId = some b →
      0 ≤ b.tokens ∧ b.tokens ≤ limit ∧
        lastCall before = some b.ts :=
    fun b hb => stored_bucket hRate hMissing hLimitsBefore
      (Ordered.forward hTimes.1) hBefore hb
  refine ⟨?_, ?_, ?_⟩
  · intro s t hSpan hWithin
    apply granted_le_of_within hRate hLimitsStretch
      hTimes.2.1 hSpan hWithin ?_ hStretch
    intro e he b hb
    rcases hStored b hb with ⟨hTokens, _, hCall⟩
    exact ⟨hTokens, lastCall_le hCall
      (fun e' he' => hTimes.2.2 e' he' e he)⟩
  · intro b hb
    rcases hStored b hb with ⟨hTokens, hMost, _⟩
    exact ⟨hTokens, hMost⟩
  · intro now last rest hFirst hCall hPause
    subst hFirst
    rcases serve_cons_eq_some hStretch with
      ⟨answer, end_, rest, hStep, _, rfl⟩
    have hServed := served_of_step
      (fun l hl => by
        cases hl
        exact hRate)
      hStep
    have hEnough := available_after_pause hRate hMissing
      hLimitsBefore (Ordered.forward hTimes.1) hBefore hCall
      hPause
    generalize mid tenantId = state at hServed hEnough
    generalize end_ tenantId = state' at hServed
    cases hServed
    simp [hEnough]

end

/- A burst, a pause, and an expiry of the key. -/
theorem granted_in_window_after_burst :
    ∃ mid last,
      serve 1 (fun _ => none)
          [.allow 2 0, .allow 2 0, .allow 2 0] =
        some ([true, true, false], mid) ∧
        serve 1 mid
            [.allow 2 500, .expire 2500, .allow 2 2500] =
          some ([true, true], last) ∧
          ([true, true].count true : ℚ) ≤
            (2 : Int) +
              (2 : Int) * (2500 - 500 : Int) / 1000 := by
  have hRun :
      (serve 1 (fun _ => none)
          [.allow 2 0, .allow 2 0, .allow 2 0]).bind
          (fun first =>
            (serve 1 first.2
                [.allow 2 500, .expire 2500,
                  .allow 2 2500]).map
              (fun rest => (first.1, rest.1))) =
        some ([true, true, false], [true, true]) := by
    decide +kernel
  rcases Option.bind_eq_some_iff.mp hRun with
    ⟨⟨first, mid⟩, hBefore, hMap⟩
  rcases Option.map_eq_some_iff.mp hMap with
    ⟨⟨rest, last⟩, hStretch, hAnswers⟩
  cases hAnswers
  refine ⟨mid, last, hBefore, hStretch, ?_⟩
  exact (granted_in_window (by decide) rfl
    (by simp [Limits, Event.limit?])
    (by simp [Ordered, Event.time]) hBefore hStretch).1
    500 2500 (by decide) (by simp [Event.time])

------------------------------------------------------------
-- Expiry
------------------------------------------------------------

/- Buckets that no call from `now` on can tell apart. -/
structure Alike
    (now : Int)
    (state state' : Option TokenBucket) :
    Prop where
  sound : Sound now state
  sound' : Sound now state'
  same : ∀ limit later, 0 < limit → now ≤ later →
    available limit later state =
      available limit later state'

section

variable {tenantId : Uuid}
variable {now : Int}
variable {state state' : Option TokenBucket}
variable {buckets buckets' persistent last : TokenBuckets}
variable {events : List Event}
variable {answers : List Bool}

/- A call answers alike, and leaves the same bucket. -/
theorem Alike.allow
    {limit at_ : Int}
    (hAlike : Alike now state state')
    (hLimit : 0 < limit)
    (hNow : now ≤ at_) :
    takeScript limit at_ state =
      takeScript limit at_ state' := by
  rw [takeScript_eq, takeScript_eq,
    hAlike.same limit at_ hLimit hNow]

/- A key that is idle long enough may as well be missing. -/
theorem Alike.expire
    {at_ : Int}
    {b : TokenBucket}
    (hAlike : Alike now (some b) state')
    (hNow : now ≤ at_)
    (hIdle : b.ts + bucketTTL ≤ at_) :
    Alike at_ none state' := by
  refine ⟨?_, hAlike.sound'.mono hNow, ?_⟩
  · intro c hc
    cases hc
  · intro limit later hLimit hLater
    have hFull : available limit later (some b) = limit :=
      available_of_idle (Int.le_of_lt hLimit)
        (hAlike.sound b rfl).1
        (Int.le_trans hIdle hLater)
    rw [← hAlike.same limit later hLimit
      (Int.le_trans hNow hLater), hFull]
    rfl

theorem Alike.refl
    (hSound : Sound now state) :
    Alike now state state :=
  ⟨hSound, hSound, fun _ _ _ _ => rfl⟩

/-
  From buckets that are alike, a sequence with expiries is
  answered as its calls alone are.
-/
theorem Alike.serve
    (hAlike :
      Alike now (buckets tenantId) (persistent tenantId))
    (hLimits : Limits (0 < ·) events)
    (hOrdered : Ordered events)
    (hFrom : ∀ e ∈ events, now ≤ e.time)
    (hServe :
      serve tenantId buckets events =
        some (answers, buckets')) :
    ∃ last,
      Limiter.serve tenantId persistent
          (events.filter Event.isCall) =
        some (answers, last) := by
  induction events generalizing buckets persistent answers
      now with
  | nil =>
      cases hServe
      exact ⟨persistent, rfl⟩
  | cons e events ih =>
      rcases serve_cons_eq_some hServe with
        ⟨answer, mid, rest, hStep, hRest, rfl⟩
      have hServed := served_of_step hLimits.head hStep
      have hNow := hFrom e List.mem_cons_self
      have hLater := List.pairwise_cons.mp hOrdered
      cases e with
      | allow limit at_ =>
          have hLimit := hLimits.head limit rfl
          have hAt : now ≤ at_ := hNow
          have hSame := hAlike.allow hLimit hAt
          have hSound := hAlike.sound.served
            hLimits.head hNow hServed
          rw [step_allow hLimit] at hStep
          cases hStep
          have hMid :
              Alike at_
                (Function.update buckets tenantId
                  (some (takeScript limit at_
                    (buckets tenantId)).2) tenantId)
                (Function.update persistent tenantId
                  (some (takeScript limit at_
                    (persistent tenantId)).2)
                  tenantId) := by
            rw [Function.update_self, Function.update_self,
              ← hSame]
            rw [Function.update_self] at hSound
            exact .refl hSound
          rcases ih hMid hLimits.tail hLater.2 hLater.1
            hRest with ⟨last, hLast⟩
          refine ⟨last, ?_⟩
          rw [hSame]
          exact serve_cons (step_allow hLimit) hLast
      | expire at_ =>
          rw [List.filter_cons_of_neg Bool.false_ne_true]
          generalize hOld : buckets tenantId = state
            at hAlike hServed
          generalize hNew : mid tenantId = state' at hServed
          cases hServed with
          | expire hIdle =>
              refine ih ?_ hLimits.tail hLater.2 hLater.1
                hRest
              rw [hNew]
              exact hAlike.expire hNow hIdle

/-
  Under any positive limits, the answers from a missing
  bucket are those of a bucket whose key never expires.
-/
theorem expiry_is_unobservable
    (hMissing : buckets tenantId = none)
    (hLimits : Limits (0 < ·) events)
    (hOrdered : Ordered events)
    (hServe :
      serve tenantId buckets events =
        some (answers, buckets')) :
    ∃ last,
      serve tenantId buckets (events.filter Event.isCall) =
        some (answers, last) := by
  cases events with
  | nil => exact ⟨buckets', hServe⟩
  | cons e events =>
      have hFrom : ∀ e' ∈ e :: events, e.time ≤ e'.time := by
        intro e' he'
        rcases List.mem_cons.mp he' with rfl | hLater
        · exact Int.le_refl _
        · exact (List.pairwise_cons.mp hOrdered).1 e' hLater
      have hSound : Sound e.time (buckets tenantId) := by
        rw [hMissing]
        intro b hb
        cases hb
      exact (Alike.refl hSound).serve hLimits hOrdered hFrom
        hServe

end

/- The limit is raised after the key has expired. -/
theorem expiry_is_unobservable_at_new_limit :
    (∃ last,
      serve 1 (fun _ => none)
          [.allow 1 0, .allow 1 0, .expire 2000,
            .allow 3 2400] =
        some ([true, false, true], last)) ∧
      ∃ last,
        serve 1 (fun _ => none)
            [.allow 1 0, .allow 1 0, .allow 3 2400] =
          some ([true, false, true], last) := by
  have hRun :
      (serve 1 (fun _ => none)
          [.allow 1 0, .allow 1 0, .expire 2000,
            .allow 3 2400]).map Prod.fst =
        some [true, false, true] := by
    decide +kernel
  rcases Option.map_eq_some_iff.mp hRun with
    ⟨⟨answers, last⟩, hServe, hAnswers⟩
  cases hAnswers
  refine ⟨⟨last, hServe⟩, ?_⟩
  exact expiry_is_unobservable rfl
    (by simp [Limits, Event.limit?])
    (by simp [Ordered, Event.time]) hServe

end Limiter

end Api

end Sluice
