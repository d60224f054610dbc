import Sluice.Job.Basic

/-
  The client-supplied description of a job and the job that
  is built from it.

  What `validateWebhookPayload` does with the raw payload is
  a parameter here: nothing else depends on it.

  Key definitions include:
    * `Template`
    * `Job.validate`
    * `Template.build`
    * `submitJob`
    * `cronJob`

  Key theorems include:
    * `Template.build_eq_ok`
    * `submitJob_eq_ok`
-/

------------------------------------------------------------
-- Templates And Their Jobs
------------------------------------------------------------

namespace Sluice

def defaultMaxRetries : Int := 3

def defaultBackoffSeconds : Int := 30

def maxMaxRetries : Int := 100

def maxBackoffSeconds : Int := 86400

/- Absent optional fields are `none`. -/
structure Template where
  type : String
  payload : String
  priority : Option Int
  maxRetries : Option Int
  backoffSeconds : Option Int
deriving DecidableEq, Repr

namespace Job

/- The checks of `Job.validate`, in its order. -/
def validate
    (validateWebhookPayload : String → Except String Unit)
    (j : Job) :
    Except String Unit :=
  if j.priority < priorityHigh ∨
      j.priority > priorityLow then
    .error "priority must be between 1 and 10"
  else if j.maxRetries < 0 ∨
      j.maxRetries > maxMaxRetries then
    .error "max_retries must be between 0 and 100"
  else if j.backoffSeconds < 1 ∨
      j.backoffSeconds > maxBackoffSeconds then
    .error "backoff_seconds must be between 1 and 86400"
  else if j.type = "" then
    .error "type is required"
  else if j.type = "webhook" then
    validateWebhookPayload j.payload
  else
    .error ("unsupported job type " ++ j.type.quote)

end Job

namespace Template

/- The job of a template before it is validated. -/
def job
    (t : Template)
    (tenantId id : Uuid)
    (now : Time) :
    Job where
  id := id
  tenantId := tenantId
  type := t.type
  payload := t.payload
  priority := t.priority.getD priorityNormal
  state := .pending
  runAt := now
  claimedAt := none
  claimedBy := none
  claimToken := none
  deadline := none
  attempt := 0
  maxRetries := t.maxRetries.getD defaultMaxRetries
  backoffSeconds :=
    t.backoffSeconds.getD defaultBackoffSeconds
  idempotencyKey := none
  lastError := none
  createdAt := now
  completedAt := none
  traceParent := none

/- `id` is the new UUID of the job. -/
def build
    (validateWebhookPayload : String → Except String Unit)
    (t : Template)
    (tenantId id : Uuid)
    (now : Time) :
    Except String Job := do
  (t.job tenantId id now).validate validateWebhookPayload
  return t.job tenantId id now

end Template

/-
  The job that `handleSubmitJob` stores for a request whose
  body carries `runAt` and `idempotencyKey`.
-/
def submitJob
    (validateWebhookPayload : String → Except String Unit)
    (t : Template)
    (tenantId id : Uuid)
    (now : Time)
    (runAt : Option Time)
    (idempotencyKey traceParent : Option String) :
    Except String Job := do
  let j ← t.build validateWebhookPayload tenantId id now
  let j :=
    { j with
      idempotencyKey := idempotencyKey
      traceParent := traceParent }
  match runAt with
  | some at_ =>
      if now < at_ then
        return { j with runAt := at_, state := .scheduled }
      else return j
  | none => return j

/- The job that `fireSchedule` stores for an occurrence. -/
def cronJob
    (validateWebhookPayload : String → Except String Unit)
    (t : Template)
    (tenantId id : Uuid)
    (now : Time)
    (key : String) :
    Except String Job := do
  let j ← t.build validateWebhookPayload tenantId id now
  return { j with idempotencyKey := some key }

------------------------------------------------------------
-- What A Built Job Satisfies
------------------------------------------------------------

variable
  {validateWebhookPayload : String → Except String Unit}

/- A job that passes the checks is within the limits. -/
theorem Job.limits_of_validate
    {j : Job}
    (hValid :
      j.validate validateWebhookPayload = .ok ()) :
    (priorityHigh ≤ j.priority ∧
        j.priority ≤ priorityLow) ∧
      (0 ≤ j.maxRetries ∧
        j.maxRetries ≤ maxMaxRetries) ∧
      (1 ≤ j.backoffSeconds ∧
        j.backoffSeconds ≤ maxBackoffSeconds) := by
  unfold Job.validate at hValid
  split at hValid
  · cases hValid
  · rename_i hPriority
    split at hValid
    · cases hValid
    · rename_i hRetries
      split at hValid
      · cases hValid
      · rename_i hBackoff
        exact ⟨by omega, by omega, by omega⟩

/- Building yields the template's job, and it is valid. -/
theorem Template.build_eq_ok
    {t : Template}
    {tenantId id : Uuid}
    {now : Time}
    {j : Job}
    (hBuild :
      t.build validateWebhookPayload tenantId id now =
        .ok j) :
    j = t.job tenantId id now ∧
      j.validate validateWebhookPayload = .ok () := by
  unfold Template.build at hBuild
  cases hValid :
      (t.job tenantId id now).validate
        validateWebhookPayload with
  | error message =>
      rw [hValid] at hBuild
      cases hBuild
  | ok _ =>
      rw [hValid] at hBuild
      cases hBuild
      exact ⟨rfl, hValid⟩

/-
  A submitted job has not been attempted, and is pending at
  the time of the request or scheduled for later.
-/
theorem submitJob_eq_ok
    {t : Template}
    {tenantId id : Uuid}
    {now : Time}
    {runAt : Option Time}
    {idempotencyKey traceParent : Option String}
    {j : Job}
    (hSubmit :
      submitJob validateWebhookPayload t tenantId id now
          runAt idempotencyKey traceParent =
        .ok j) :
    ∃ built,
      t.build validateWebhookPayload tenantId id now =
          .ok built ∧
        ((j =
            { built with
              idempotencyKey := idempotencyKey
              traceParent := traceParent }) ∨
          ∃ later, now < later ∧
            j =
              { built with
                idempotencyKey := idempotencyKey
                traceParent := traceParent
                runAt := later
                state := .scheduled }) := by
  unfold submitJob at hSubmit
  cases hBuild :
      t.build validateWebhookPayload tenantId id now with
  | error message =>
      rw [hBuild] at hSubmit
      cases hSubmit
  | ok built =>
      rw [hBuild] at hSubmit
      refine ⟨built, rfl, ?_⟩
      cases runAt with
      | none =>
          cases hSubmit
          exact .inl rfl
      | some later =>
          change
            (if now < later then
                (return { built with
                    idempotencyKey := idempotencyKey
                    traceParent := traceParent
                    runAt := later
                    state := .scheduled } :
                  Except String Job)
              else
                return { built with
                    idempotencyKey := idempotencyKey
                    traceParent := traceParent }) =
              .ok j at hSubmit
          by_cases hLater : now < later
          · rw [if_pos hLater] at hSubmit
            cases hSubmit
            exact .inr ⟨later, hLater, rfl⟩
          · rw [if_neg hLater] at hSubmit
            cases hSubmit
            exact .inl rfl

end Sluice
