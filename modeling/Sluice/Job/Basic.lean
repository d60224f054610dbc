import Mathlib.Data.Int.Basic

/-
  Jobs as package `job` defines them.

  Identifiers are natural numbers in the place of UUIDs, in
  the order of their bytes; `uuid.Nil` is zero. Times count
  microseconds from the Unix epoch, the precision at which
  Postgres stores them.

  Key definitions include:
    * `JobState`
    * `Job`
    * `Job.shouldRetry`
    * `Job.inFlight`
-/

------------------------------------------------------------
-- Identifiers And Times
------------------------------------------------------------

namespace Sluice

abbrev Uuid := Nat

abbrev Time := Int

/- `time.Second`. -/
def second : Time := 1000000

/- `Time.Unix`: whole seconds since the epoch. -/
def Time.unix (t : Time) : Int :=
  t / second

------------------------------------------------------------
-- Jobs
------------------------------------------------------------

/- The enumeration `job_state`. -/
inductive JobState
| pending
| scheduled
| claimed
| running
| succeeded
| failed
| dead
| cancelled
deriving DecidableEq, Repr

def priorityHigh : Int := 1

def priorityNormal : Int := 5

def priorityLow : Int := 10

/-
  A job, which is also a row of table `jobs`. The field
  `traceParent` is the column `trace_context`.
-/
structure Job where
  id : Uuid
  tenantId : Uuid
  type : String
  payload : String
  priority : Int
  state : JobState
  runAt : Time
  claimedAt : Option Time
  claimedBy : Option String
  claimToken : Option Uuid
  deadline : Option Time
  attempt : Int
  maxRetries : Int
  backoffSeconds : Int
  idempotencyKey : Option String
  lastError : Option String
  createdAt : Time
  completedAt : Option Time
  traceParent : Option String
deriving DecidableEq, Repr

namespace Job

/-
  Whether a failure of the current attempt earns another
  one; `attempt` counts the failed attempts before it.
-/
def shouldRetry (j : Job) : Bool :=
  j.attempt < j.maxRetries

/- `state IN ('claimed', 'running')`. -/
def inFlight (j : Job) : Bool :=
  j.state = .claimed || j.state = .running

end Job

end Sluice
