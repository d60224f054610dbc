import Sluice.Foundations.Machine
import Sluice.Queue.Redis

/-
  Producers, consumers and drains at work on the queues.

  A process issues one command or script at a time, so that
  the steps of any number of processes interleave freely.
  `EnqueueMany` sends its scripts in one round trip, but other
  processes' commands may come in between.

  `sluice-cli drain` first deletes the lists that it finds by
  `SCAN`, and then the markers that it finds by another one.
  Of `SCAN` it is assumed that it returns every key that
  exists during the whole scan.

  Key definitions include:
    * `Drain` and `Drain.step`
    * `State`, `Label` and `step`
    * `queueing`
    * `scansComplete`
    * `undisturbed`
-/

------------------------------------------------------------
-- Drains
------------------------------------------------------------

namespace Sluice

namespace Queue

open Foundations

/- The keys that match `queue:*`. -/
inductive QueueKey
| lane (lane : Lane)
| wake
deriving DecidableEq, Repr

namespace Redis

/- `LLEN` of a list. -/
def llen (r : Redis) : QueueKey → Nat
| .lane lane => (r.lanes lane).length
| .wake => r.wake

/- `DEL` of a list. -/
def delQueue (r : Redis) : QueueKey → Redis
| .lane lane =>
    { r with lanes := Function.update r.lanes lane [] }
| .wake => { r with wake := 0 }

/- `DEL` of markers. -/
def delMarkers (r : Redis) (jobIds : List Uuid) : Redis :=
  { r with
    marked := fun jobId =>
      r.marked jobId && !jobIds.contains jobId }

end Redis

namespace Traffic

/-
  Where a drain stands, as the command that it issues next.
  `last` tells that the scan's cursor came back as zero.
-/
inductive Phase
| scanQueues
| llen (key : QueueKey) (keys : List QueueKey) (last : Bool)
| delQueue
    (key : QueueKey) (n : Nat)
    (keys : List QueueKey) (last : Bool)
| scanMarkers
| delMarkers (jobIds : List Uuid) (last : Bool)
deriving DecidableEq, Repr

namespace Phase

/- The next list of a batch, or the next scan. -/
def ofBatch : List QueueKey → Bool → Phase
| key :: keys, last => .llen key keys last
| [], false => .scanQueues
| [], true => .scanMarkers

/- The markers have not been scanned yet. -/
def onQueues : Phase → Bool
| .scanQueues => true
| .llen _ _ _ => true
| .delQueue _ _ _ _ => true
| .scanMarkers => false
| .delMarkers _ _ => false

end Phase

/-
  A drain in progress. For the assumption on `SCAN` it is
  noted which markers exist since the scan for them began,
  and which of them were returned.
-/
structure Drain where
  phase : Phase
  totalJobs : Nat
  queueCount : Nat
  steady : Uuid → Bool
  returned : List Uuid

namespace Drain

def start (r : Redis) : Drain where
  phase := .scanQueues
  totalJobs := 0
  queueCount := 0
  steady := r.marked
  returned := []

/- The lines that a drain prints when it is done. -/
def report (d : Drain) : List String :=
  if d.totalJobs = 0 then ["queues already empty"]
  else
    ["removed " ++ toString d.totalJobs ++ " jobs from " ++
        toString d.queueCount ++ " queues",
      "jobs are preserved in postgres and will be " ++
        "re-enqueued by the reconciler when ready"]

/- Note which markers still exist. -/
def observe (r : Redis) (d : Drain) : Drain :=
  { d with
    steady := fun jobId =>
      r.marked jobId &&
        (d.phase.onQueues || d.steady jobId) }

end Drain

/- What Redis answers to the next command of a drain. -/
inductive Answer
| queues (keys : List QueueKey) (last : Bool)
| markers (jobIds : List Uuid) (last : Bool)
| done
deriving DecidableEq, Repr

/-
  One command of a drain. The drain is over when the second
  result is `none`.
-/
def Drain.step
    (d : Drain)
    (r : Redis) :
    Answer → Option (Redis × Option Drain)
| .queues keys last =>
    match d.phase with
    | .scanQueues =>
        some (r,
          some { d with phase := .ofBatch keys last })
    | _ => none
| .markers jobIds last =>
    match d.phase with
    | .scanMarkers =>
        let d' :=
          { d with returned := d.returned ++ jobIds }
        if jobIds = [] then
          some (r, if last then none else some d')
        else
          some (r,
            some { d' with phase := .delMarkers jobIds last })
    | _ => none
| .done =>
    match d.phase with
    | .llen key keys last =>
        if r.llen key = 0 then
          some (r,
            some { d with phase := .ofBatch keys last })
        else
          some (r,
            some
              { d with
                phase :=
                  .delQueue key (r.llen key) keys last })
    | .delQueue key n keys last =>
        some (r.delQueue key,
          some
            { d with
              phase := .ofBatch keys last
              totalJobs := d.totalJobs + n
              queueCount := d.queueCount + 1 })
    | .delMarkers jobIds last =>
        some (r.delMarkers jobIds,
          if last then none
          else some { d with phase := .scanMarkers })
    | _ => none

------------------------------------------------------------
-- All Processes
------------------------------------------------------------

/- A job for `EnqueueMany`. -/
structure Entry where
  jobId : Uuid
  tenantId : Uuid
  priority : Int
deriving DecidableEq, Repr

/- Pipelines are given by the entries not yet enqueued. -/
structure State where
  redis : Redis
  pipelines : List (List Entry)
  drains : List Drain
  output : List String

inductive Label
| enqueue (tenantId jobId : Uuid) (priority : Int)
| enqueueMany (entries : List Entry)
| pipe (i : Nat)
| requeue (item : Item)
| pop (workerId : String) (order : List Uuid)
| wait
| expire (jobId : Uuid)
| startDrain
| drain (i : Nat) (answer : Answer)
deriving DecidableEq, Repr

namespace State

def empty : State where
  redis := Redis.empty
  pipelines := []
  drains := []
  output := []

/- A change of Redis, as the drains in progress note it. -/
def withRedis (s : State) (r : Redis) : State :=
  { s with
    redis := r
    drains := s.drains.map (Drain.observe r) }

/- The next script of a pipeline. -/
def stepPipe (s : State) (i : Nat) : Option State :=
  match s.pipelines[i]? with
  | none => none
  | some [] =>
      some { s with pipelines := s.pipelines.eraseIdx i }
  | some (e :: entries) =>
      some
        ({ s with
            pipelines :=
              s.pipelines.set i entries }.withRedis
          (s.redis.enqueue e.tenantId e.jobId e.priority))

/- A drain's next command. -/
def stepDrain
    (s : State)
    (i : Nat)
    (answer : Answer) :
    Option State :=
  match s.drains[i]? with
  | none => none
  | some d =>
      match d.step s.redis answer with
      | none => none
      | some (r, some d') =>
          some
            ({ s with drains := s.drains.set i d' }.withRedis
              r)
      | some (r, none) =>
          some
            ({ s with
                drains := s.drains.eraseIdx i
                output := s.output ++ d.report }.withRedis
              r)

end State

def step (label : Label) (s : State) : Option State :=
  match label with
  | .enqueue tenantId jobId priority =>
      some
        (s.withRedis
          (s.redis.enqueue tenantId jobId priority))
  | .enqueueMany entries =>
      some { s with pipelines := s.pipelines ++ [entries] }
  | .pipe i => s.stepPipe i
  | .requeue item =>
      some (s.withRedis (s.redis.requeue item))
  | .pop workerId order =>
      (s.redis.popScript workerId
        (Redis.popKeys order)).map
        (fun popped => s.withRedis popped.2)
  | .wait => some (s.withRedis s.redis.wait)
  | .expire jobId =>
      some (s.withRedis (s.redis.dropMarker jobId))
  | .startDrain =>
      some
        { s with
          drains := s.drains ++ [Drain.start s.redis] }
  | .drain i answer => s.stepDrain i answer

def queueing : Machine State Label where
  init := fun s => s = State.empty
  step := step

/-
  When the scan for markers ends, every marker that exists
  since it began has been returned.
-/
def scansComplete (s : State) : Label → Prop
| .drain i (.markers jobIds true) =>
    ∀ d, s.drains[i]? = some d →
      ∀ jobId, d.steady jobId = true →
        jobId ∈ d.returned ++ jobIds
| _ => True

/- No marker expires, and nobody drains the queues. -/
def undisturbed (_ : State) : Label → Prop
| .expire _ => False
| .startDrain => False
| _ => True

end Traffic

end Queue

end Sluice
