import Mathlib.Data.List.Basic
import Mathlib.Logic.Function.Basic
import Sluice.Job.Basic

/-
  The queues in Redis, as package `queue` keeps them.

  Every definition below is one command or one script, which
  Redis runs atomically. A lane is a list that grows at its
  head and is popped at its end. Markers and processing lists
  carry a time to live; the model does not follow it, and
  lets Redis drop such a key at any time.

  Key definitions include:
    * `Bucket` and `Lane`
    * `Redis`
    * `enqueueScript`, `enqueue` and `requeue`
    * `popScript` and `popKeys`
    * `removeFromProcessing`
    * `takeProcessing`

  Key theorems include:
    * `mem_lanes_enqueueScript_iff`
    * `popScript_eq_some`
    * `mem_lanes_deliver`
    * `mem_processing_deliver_iff`
-/

------------------------------------------------------------
-- Keys
------------------------------------------------------------

namespace Sluice

namespace Queue

/- The priority buckets `queue:1`, `queue:5`, `queue:10`. -/
inductive Bucket
| high
| normal
| low
deriving DecidableEq, Repr

def priorityBuckets : List Bucket :=
  [.high, .normal, .low]

def bucketForPriority (priority : Int) : Bucket :=
  if priority ≤ priorityHigh then .high
  else if priority ≤ priorityNormal then .normal
  else .low

/- The key `{bucket}:{tenantID}` of a tenant's list. -/
structure Lane where
  bucket : Bucket
  tenantId : Uuid
deriving DecidableEq, Repr

/- A popped job and the list it came from. -/
structure Item where
  jobId : Uuid
  list : Lane
deriving DecidableEq, Repr

/-
  The keys that hold jobs. `marked` tells which markers
  `enqueued:{job_id}` exist, and `processing` gives the list
  of each worker. `wake` counts the tokens for idle workers.
-/
structure Redis where
  lanes : Lane → List Uuid
  marked : Uuid → Bool
  processing : String → List Uuid
  wake : Nat

namespace Redis

def empty : Redis where
  lanes := fun _ => []
  marked := fun _ => false
  processing := fun _ => []
  wake := 0

------------------------------------------------------------
-- Scripts And Commands
------------------------------------------------------------

/- A job is pushed only if its marker was newly set. -/
def enqueueScript
    (lane : Lane)
    (jobId : Uuid)
    (r : Redis) :
    Redis :=
  if r.marked jobId then r
  else
    { r with
      lanes :=
        Function.update r.lanes lane (jobId :: r.lanes lane)
      marked := Function.update r.marked jobId true
      wake := min (r.wake + 1) 1000 }

def enqueue
    (tenantId jobId : Uuid)
    (priority : Int) :
    Redis → Redis :=
  enqueueScript ⟨bucketForPriority priority, tenantId⟩ jobId

def requeue (item : Item) : Redis → Redis :=
  enqueueScript item.list item.jobId

/- Move the last entry of a lane to a processing list. -/
def deliver
    (r : Redis)
    (item : Item)
    (workerId : String) :
    Redis :=
  { r with
    lanes :=
      Function.update r.lanes item.list
        (r.lanes item.list).dropLast
    marked := Function.update r.marked item.jobId false
    processing :=
      Function.update r.processing workerId
        (item.jobId :: r.processing workerId) }

/- The first lane that has an entry gives up its last one. -/
def popScript
    (workerId : String)
    (r : Redis) :
    List Lane → Option (Item × Redis)
| [] => none
| lane :: keys =>
    match (r.lanes lane).getLast? with
    | none => popScript workerId r keys
    | some jobId =>
        some (⟨jobId, lane⟩, r.deliver ⟨jobId, lane⟩ workerId)

/- The lanes in the order in which `Pop` tries them. -/
def popKeys (order : List Uuid) : List Lane :=
  priorityBuckets.flatMap (fun b => order.map (Lane.mk b))

/- `BLPOP` on the wake list, or its timeout. -/
def wait (r : Redis) : Redis :=
  { r with wake := r.wake - 1 }

/- `LREM` with count zero: every occurrence goes. -/
def removeFromProcessing
    (workerId : String)
    (jobId : Uuid)
    (r : Redis) :
    Redis :=
  { r with
    processing :=
      Function.update r.processing workerId
        ((r.processing workerId).filter (· ≠ jobId)) }

/- Drop a processing list: a `DEL`, or its expiry. -/
def dropProcessing
    (workerId : String)
    (r : Redis) :
    Redis :=
  { r with
    processing := Function.update r.processing workerId [] }

/- `LRANGE` and `DEL` of `DeadWorkerJobs`, as one. -/
def takeProcessing
    (workerId : String)
    (r : Redis) :
    List Uuid × Redis :=
  (r.processing workerId, r.dropProcessing workerId)

/- The expiry of a marker. -/
def dropMarker (jobId : Uuid) (r : Redis) : Redis :=
  { r with marked := Function.update r.marked jobId false }

------------------------------------------------------------
-- Effects
------------------------------------------------------------

variable {r : Redis}
variable {lane : Lane}
variable {jobId : Uuid}
variable {workerId : String}

@[simp] theorem processing_enqueueScript
    (lane : Lane)
    (jobId : Uuid)
    (r : Redis) :
    (r.enqueueScript lane jobId).processing =
      r.processing := by
  unfold enqueueScript
  split <;> rfl

/- A push adds one entry to one lane. -/
theorem mem_lanes_enqueueScript_iff
    {lane' : Lane}
    {jobId' : Uuid} :
    jobId' ∈ (r.enqueueScript lane jobId).lanes lane' ↔
      jobId' ∈ r.lanes lane' ∨
        (r.marked jobId = false ∧ jobId' = jobId ∧
          lane' = lane) := by
  unfold enqueueScript
  split
  · rename_i hMarked
    simp [hMarked]
  · rename_i hFree
    simp only [Bool.not_eq_true] at hFree
    by_cases hLane : lane' = lane
    · subst hLane
      simp [hFree, or_comm]
    · simp [hLane, Function.update_of_ne]

theorem marked_enqueueScript
    (lane : Lane)
    (jobId jobId' : Uuid)
    (r : Redis) :
    (r.enqueueScript lane jobId).marked jobId' =
      (r.marked jobId' || decide (jobId' = jobId)) := by
  unfold enqueueScript
  by_cases hSame : jobId' = jobId
  · subst hSame
    split <;> simp_all
  · split <;> simp [hSame, Function.update_of_ne]

variable {item : Item}
variable {workerId' : String}

/- What a pop delivers comes from one of the given lanes. -/
theorem popScript_eq_some
    {keys : List Lane}
    {r' : Redis}
    (hPop : r.popScript workerId keys = some (item, r')) :
    item.list ∈ keys ∧ item.jobId ∈ r.lanes item.list ∧
      r' = r.deliver item workerId := by
  induction keys with
  | nil => cases hPop
  | cons lane keys ih =>
      simp only [popScript] at hPop
      split at hPop
      · rcases ih hPop with ⟨hKey, hRest⟩
        exact ⟨List.mem_cons_of_mem _ hKey, hRest⟩
      · rename_i jobId hLast
        cases hPop
        exact ⟨List.mem_cons_self,
          List.mem_of_getLast? hLast, rfl⟩

/- The lanes of the given tenants, and no others. -/
theorem mem_popKeys_iff {order : List Uuid} :
    lane ∈ popKeys order ↔ lane.tenantId ∈ order := by
  rcases lane with ⟨bucket, tenantId⟩
  cases bucket <;> simp [popKeys, priorityBuckets]

/- A delivery adds nothing to any lane. -/
theorem mem_lanes_deliver
    {lane' : Lane}
    {jobId' : Uuid}
    (hMem :
      jobId' ∈ (r.deliver item workerId).lanes lane') :
    jobId' ∈ r.lanes lane' := by
  unfold deliver at hMem
  by_cases hLane : lane' = item.list
  · subst hLane
    simp only [Function.update_self] at hMem
    exact (List.dropLast_sublist _).subset hMem
  · simpa [Function.update_of_ne hLane] using hMem

theorem mem_processing_deliver_iff
    {jobId' : Uuid} :
    jobId' ∈
        (r.deliver item workerId).processing workerId' ↔
      jobId' ∈ r.processing workerId' ∨
        (workerId' = workerId ∧ jobId' = item.jobId) := by
  unfold deliver
  by_cases hWorker : workerId' = workerId
  · subst hWorker
    simp [or_comm]
  · simp [hWorker]

/- A removal takes one job off one worker's list. -/
theorem mem_processing_removeFromProcessing_iff
    {jobId' : Uuid} :
    jobId' ∈
        (r.removeFromProcessing workerId jobId).processing
          workerId' ↔
      jobId' ∈ r.processing workerId' ∧
        ¬(workerId' = workerId ∧ jobId' = jobId) := by
  unfold removeFromProcessing
  by_cases hWorker : workerId' = workerId
  · subst hWorker
    simp
  · simp [hWorker]

theorem processing_dropProcessing_of_ne
    (hWorker : workerId' ≠ workerId) :
    (r.dropProcessing workerId).processing workerId' =
      r.processing workerId' := by
  unfold dropProcessing
  exact Function.update_of_ne hWorker _ _

end Redis

end Queue

end Sluice
