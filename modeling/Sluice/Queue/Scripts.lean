import Sluice.Foundations.Keyspace
import Sluice.Queue.Redis

/-
  The two scripts of package `queue` as Redis runs them: on
  an array of keys, over lists whose entries are texts.

  The script of `Pop` gets the lanes of its tenants, bucket
  by bucket, and behind them the worker's processing list and
  the wake list. The model of `Redis` leaves the array out;
  `Represents` ties the two together.

  Key definitions include:
    * `Key`
    * `enqueueScript`, `popScript` and `popKeysArray`
    * `Takes`
    * `Op`, `Output` and `run`
    * `Represents`

  Key theorems include:
    * `popScript_eq`
    * `pop_takes_oldest_in_order`
    * `Represents.enqueue` and `Represents.pop`
-/

------------------------------------------------------------
-- Scripts
------------------------------------------------------------

namespace Sluice

namespace Queue

open Foundations

/-
  The keys that the queue uses. Their prefixes differ, so
  that no two of them are the same text.
-/
inductive Key
| lane (lane : Lane)
| enqueued (entry : String)
| processing (workerId : String)
| wake
| workerAlive (workerId : String)
deriving DecidableEq, Repr

namespace Key

theorem lane_ne_wake (lane : Lane) :
    Key.lane lane ≠ .wake := by
  intro hSame
  cases hSame

theorem lane_ne_processing
    (lane : Lane)
    (workerId : String) :
    Key.lane lane ≠ .processing workerId := by
  intro hSame
  cases hSame

theorem processing_ne_wake (workerId : String) :
    Key.processing workerId ≠ .wake := by
  intro hSame
  cases hSame

end Key

namespace Scripts

/- `KEYS[i]`: Lua counts from one. -/
def index {α : Type} (keys : List α) : Nat → Option α
| 0 => none
| i + 1 => keys[i]?

section

variable {V : Type}

/-
  `KEYS` has the lane, the marker and the wake list; the
  entry is pushed only if the marker was newly set.
-/
def enqueueScript
    (text : V → String)
    (lane : Lane)
    (entry token : V)
    (s : Keyspace Key V) :
    Bool × Keyspace Key V :=
  if s.present (.enqueued (text entry)) then (false, s)
  else
    (true,
      (((s.setPresent (.enqueued (text entry)) true).lpush
        (.lane lane) entry).lpush .wake token).ltrim .wake
          1000)

/- Rounds of the loop that are left, from index `i` on. -/
def popLoop
    (text : V → String)
    (keys : List Key)
    (dest : Key)
    (s : Keyspace Key V) :
    Nat → Nat → Option ((Key × V) × Keyspace Key V)
| 0, _ => none
| left + 1, i =>
    match index keys i with
    | none => none
    | some key =>
        match s.rpop key with
        | none => popLoop text keys dest s left (i + 1)
        | some (entry, s) =>
            some ((key, entry),
              (s.setPresent (.enqueued (text entry))
                false).lpush dest entry)

/- `for i = 1, #KEYS - 2`, with `dest = KEYS[#KEYS - 1]`. -/
def popScript
    (text : V → String)
    (keys : List Key)
    (s : Keyspace Key V) :
    Option ((Key × V) × Keyspace Key V) :=
  match index keys (keys.length - 1) with
  | none => none
  | some dest =>
      popLoop text keys dest s (keys.length - 2) 1

/- The keys that `Pop` passes to its script. -/
def popKeysArray
    (workerId : String)
    (order : List Uuid) :
    List Key :=
  (Redis.popKeys order).map Key.lane ++
    [.processing workerId, .wake]

/- Try the lists in order, without an array. -/
def popFirst
    (text : V → String)
    (dest : Key)
    (s : Keyspace Key V) :
    List Key → Option ((Key × V) × Keyspace Key V)
| [] => none
| key :: keys =>
    match s.rpop key with
    | none => popFirst text dest s keys
    | some (entry, s) =>
        some ((key, entry),
          (s.setPresent (.enqueued (text entry))
            false).lpush dest entry)

------------------------------------------------------------
-- The Array Of Keys And Its Order
------------------------------------------------------------

variable {text : V → String}
variable {s s' : Keyspace Key V}

theorem index_append
    {α : Type}
    (before after : List α)
    (key : α) :
    index (before ++ key :: after) (before.length + 1) =
      some key := by
  simp [index]

/- The loop goes through the keys between both ends. -/
theorem popLoop_eq
    (before keys after : List Key)
    (dest : Key)
    (s : Keyspace Key V) :
    popLoop text (before ++ keys ++ after) dest s
        keys.length (before.length + 1) =
      popFirst text dest s keys := by
  induction keys generalizing before with
  | nil => rfl
  | cons key keys ih =>
      have hIndex :
          index (before ++ (key :: keys) ++ after)
              (before.length + 1) =
            some key := by
        rw [List.append_assoc, List.cons_append]
        exact index_append before (keys ++ after) key
      have hRest := ih (before ++ [key])
      simp only [List.length_append, List.length_singleton,
        List.append_assoc, List.singleton_append] at hRest
      simp only [List.length_cons, popLoop, hIndex, popFirst]
      cases s.rpop key with
      | none =>
          simp only [List.append_assoc, List.cons_append]
          exact hRest
      | some popped => rfl

/-
  The loop ends before the last two keys, and the first of
  these is where a popped entry goes.
-/
theorem popScript_eq
    (keys : List Key)
    (dest last : Key)
    (s : Keyspace Key V) :
    popScript text (keys ++ [dest, last]) s =
      popFirst text dest s keys := by
  have hDest :
      index (keys ++ [dest, last])
          ((keys ++ [dest, last]).length - 1) =
        some dest := by
    simp [index]
  have hRounds :
      (keys ++ [dest, last]).length - 2 = keys.length := by
    simp
  simp only [popScript, hDest, hRounds]
  exact popLoop_eq [] keys [dest, last] dest s

/- The lists before the one that is popped are empty. -/
theorem popFirst_eq_some
    {dest key : Key}
    {entry : V}
    {keys : List Key}
    (hPop :
      popFirst text dest s keys = some ((key, entry), s')) :
    ∃ before after init,
      keys = before ++ key :: after ∧
        (∀ k ∈ before, s.lists k = []) ∧
          s.lists key = init ++ [entry] ∧
            s' =
              ((s.setList key init).setPresent
                (.enqueued (text entry)) false).lpush dest
                  entry := by
  induction keys with
  | nil => cases hPop
  | cons k keys ih =>
      simp only [popFirst] at hPop
      cases hHead : s.rpop k with
      | none =>
          rw [hHead] at hPop
          rcases ih hPop with
            ⟨before, after, init, rfl, hEmpty, hRest⟩
          refine ⟨k :: before, after, init, rfl, ?_, hRest⟩
          intro k' hk'
          rcases List.mem_cons.mp hk' with rfl | hLater
          · exact Keyspace.rpop_eq_none_iff.mp hHead
          · exact hEmpty k' hLater
      | some popped =>
          rcases popped with ⟨v, mid⟩
          rw [hHead] at hPop
          cases hPop
          rcases Keyspace.rpop_eq_some_iff.mp hHead with
            ⟨init, hInit, rfl⟩
          exact ⟨[], keys, init, rfl, by simp, hInit, rfl⟩

theorem popFirst_eq_none_iff
    {dest : Key}
    {keys : List Key} :
    popFirst text dest s keys = none ↔
      ∀ k ∈ keys, s.lists k = [] := by
  induction keys with
  | nil => simp [popFirst]
  | cons k keys ih =>
      simp only [popFirst, List.forall_mem_cons]
      cases hHead : s.rpop k with
      | none =>
          have hEmpty := Keyspace.rpop_eq_none_iff.mp hHead
          simp [hEmpty, ih]
      | some popped =>
          have hSome : s.lists k ≠ [] := by
            intro hEmpty
            rw [Keyspace.rpop_eq_none_iff.mpr hEmpty] at hHead
            cases hHead
          simp [hSome]

end

end Scripts

/- The place of a bucket among `priorityBuckets`. -/
def Bucket.rank : Bucket → Nat
| .high => 0
| .normal => 1
| .low => 2

/- Bucket after bucket. -/
theorem Redis.popKeys_sorted (order : List Uuid) :
    (popKeys order).Pairwise
      (fun a b => a.bucket.rank ≤ b.bucket.rank) := by
  simp only [popKeys, priorityBuckets, List.flatMap_cons,
    List.flatMap_nil, List.append_nil,
    List.pairwise_append, List.pairwise_map]
  simp [Bucket.rank, List.pairwise_iff_forall_sublist]

namespace Scripts

------------------------------------------------------------
-- One Pop
------------------------------------------------------------

section

variable {V : Type}
variable {text : V → String}
variable {s s' : Keyspace Key V}

/-
  A pop for a worker took an entry of a lane: the oldest one
  of a lane in the highest bucket that has any, and nothing
  else.
-/
structure Takes
    (tenants : List Uuid)
    (workerId : String)
    (s s' : Keyspace Key V)
    (lane : Lane)
    (entry : V) :
    Prop where
  tenant : lane.tenantId ∈ tenants
  highest : ∀ other : Lane, other.tenantId ∈ tenants →
    s.lists (.lane other) ≠ [] →
      lane.bucket.rank ≤ other.bucket.rank
  oldest : s.lists (.lane lane) =
    s'.lists (.lane lane) ++ [entry]
  processing : s'.lists (.processing workerId) =
    entry :: s.lists (.processing workerId)
  others : ∀ key, key ≠ .lane lane →
    key ≠ .processing workerId →
      s'.lists key = s.lists key

theorem popScript_takes
    {workerId : String}
    {order : List Uuid}
    {key : Key}
    {entry : V}
    (hPop :
      popScript text (popKeysArray workerId order) s =
        some ((key, entry), s')) :
    ∃ lane, key = .lane lane ∧
      Takes order workerId s s' lane entry := by
  rw [popKeysArray, popScript_eq] at hPop
  rcases popFirst_eq_some hPop with
    ⟨before, after, init, hKeys, hEmpty, hInit, rfl⟩
  rcases List.map_eq_append_iff.mp hKeys with
    ⟨lanes, rest, hLanes, rfl, hRest⟩
  rcases List.map_eq_cons_iff.mp hRest with
    ⟨lane, lanes', rfl, rfl, rfl⟩
  have hOther := Key.lane_ne_processing lane workerId
  refine ⟨lane, rfl, ?_, ?_, ?_, ?_, ?_⟩
  · apply Redis.mem_popKeys_iff.mp
    rw [hLanes]
    simp
  · intro other hTenant hSome
    have hSorted := Redis.popKeys_sorted order
    have hMem := Redis.mem_popKeys_iff.mpr hTenant
    rw [hLanes] at hSorted hMem
    rcases List.mem_append.mp hMem with hBefore | hFrom
    · -- The lanes before the popped one are empty.
      exact absurd
        (hEmpty _ (List.mem_map_of_mem hBefore)) hSome
    · rcases List.mem_cons.mp hFrom with rfl | hAfter
      · exact Nat.le_refl _
      · have hTail := (List.pairwise_append.mp hSorted).2.1
        exact (List.pairwise_cons.mp hTail).1 other hAfter
  · rw [hInit, Keyspace.lpush,
      Keyspace.lists_setList_of_ne hOther]
    simp
  · rw [Keyspace.lpush, Keyspace.lists_setList_self,
      Keyspace.lists_setPresent,
      Keyspace.lists_setList_of_ne hOther.symm]
  · intro key hLane hProcessing
    rw [Keyspace.lpush,
      Keyspace.lists_setList_of_ne hProcessing,
      Keyspace.lists_setPresent,
      Keyspace.lists_setList_of_ne hLane]

/- A pop finds an entry if there is one. -/
theorem popScript_isSome
    (text : V → String)
    (workerId : String)
    {order : List Uuid}
    {lane : Lane}
    (hTenant : lane.tenantId ∈ order)
    (hSome : s.lists (.lane lane) ≠ []) :
    ∃ popped,
      popScript text (popKeysArray workerId order) s =
        some popped := by
  rw [popKeysArray, popScript_eq]
  apply Option.ne_none_iff_exists'.mp
  intro hNone
  apply hSome
  exact popFirst_eq_none_iff.mp hNone _
    (List.mem_map_of_mem (Redis.mem_popKeys_iff.mpr hTenant))

end

------------------------------------------------------------
-- Runs
------------------------------------------------------------

/-
  Calls on the queue, script by script. A `Pop` that finds
  nothing waits for a token and runs its script again.
  Markers and processing lists expire.
-/
inductive Op
| enqueue (tenantId jobId : Uuid) (priority : Int)
| pop (workerId : String) (order : List Uuid)
| wait
| expireMarker (entry : String)
| expireProcessing (workerId : String)
deriving DecidableEq, Repr

/- What a script reports. -/
inductive Output
| pushed (lane : Lane) (entry : String)
| popped (key : Key) (entry : String)
| nothing
deriving DecidableEq, Repr

/- `string` is `uuid.UUID.String`. -/
def step
    (string : Uuid → String)
    (s : Keyspace Key String) :
    Op → Output × Keyspace Key String
| .enqueue tenantId jobId priority =>
    let lane : Lane := ⟨bucketForPriority priority, tenantId⟩
    let (new, s) :=
      enqueueScript id lane (string jobId) "1" s
    (if new then .pushed lane (string jobId) else .nothing, s)
| .pop workerId order =>
    match popScript id (popKeysArray workerId order) s with
    | none => (.nothing, s)
    | some ((key, entry), s) => (.popped key entry, s)
| .wait => (.nothing, s.lpop .wake)
| .expireMarker entry =>
    (.nothing, s.setPresent (.enqueued entry) false)
| .expireProcessing workerId =>
    (.nothing, s.del (.processing workerId))

def run
    (string : Uuid → String)
    (s : Keyspace Key String) :
    List Op → List Output × Keyspace Key String
| [] => ([], s)
| op :: ops =>
    let (output, s) := step string s op
    let (outputs, s) := run string s ops
    (output :: outputs, s)

/- The entry that was put into the lane. -/
def Output.put? (lane : Lane) : Output → Option String
| .pushed l entry => if l = lane then some entry else none
| _ => none

/- The entry that left the lane. -/
def Output.got? (lane : Lane) : Output → Option String
| .popped key entry =>
    if key = .lane lane then some entry else none
| _ => none

section

variable {string : Uuid → String}
variable {s : Keyspace Key String}

/- A push reaches one lane, if the marker was not set. -/
theorem lane_enqueueScript
    {V : Type}
    (text : V → String)
    (lane lane' : Lane)
    (entry token : V)
    (s : Keyspace Key V) :
    (enqueueScript text lane entry token s).2.lists
        (.lane lane') =
      if (enqueueScript text lane entry token s).1 = true ∧
          lane' = lane then
        entry :: s.lists (.lane lane')
      else s.lists (.lane lane') := by
  unfold enqueueScript
  split
  · simp
  · simp only [Keyspace.ltrim, Keyspace.lpush,
      Keyspace.lists_setList_of_ne (Key.lane_ne_wake _),
      true_and]
    by_cases hLane : lane' = lane
    · subst hLane
      simp
    · have hKey : Key.lane lane' ≠ .lane lane :=
        mt Key.lane.inj hLane
      simp [hLane, Keyspace.lists_setList_of_ne hKey]

theorem processing_enqueueScript
    {V : Type}
    (text : V → String)
    (lane : Lane)
    (entry token : V)
    (s : Keyspace Key V)
    (workerId : String) :
    (enqueueScript text lane entry token s).2.lists
        (.processing workerId) =
      s.lists (.processing workerId) := by
  have hLane :=
    (Key.lane_ne_processing lane workerId).symm
  unfold enqueueScript
  split
  · rfl
  · simp only [Keyspace.ltrim, Keyspace.lpush,
      Keyspace.lists_setList_of_ne
        (Key.processing_ne_wake workerId),
      Keyspace.lists_setList_of_ne hLane,
      Keyspace.lists_setPresent]

/- A step hands on what it takes out of a lane. -/
def Hands
    (lane : Lane)
    (s : Keyspace Key String)
    (after : Output × Keyspace Key String) :
    Prop :=
  Passed (s.lists (.lane lane))
    (after.1.put? lane).toList (after.1.got? lane).toList
    (after.2.lists (.lane lane))

/- So does one that reports nothing and keeps the lanes. -/
theorem hands_nothing
    {lane : Lane}
    {s' : Keyspace Key String}
    (hKept : s'.lists (.lane lane) = s.lists (.lane lane)) :
    Hands lane s (.nothing, s') := by
  have hSame := Passed.refl (s.lists (.lane lane))
  simpa [Hands, Output.put?, Output.got?, hKept] using hSame

theorem enqueue_hands
    (string : Uuid → String)
    (s : Keyspace Key String)
    (tenantId jobId : Uuid)
    (priority : Int)
    (lane : Lane) :
    Hands lane s
      (step string s (.enqueue tenantId jobId priority)) := by
  have hSame := Passed.refl (s.lists (.lane lane))
  simp only [step, Hands]
  rw [lane_enqueueScript]
  generalize (enqueueScript id _ (string jobId) "1" s).1 = new
  cases new with
  | false => simpa [Output.put?, Output.got?] using hSame
  | true =>
      by_cases hLane :
          lane = ⟨bucketForPriority priority, tenantId⟩
      · subst hLane
        have hPush := Passed.lpush
          (s.lists
            (.lane ⟨bucketForPriority priority, tenantId⟩))
          (string jobId)
        simpa [Output.put?, Output.got?] using hPush
      · have hOther := Ne.symm hLane
        simpa [Output.put?, Output.got?, hLane, hOther]
          using hSame

theorem pop_hands
    (string : Uuid → String)
    (s : Keyspace Key String)
    (workerId : String)
    (order : List Uuid)
    (lane : Lane) :
    Hands lane s (step string s (.pop workerId order)) := by
  cases hPop : popScript id (popKeysArray workerId order)
      s with
  | none =>
      simp only [step, hPop]
      exact hands_nothing rfl
  | some popped =>
      rcases popped with ⟨⟨key, entry⟩, s'⟩
      rcases popScript_takes hPop with ⟨from_, rfl, hTakes⟩
      simp only [step, hPop, Hands, Output.put?, Output.got?]
      by_cases hLane : from_ = lane
      · subst hLane
        rw [hTakes.oldest]
        simpa using Passed.rpop (s'.lists (.lane from_)) entry
      · have hKept := hTakes.others (.lane lane)
          (mt Key.lane.inj (Ne.symm hLane))
          (Key.lane_ne_processing lane workerId)
        rw [hKept]
        simpa [hLane] using
          Passed.refl (s.lists (.lane lane))

theorem step_hands
    (string : Uuid → String)
    (s : Keyspace Key String)
    (op : Op)
    (lane : Lane) :
    Hands lane s (step string s op) := by
  cases op with
  | enqueue tenantId jobId priority =>
      exact enqueue_hands string s tenantId jobId priority
        lane
  | pop workerId order =>
      exact pop_hands string s workerId order lane
  | wait =>
      exact hands_nothing
        (Keyspace.lists_setList_of_ne (Key.lane_ne_wake lane))
  | expireMarker entry => exact hands_nothing rfl
  | expireProcessing workerId =>
      exact hands_nothing
        (Keyspace.lists_setList_of_ne
          (Key.lane_ne_processing lane workerId))

theorem run_passed
    (string : Uuid → String)
    (s : Keyspace Key String)
    (ops : List Op)
    (lane : Lane) :
    Passed (s.lists (.lane lane))
      ((run string s ops).1.filterMap (Output.put? lane))
      ((run string s ops).1.filterMap (Output.got? lane))
      ((run string s ops).2.lists (.lane lane)) := by
  induction ops generalizing s with
  | nil => exact Passed.refl _
  | cons op ops ih =>
      have hAll := (step_hands string s op lane).trans
        (ih (step string s op).2)
      simp only [run, List.filterMap_cons]
      generalize (step string s op).1 = output at hAll ⊢
      cases hPut : output.put? lane <;>
        cases hGot : output.got? lane <;>
          simpa [hPut, hGot] using hAll

/-
  Whatever the lanes hold and in whatever order the tenants
  come: a pop takes the oldest entry of a lane in the highest
  bucket that has any, and moves nothing else. Over any run,
  what leaves a lane is what went into it, in that order.
-/
theorem pop_takes_oldest_in_order
    (string : Uuid → String)
    (s : Keyspace Key String) :
    (∀ workerId tenants order,
        List.Perm order tenants →
          (∃ lane : Lane, lane.tenantId ∈ tenants ∧
            s.lists (.lane lane) ≠ []) →
              ∃ lane entry s',
                step string s (.pop workerId order) =
                    (.popped (.lane lane) entry, s') ∧
                  Takes tenants workerId s s' lane entry) ∧
      ∀ ops lane,
        (s.lists (.lane lane)).reverse ++
            (run string s ops).1.filterMap
              (Output.put? lane) =
          (run string s ops).1.filterMap
              (Output.got? lane) ++
            ((run string s ops).2.lists
              (.lane lane)).reverse := by
  refine ⟨?_, fun ops lane => run_passed string s ops lane⟩
  rintro workerId tenants order hPerm ⟨some_, hTenant, hSome⟩
  rcases popScript_isSome id workerId
    (hPerm.mem_iff.mpr hTenant) hSome with
    ⟨⟨⟨key, entry⟩, s'⟩, hPop⟩
  rcases popScript_takes hPop with ⟨lane, rfl, hTakes⟩
  refine ⟨lane, entry, s', ?_, ?_⟩
  · simp only [step, hPop]
  · exact
      { hTakes with
        tenant := hPerm.mem_iff.mp hTakes.tenant
        highest := fun other hOther =>
          hTakes.highest other (hPerm.mem_iff.mpr hOther) }

end

namespace Sample

/- One tenant has a normal job, another two urgent ones. -/
def keys : Keyspace Key String :=
  (Keyspace.empty.setList (.lane ⟨.normal, 1⟩) ["7"]).setList
    (.lane ⟨.high, 2⟩) ["9", "8"]

end Sample

/- The older urgent job comes first, behind any order. -/
theorem pop_takes_oldest_urgent :
    (∃ lane : Lane, lane.tenantId ∈ [2, 1] ∧
        Sample.keys.lists (.lane lane) ≠ []) ∧
      ∃ s',
        step toString Sample.keys (.pop "w" [1, 2]) =
            (.popped (.lane ⟨.high, 2⟩) "8", s') ∧
          Takes [2, 1] "w" Sample.keys s' ⟨.high, 2⟩ "8" := by
  have hSome :
      ∃ lane : Lane, lane.tenantId ∈ [2, 1] ∧
        Sample.keys.lists (.lane lane) ≠ [] :=
    ⟨⟨.high, 2⟩, by decide, by decide⟩
  refine ⟨hSome, ?_⟩
  rcases (pop_takes_oldest_in_order toString
    Sample.keys).1 "w" [2, 1] [1, 2] (by decide) hSome with
    ⟨lane, entry, s', hStep, hTakes⟩
  have hFirst :
      (step toString Sample.keys (.pop "w" [1, 2])).1 =
        .popped (.lane ⟨.high, 2⟩) "8" := by
    decide +kernel
  rw [hStep] at hFirst
  cases hFirst
  exact ⟨s', hStep, hTakes⟩

------------------------------------------------------------
-- The Model Of Redis
------------------------------------------------------------

/- The keys hold what the model says, as texts. -/
structure Represents
    (string : Uuid → String)
    (s : Keyspace Key String)
    (r : Redis) :
    Prop where
  lanes : ∀ lane,
    s.lists (.lane lane) = (r.lanes lane).map string
  marked : ∀ id,
    s.present (.enqueued (string id)) = r.marked id
  processing : ∀ workerId,
    s.lists (.processing workerId) =
      (r.processing workerId).map string
  wake : (s.lists .wake).length = r.wake

section

variable {string : Uuid → String}
variable {s : Keyspace Key String}
variable {r : Redis}

/- The script of `Enqueue` does what the model does. -/
theorem Represents.enqueue
    (hString : Function.Injective string)
    (hRep : Represents string s r)
    (tenantId jobId : Uuid)
    (priority : Int) :
    Represents string
      (step string s (.enqueue tenantId jobId priority)).2
      (r.enqueue tenantId jobId priority) := by
  have hMarked := hRep.marked jobId
  cases hOld : r.marked jobId with
  | true =>
      rw [hOld] at hMarked
      simpa [step, enqueueScript, hMarked, Redis.enqueue,
        Redis.enqueueScript, hOld] using hRep
  | false =>
      rw [hOld] at hMarked
      refine ⟨?_, ?_, ?_, ?_⟩
      · intro lane
        simp only [step]
        rw [lane_enqueueScript, hRep.lanes]
        by_cases hLane :
            lane = ⟨bucketForPriority priority, tenantId⟩
        · subst hLane
          simp [enqueueScript, hMarked, Redis.enqueue,
            Redis.enqueueScript, hOld]
        · simp [hLane, Redis.enqueue, Redis.enqueueScript,
            hOld]
      · intro other
        rw [Redis.enqueue, Redis.marked_enqueueScript,
          ← hRep.marked other]
        have hText :
            string other = string jobId ↔ other = jobId :=
          hString.eq_iff
        by_cases hSame : other = jobId
        · subst hSame
          simp [step, enqueueScript, hMarked, Keyspace.ltrim,
            Keyspace.lpush, Keyspace.present_setPresent]
        · simp [step, enqueueScript, hMarked, Keyspace.ltrim,
            Keyspace.lpush, Keyspace.present_setPresent,
            hText, hSame]
      · intro workerId
        rw [Redis.enqueue, Redis.processing_enqueueScript,
          ← hRep.processing workerId]
        apply processing_enqueueScript
      · have hTrim : ∀ n : Nat,
            min 999 n + 1 = min (n + 1) 1000 := by
          omega
        simp [step, enqueueScript, hMarked, Keyspace.ltrim,
          Keyspace.lpush, Keyspace.lists_setList_of_ne,
          Redis.enqueue, Redis.enqueueScript, hOld,
          ← hRep.wake, hTrim]

/- A delivery of the model is the pop of a lane's end. -/
theorem Represents.deliver
    (hString : Function.Injective string)
    (hRep : Represents string s r)
    (item : Item)
    {workerId : String}
    {init : List String}
    (hLast :
      s.lists (.lane item.list) =
        init ++ [string item.jobId]) :
    Represents string
      (((s.setList (.lane item.list) init).setPresent
        (.enqueued (string item.jobId)) false).lpush
          (.processing workerId) (string item.jobId))
      (r.deliver item workerId) := by
  have hInit :
      init = (r.lanes item.list).dropLast.map string := by
    rw [List.map_dropLast, ← hRep.lanes, hLast]
    simp
  refine ⟨?_, ?_, ?_, ?_⟩
  · intro lane
    by_cases hLane : lane = item.list
    · subst hLane
      simp [Keyspace.lpush, Keyspace.lists_setList_of_ne,
        Redis.deliver, hInit]
    · have hKey : Key.lane lane ≠ .lane item.list :=
        mt Key.lane.inj hLane
      simp [Keyspace.lpush, Keyspace.lists_setList_of_ne,
        hKey, Redis.deliver, hLane, hRep.lanes]
  · intro other
    have hText :
        string other = string item.jobId ↔
          other = item.jobId :=
      hString.eq_iff
    by_cases hSame : other = item.jobId
    · subst hSame
      simp [Keyspace.lpush, Keyspace.present_setPresent,
        Redis.deliver]
    · simp [Keyspace.lpush, Keyspace.present_setPresent,
        hText, hSame, Redis.deliver, hRep.marked]
  · intro other
    by_cases hWorker : other = workerId
    · subst hWorker
      simp [Keyspace.lpush, Keyspace.lists_setList_of_ne,
        Redis.deliver, hRep.processing]
    · have hKey :
          Key.processing other ≠ .processing workerId :=
        mt Key.processing.inj hWorker
      simp [Keyspace.lpush, Keyspace.lists_setList_of_ne,
        hKey, Redis.deliver, hWorker, hRep.processing]
  · simpa [Keyspace.lpush, Keyspace.lists_setList_of_ne,
      Redis.deliver] using hRep.wake

/- So is its choice of a lane. -/
theorem Represents.popFirst
    (hString : Function.Injective string)
    (hRep : Represents string s r)
    (workerId : String)
    (lanes : List Lane) :
    match r.popScript workerId lanes with
    | none =>
        Scripts.popFirst id (.processing workerId) s
          (lanes.map Key.lane) = none
    | some (item, r') =>
        ∃ s',
          Scripts.popFirst id (.processing workerId) s
              (lanes.map Key.lane) =
            some ((.lane item.list, string item.jobId), s') ∧
            Represents string s' r' := by
  induction lanes with
  | nil => rfl
  | cons lane lanes ih =>
      have hLane := hRep.lanes lane
      cases hLast : (r.lanes lane).getLast? with
      | none =>
          have hNil : r.lanes lane = [] :=
            List.getLast?_eq_none_iff.mp hLast
          rw [hNil] at hLane
          have hPop := Keyspace.rpop_eq_none_iff.mpr hLane
          simpa only [Redis.popScript, hLast,
            List.map_cons, Scripts.popFirst, hPop] using ih
      | some jobId =>
          have hSplit :=
            List.dropLast_append_getLast? _ hLast
          have hTexts :
              s.lists (.lane lane) =
                (r.lanes lane).dropLast.map string ++
                  [string jobId] := by
            rw [hLane, ← hSplit]
            simp
          have hPop := Keyspace.rpop_eq_some_iff.mpr
            ⟨_, hTexts, rfl⟩
          simp only [Redis.popScript, hLast, List.map_cons,
            Scripts.popFirst, hPop]
          exact ⟨_, rfl,
            hRep.deliver hString ⟨jobId, lane⟩ hTexts⟩

/- The script of `Pop` pops what the model pops. -/
theorem Represents.pop
    (hString : Function.Injective string)
    (hRep : Represents string s r)
    (workerId : String)
    (order : List Uuid) :
    match r.popScript workerId (Redis.popKeys order) with
    | none =>
        step string s (.pop workerId order) = (.nothing, s)
    | some (item, r') =>
        ∃ s',
          step string s (.pop workerId order) =
              (.popped (.lane item.list)
                (string item.jobId), s') ∧
            Represents string s' r' := by
  have hFirst := hRep.popFirst hString workerId
    (Redis.popKeys order)
  simp only [step, popKeysArray, popScript_eq]
  cases hPop : r.popScript workerId (Redis.popKeys order) with
  | none =>
      rw [hPop] at hFirst
      rw [hFirst]
  | some popped =>
      rw [hPop] at hFirst
      rcases hFirst with ⟨s', hFound, hRep'⟩
      rw [hFound]
      exact ⟨s', rfl, hRep'⟩

end

end Scripts

end Queue

end Sluice
