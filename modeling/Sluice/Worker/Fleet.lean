import Sluice.Queue.Redis
import Sluice.Storage.Sessions

/-
  Workers with the database and the queues they share.

  A worker refreshes its list of tenants in the background
  and runs any number of goroutines, each of which pops one
  job at a time and processes it. Goroutines meet the rest of
  the system in single steps: a Redis script, a read of the
  worker's tenant cache, a call to the database. A call runs
  by steps of its own, and the outcome that the goroutine
  then sees is left open.

  Key definitions include:
    * `Cache`, `loadTenants` and `dequeueTenants`
    * `Cache.claim`
    * `Shared` and `Shared.step`
    * `Routine` and `Routine.step`
    * `Fleet` and `fleet`

  Key theorems include:
    * `Fleet.reachableWith_invariant`
    * `Fleet.sys_reachable`
-/

------------------------------------------------------------
-- Tenant Caches
------------------------------------------------------------

namespace Sluice

namespace Worker

open Foundations ReadCommitted Storage Queue

structure TenantWeight where
  id : Uuid
  weight : Int
deriving DecidableEq, Repr

/-
  What a worker knows about tenants. A tenant without an
  entry in the map `limits` reads as zero there. `loading`
  has the rows that a `loadTenants` in progress has read and
  not yet stored.
-/
structure Cache where
  tenants : List TenantWeight
  limits : Uuid → Int
  throttled : Uuid → Option Time
  loading : Option (List Tenant)

namespace Cache

/- The cache of a worker that has just started. -/
def new : Cache where
  tenants := []
  limits := fun _ => 0
  throttled := fun _ => none
  loading := none

def weightOf (t : Tenant) : TenantWeight where
  id := t.id
  weight := if t.weight ≤ 0 then 100 else t.weight

/- Tenants without a limit get no entry. -/
def addLimit
    (limits : Uuid → Int)
    (t : Tenant) :
    Uuid → Int :=
  if t.maxConcurrency > 0 then
    Function.update limits t.id t.maxConcurrency
  else limits

def limitsOf (rows : List Tenant) : Uuid → Int :=
  rows.foldl addLimit (fun _ => 0)

/- `loadTenants`, once it has the rows. -/
def loadTenants
    (rows : List Tenant)
    (c : Cache) :
    Cache :=
  { c with
    tenants := rows.map weightOf
    limits := limitsOf rows
    loading := none }

def isThrottled
    (now : Time)
    (c : Cache)
    (tenantId : Uuid) :
    Bool :=
  (c.throttled tenantId).any (fun until_ => now < until_)

/- The tenants that are not throttled at the time. -/
def dequeueTenants
    (now : Time)
    (c : Cache) :
    List TenantWeight :=
  c.tenants.filter (fun t => !c.isThrottled now t.id)

/- 250 milliseconds. -/
def throttleFor : Time := 250000

def throttle
    (now : Time)
    (tenantId : Uuid)
    (c : Cache) :
    Cache :=
  { c with
    throttled :=
      Function.update c.throttled tenantId
        (some (now + throttleFor)) }

/-
  The claim of a popped job: capped if the cache has a limit
  for the tenant of its lane.
-/
def claim
    (c : Cache)
    (item : Item)
    (a : ClaimArgs) :
    Call :=
  if c.limits item.list.tenantId > 0 then
    .tryClaimLimited a item.list.tenantId
      (c.limits item.list.tenantId)
  else .tryClaim a

end Cache

------------------------------------------------------------
-- Shared State
------------------------------------------------------------

/-
  What the goroutines share. The column `status` of table
  `tenants` is kept beside the database, since no statement
  of a job call reads or writes it.
-/
structure Shared where
  sys : Sys
  status : Uuid → TenantStatus
  redis : Redis
  caches : String → Cache

/-
  What happens outside the goroutines: the steps of database
  calls, other than new claims; administrators who enable and
  disable tenants; a scheduler or an API process that queues a
  job it has read; the two steps of a worker's `loadTenants`;
  and the expiry of keys.
-/
inductive Event
| storage (label : Storage.Step)
| setStatus (tenantId : Uuid) (status : TenantStatus)
| enqueue (jobId : Uuid)
| getTenants (workerId : String)
| loadTenants (workerId : String)
| expireMarker (jobId : Uuid)
| expireProcessing (workerId : String)

namespace Shared

/- `SELECT ... FROM tenants WHERE status = 'active'`. -/
def getTenants (s : Shared) : List Tenant :=
  (s.sys.db.tenants.rows.map
    (fun t => { t with status := s.status t.id })).filter
      (fun t => t.status = .active)

def setCache
    (s : Shared)
    (workerId : String)
    (c : Cache) :
    Shared :=
  { s with caches := Function.update s.caches workerId c }

/- A step that begins a claim. -/
def beginsClaim : Storage.Step → Bool
| .begin call => call.claimArgs?.isSome
| _ => false

def step (s : Shared) : Event → Option Shared
| .storage label =>
    if beginsClaim label then none
    else
      (sluice.step label s.sys).map
        (fun sys => { s with sys := sys })
| .setStatus tenantId status =>
    some
      { s with
        status := Function.update s.status tenantId status }
| .enqueue jobId =>
    (s.sys.db.job? jobId).map
      (fun j =>
        { s with
          redis :=
            s.redis.enqueue j.tenantId j.id j.priority })
| .getTenants workerId =>
    some
      (s.setCache workerId
        { s.caches workerId with
          loading := some s.getTenants })
| .loadTenants workerId =>
    (s.caches workerId).loading.map
      (fun rows =>
        s.setCache workerId
          ((s.caches workerId).loadTenants rows))
| .expireMarker jobId =>
    some { s with redis := s.redis.dropMarker jobId }
| .expireProcessing workerId =>
    some { s with redis := s.redis.dropProcessing workerId }

end Shared

------------------------------------------------------------
-- Goroutines
------------------------------------------------------------

/-
  Where a goroutine is in `loop` and `process`:
    * in `Pop`, with the tenants it was given;
    * about to claim the item it has popped;
    * waiting for the answer to its claim;
    * about to put back an item it could not claim;
    * executing the job;
    * about to run the deferred `RemoveFromProcessing`.
-/
inductive Phase
| dequeuing (tenants : List TenantWeight)
| popped (item : Item)
| claiming (item : Item)
| rejected (item : Item)
| executing (item : Item)
| leaving (item : Item)
deriving DecidableEq, Repr

/-
  A goroutine of a worker. `taken` records that the worker's
  processing list has been recovered since the pop.
-/
structure Routine where
  worker : String
  phase : Phase
  taken : Bool
deriving DecidableEq, Repr

/- What a claim can return. -/
inductive ClaimOutcome
| claimed
| notPending
| concurrencyLimit
| databaseError
deriving DecidableEq, Repr

inductive Act
| pop (order : List Uuid)
| wait
| giveUp
| claim (token runId : Uuid) (deadline : Time)
| answer (outcome : ClaimOutcome)
| requeue
| finish
| removeFromProcessing

namespace Routine

def moveTo (r : Routine) (phase : Phase) : Routine :=
  { r with phase := phase }

/- The arguments with which a worker claims. -/
def claimArgs
    (r : Routine)
    (item : Item)
    (token runId : Uuid)
    (deadline now : Time) :
    ClaimArgs where
  jobId := item.jobId
  workerId := r.worker
  token := token
  deadline := deadline
  now := now
  runId := runId

/- What `process` does with the outcome of its claim. -/
def answered
    (s : Shared)
    (r : Routine)
    (item : Item) :
    ClaimOutcome → Shared × Routine
| .claimed => (s, r.moveTo (.executing item))
| .notPending => (s, r.moveTo (.leaving item))
| .concurrencyLimit =>
    (s.setCache r.worker
        ((s.caches r.worker).throttle s.sys.clock
          item.list.tenantId),
      r.moveTo (.rejected item))
| .databaseError => (s, r.moveTo (.rejected item))

/-
  One step of a goroutine. It is given an order of its
  tenants by `weightedShuffle`; it leaves the pool when it is
  back at the head of `loop`.
-/
def step
    (s : Shared)
    (r : Routine)
    (act : Act) :
    Option (Shared × Option Routine) :=
  match act, r.phase with
  | .pop order, .dequeuing tenants =>
      if order.isPerm (tenants.map TenantWeight.id) then
        (s.redis.popScript r.worker
          (Redis.popKeys order)).map
          (fun (item, redis) =>
            ({ s with redis := redis },
              some
                { worker := r.worker
                  phase := .popped item
                  taken := false }))
      else none
  | .wait, .dequeuing _ =>
      some ({ s with redis := s.redis.wait }, some r)
  | .giveUp, .dequeuing _ => some (s, none)
  | .claim token runId deadline, .popped item =>
      (sluice.step
        (.begin
          ((s.caches r.worker).claim item
            (r.claimArgs item token runId deadline
              s.sys.clock)))
        s.sys).map
        (fun sys =>
          ({ s with sys := sys },
            some (r.moveTo (.claiming item))))
  | .answer outcome, .claiming item =>
      some ((r.answered s item outcome).1,
        some (r.answered s item outcome).2)
  | .requeue, .rejected item =>
      some ({ s with redis := s.redis.requeue item },
        some (r.moveTo (.leaving item)))
  | .finish, .executing item =>
      some (s, some (r.moveTo (.leaving item)))
  | .removeFromProcessing, .leaving item =>
      some
        ({ s with
            redis :=
              s.redis.removeFromProcessing r.worker
                item.jobId },
          none)
  | _, _ => none

end Routine

------------------------------------------------------------
-- The Fleet
------------------------------------------------------------

structure Fleet where
  shared : Shared
  routines : List Routine

/-
  A goroutine calls `dequeueTenants` and enters `Pop`; it
  moves on; the scheduler takes the processing list of a
  worker; and a worker dies with all its goroutines.
-/
inductive Label
| event (e : Event)
| dequeueTenants (workerId : String)
| act (i : Nat) (act : Act)
| takeProcessing (workerId : String)
| crash (workerId : String)

namespace Fleet

def step : Label → Fleet → Option Fleet
| .event e, f =>
    (f.shared.step e).map
      (fun s => { f with shared := s })
| .dequeueTenants workerId, f =>
    some
      { f with
        routines :=
          { worker := workerId
            phase :=
              .dequeuing
                ((f.shared.caches workerId).dequeueTenants
                  f.shared.sys.clock)
            taken := false } :: f.routines }
| .act i act, f =>
    match f.routines[i]? with
    | none => none
    | some r =>
        match r.step f.shared act with
        | none => none
        | some (s, none) =>
            some ⟨s, f.routines.eraseIdx i⟩
        | some (s, some r') =>
            some ⟨s, f.routines.set i r'⟩
| .takeProcessing workerId, f =>
    some
      { shared :=
          { f.shared with
            redis :=
              (f.shared.redis.takeProcessing workerId).2 }
        routines :=
          f.routines.map
            (fun r =>
              { r with
                taken :=
                  r.taken || decide (r.worker = workerId) }) }
| .crash workerId, f =>
    some
      { shared := f.shared.setCache workerId Cache.new
        routines :=
          f.routines.filter (fun r => r.worker ≠ workerId) }

/- Nothing is queued and no worker has started. -/
def init (f : Fleet) : Prop :=
  sluice.init f.shared.sys ∧ f.shared.redis = Redis.empty ∧
    f.shared.caches = (fun _ => Cache.new) ∧ f.routines = []

end Fleet

def fleet : Machine Fleet Label where
  init := Fleet.init
  step := Fleet.step

variable {ok : Fleet → Label → Prop}

namespace Fleet

/-
  To show that a property holds in every state reached it is
  enough to show it initially and across each kind of step.
  A goroutine that moves is given by a splitting of the pool.
-/
theorem reachableWith_invariant
    {I : Fleet → Prop}
    (hInit : ∀ f : Fleet, f.init → I f)
    (hEvent :
      ∀ f e s, fleet.ReachableWith ok f → I f →
        ok f (.event e) → f.shared.step e = some s →
          I ⟨s, f.routines⟩)
    (hDequeue :
      ∀ f workerId, fleet.ReachableWith ok f → I f →
        I
          ⟨f.shared,
            { worker := workerId
              phase :=
                .dequeuing
                  ((f.shared.caches workerId).dequeueTenants
                    f.shared.sys.clock)
              taken := false } :: f.routines⟩)
    (hAct :
      ∀ f l₁ r l₂ act s r', fleet.ReachableWith ok f →
        I f → ok f (.act l₁.length act) →
          f.routines = l₁ ++ r :: l₂ →
            r.step f.shared act = some (s, r') →
              I ⟨s, l₁ ++ (r'.toList ++ l₂)⟩)
    (hTake :
      ∀ f workerId, fleet.ReachableWith ok f → I f →
        I
          ⟨{ f.shared with
              redis := f.shared.redis.dropProcessing workerId },
            f.routines.map
              (fun r =>
                { r with
                  taken :=
                    r.taken ||
                      decide (r.worker = workerId) })⟩)
    (hCrash :
      ∀ f workerId, fleet.ReachableWith ok f → I f →
        I
          ⟨f.shared.setCache workerId Cache.new,
            f.routines.filter
              (fun r => r.worker ≠ workerId)⟩)
    {f : Fleet}
    (hReach : fleet.ReachableWith ok f) :
    I f := by
  refine Machine.ReachableWith.invariant hInit ?_ hReach
  intro f label f' hPrev hInv hOk hStep
  cases label with
  | event e =>
      rcases Option.map_eq_some_iff.mp hStep with
        ⟨s, hShared, rfl⟩
      exact hEvent f e s hPrev hInv hOk hShared
  | dequeueTenants workerId =>
      cases hStep
      exact hDequeue f workerId hPrev hInv
  | act i act =>
      simp only [fleet, step] at hStep
      split at hStep
      · cases hStep
      · rename_i r hGet
        rcases exists_split_of_getElem? hGet with
          ⟨l₁, l₂, hSplit, rfl, hErase, hSet⟩
        split at hStep
        · cases hStep
        · rename_i s hMove
          cases hStep
          rw [hErase]
          exact hAct f l₁ r l₂ act s none hPrev hInv hOk
            hSplit hMove
        · rename_i s r' hMove
          cases hStep
          rw [hSet]
          exact hAct f l₁ r l₂ act s (some r') hPrev hInv hOk
            hSplit hMove
  | takeProcessing workerId =>
      cases hStep
      exact hTake f workerId hPrev hInv
  | crash workerId =>
      cases hStep
      exact hCrash f workerId hPrev hInv

end Fleet

------------------------------------------------------------
-- The Database Within The Fleet
------------------------------------------------------------

/- Events take the database through its own steps. -/
theorem Shared.step_sys
    {s s' : Shared}
    {e : Event}
    (hStep : s.step e = some s') :
    s'.sys = s.sys ∨
      ∃ label, beginsClaim label = false ∧
        sluice.step label s.sys = some s'.sys := by
  cases e with
  | storage label =>
      simp only [step] at hStep
      split at hStep
      · cases hStep
      · rename_i hNoClaim
        rcases Option.map_eq_some_iff.mp hStep with
          ⟨sys, hSys, rfl⟩
        exact .inr ⟨label, by simpa using hNoClaim, hSys⟩
  | enqueue jobId =>
      rcases Option.map_eq_some_iff.mp hStep with
        ⟨j, _, rfl⟩
      exact .inl rfl
  | loadTenants workerId =>
      rcases Option.map_eq_some_iff.mp hStep with
        ⟨rows, _, rfl⟩
      exact .inl rfl
  | setStatus | getTenants | expireMarker
  | expireProcessing =>
      cases hStep
      exact .inl rfl

/- The moves of a goroutine, one for each case of `step`. -/
inductive Routine.Moves
    (s : Shared)
    (r : Routine) :
    Act → Shared → Option Routine → Prop
| pop
    {order : List Uuid}
    {tenants : List TenantWeight}
    {item : Item}
    {redis : Redis} :
    r.phase = .dequeuing tenants →
      order.Perm (tenants.map TenantWeight.id) →
        s.redis.popScript r.worker (Redis.popKeys order) =
            some (item, redis) →
          Moves s r (.pop order) { s with redis := redis }
            (some
              { worker := r.worker
                phase := .popped item
                taken := false })
| wait :
    Moves s r .wait { s with redis := s.redis.wait }
      (some r)
| giveUp : Moves s r .giveUp s none
| claim
    {token runId : Uuid}
    {deadline : Time}
    {item : Item}
    {sys : Sys} :
    r.phase = .popped item →
      sluice.step
          (.begin
            ((s.caches r.worker).claim item
              (r.claimArgs item token runId deadline
                s.sys.clock)))
          s.sys =
        some sys →
        Moves s r (.claim token runId deadline)
          { s with sys := sys }
          (some (r.moveTo (.claiming item)))
| answer {outcome : ClaimOutcome} {item : Item} :
    r.phase = .claiming item →
      Moves s r (.answer outcome)
        (r.answered s item outcome).1
        (some (r.answered s item outcome).2)
| requeue {item : Item} :
    r.phase = .rejected item →
      Moves s r .requeue
        { s with redis := s.redis.requeue item }
        (some (r.moveTo (.leaving item)))
| finish {item : Item} :
    r.phase = .executing item →
      Moves s r .finish s
        (some (r.moveTo (.leaving item)))
| removeFromProcessing {item : Item} :
    r.phase = .leaving item →
      Moves s r .removeFromProcessing
        { s with
          redis :=
            s.redis.removeFromProcessing r.worker
              item.jobId }
        none

section

variable {s s' : Shared}
variable {r : Routine}
variable {r' : Option Routine}
variable {act : Act}

theorem Routine.moves_of_step
    (hStep : r.step s act = some (s', r')) :
    r.Moves s act s' r' := by
  unfold Routine.step at hStep
  split at hStep
  · rename_i hPhase
    split at hStep
    · rename_i hPerm
      rcases Option.map_eq_some_iff.mp hStep with
        ⟨⟨item, redis⟩, hPop, hSame⟩
      cases hSame
      exact .pop hPhase (List.isPerm_iff.mp hPerm) hPop
    · cases hStep
  · cases hStep
    exact .wait
  · cases hStep
    exact .giveUp
  · rename_i hPhase
    rcases Option.map_eq_some_iff.mp hStep with
      ⟨sys, hSys, hSame⟩
    cases hSame
    exact .claim hPhase hSys
  · rename_i hPhase
    cases hStep
    exact .answer hPhase
  · rename_i hPhase
    cases hStep
    exact .requeue hPhase
  · rename_i hPhase
    cases hStep
    exact .finish hPhase
  · rename_i hPhase
    cases hStep
    exact .removeFromProcessing hPhase
  · cases hStep

/- A goroutine takes the database further by its claim. -/
theorem Routine.step_sys
    (hStep : r.step s act = some (s', r')) :
    s'.sys = s.sys ∨
      ∃ item token runId deadline,
        r.phase = .popped item ∧
          sluice.step
              (.begin
                ((s.caches r.worker).claim item
                  (r.claimArgs item token runId deadline
                    s.sys.clock)))
              s.sys =
            some s'.sys := by
  cases moves_of_step hStep with
  | claim hPhase hSys =>
      exact .inr ⟨_, _, _, _, hPhase, hSys⟩
  | answer hPhase =>
      rename_i outcome item
      cases outcome <;> exact .inl rfl
  | pop | wait | giveUp | requeue | finish
  | removeFromProcessing =>
      exact .inl rfl

end

/- The database of a fleet runs as it does by itself. -/
theorem Fleet.sys_reachable
    {f : Fleet}
    (hReach : fleet.ReachableWith ok f) :
    sluice.Reachable f.shared.sys := by
  refine reachableWith_invariant
    (I := fun f => sluice.Reachable f.shared.sys)
    ?_ ?_ ?_ ?_ ?_ ?_ hReach
  · intro f hInit
    exact .start hInit.1
  · intro f e s _ hInv _ hStep
    rcases Shared.step_sys hStep with
      hSame | ⟨label, _, hSys⟩
    · change sluice.Reachable s.sys
      rw [hSame]
      exact hInv
    · exact .next label hInv trivial hSys
  · intro f workerId _ hInv
    exact hInv
  · intro f l₁ r l₂ act s r' _ hInv _ _ hStep
    rcases Routine.step_sys hStep with
      hSame | ⟨item, token, runId, deadline, _, hSys⟩
    · change sluice.Reachable s.sys
      rw [hSame]
      exact hInv
    · exact .next _ hInv trivial hSys
  · intro f workerId _ hInv
    exact hInv
  · intro f workerId _ hInv
    exact hInv

------------------------------------------------------------
-- A Sample Fleet
------------------------------------------------------------

namespace Sample

/- The sample database, with empty queues. -/
def start : Fleet where
  shared :=
    { sys := Storage.Sample.start
      status := fun _ => .active
      redis := Redis.empty
      caches := fun _ => Cache.new }
  routines := []

theorem init_start : fleet.init start :=
  ⟨Storage.Sample.init_start, rfl, rfl, rfl⟩

/- A database call that nothing interleaves with. -/
def call (c : Call) : List Label :=
  c.whole.map (fun label => .event (.storage label))

/- Insert the sample job with this number, and queue it. -/
def submit (id : Uuid) : List Label :=
  call (.insertJob (Storage.Sample.job id)) ++
    [Label.event (.enqueue id)]

/- The statements of the newest call, and its commit. -/
def complete (statements : Nat) : List Label :=
  List.replicate statements
      (.event (.storage (.statement 0 (fun k => k)))) ++
    [Label.event (.storage (.commit 0))]

/- One `loadTenants` of a worker. -/
def refresh (workerId : String) : List Label :=
  [.event (.getTenants workerId),
    .event (.loadTenants workerId)]

end Sample

end Worker

end Sluice
