import Sluice.Storage.TenantCap
import Sluice.Worker.Fleet

/-
  A tenant's cap across the caches of the workers.

  `GetTenants` returns active tenants only. A worker that
  refreshes its cache while a tenant is disabled forgets the
  tenant's limit, and a goroutine that was given the tenant
  before the refresh then claims without a limit. As long as
  no refresh drops the tenant under such a goroutine, every
  claim of the tenant's jobs is capped.

  Main declarations:
    * `InOwnLanes`
    * `LimitKnown`
    * `refreshesClear`
    * `CapKept`
    * `cap_kept_of_clear_refreshes`
    * `refresh_uncaps_disabled_tenant`
-/

------------------------------------------------------------
-- The Property
------------------------------------------------------------

namespace Sluice

namespace Worker

open Foundations ReadCommitted Storage Queue

/-
  No job of the tenant is claimed without the limit, and no
  more than the limit are running.
-/
structure CapKept
    (tenantId : Uuid)
    (limit : Nat)
    (f : Fleet) : Prop where
  claims : ∀ a, .tryClaim a ∈ f.shared.sys.calls →
    ∀ j, f.shared.sys.db.job? a.jobId = some j →
      j.tenantId ≠ tenantId
  running :
    runningCount tenantId f.shared.sys.db ≤ limit

/- The goroutine may yet claim a job of the tenant. -/
def Routine.mayClaim
    (tenantId : Uuid)
    (r : Routine) :
    Bool :=
  match r.phase with
  | .dequeuing tenants =>
      tenants.any (fun t => t.id = tenantId)
  | .popped item => item.list.tenantId = tenantId
  | _ => false

/-
  A worker stores a tenant list without the tenant only while
  none of its goroutines may yet claim a job of the tenant.
-/
def refreshesClear
    (tenantId : Uuid)
    (f : Fleet) :
    Label → Bool
| .event (.loadTenants workerId) =>
    (f.shared.caches workerId).loading.all
      (fun rows =>
        rows.any (fun t => t.id = tenantId) ||
          f.routines.all
            (fun r =>
              r.worker ≠ workerId || !r.mayClaim tenantId))
| _ => true

------------------------------------------------------------
-- Queued Jobs Belong To Their Lane
------------------------------------------------------------

theorem jobOf_unique
    {db : Db}
    {jobId tenantId tenantId' : Uuid}
    (hOne : db.JobOf jobId tenantId)
    (hTwo : db.JobOf jobId tenantId') :
    tenantId = tenantId' := by
  rcases hOne with ⟨j, hJob, hTenant⟩
  rcases hTwo with ⟨j', hJob', hTenant'⟩
  cases hJob.symm.trans hJob'
  exact hTenant.symm.trans hTenant'

/- A job stays with its tenant. -/
theorem jobOf_step
    {sys sys' : Sys}
    {label : Storage.Step}
    {jobId tenantId : Uuid}
    (hReach : sluice.Reachable sys)
    (hStep : sluice.step label sys = some sys')
    (hJobOf : sys.db.JobOf jobId tenantId) :
    sys'.db.JobOf jobId tenantId := by
  rcases Engine.step_db hStep with hSame | ⟨e, he, hDb⟩
  · rw [hSame]
    exact hJobOf
  · rcases hJobOf with ⟨j, hJob, hTenant⟩
    have hMoves := (lawful_entry hReach he).jobs jobId
    rcases hMoves.tenant_fixed hJob with ⟨new, hNew, hFixed⟩
    rw [hDb]
    exact ⟨new, hNew, hFixed.trans hTenant⟩

theorem tenants_step
    {sys sys' : Sys}
    {label : Storage.Step}
    (hStep : sluice.step label sys = some sys') :
    sys'.db.tenants = sys.db.tenants := by
  rcases Engine.step_db hStep with hSame | ⟨e, _, hDb⟩
  · rw [hSame]
  · rw [hDb]
    exact tenants_performAll sys.db e.writes

/- The item that a goroutine works on. -/
def Phase.item? : Phase → Option Item
| .dequeuing _ => none
| .popped item => some item
| .claiming item => some item
| .rejected item => some item
| .executing item => some item
| .leaving item => some item

/-
  Whatever is queued or popped belongs to the tenant of its
  lane.
-/
structure InOwnLanes (f : Fleet) : Prop where
  lanes : ∀ lane, ∀ jobId ∈ f.shared.redis.lanes lane,
    f.shared.sys.db.JobOf jobId lane.tenantId
  items : ∀ r ∈ f.routines, ∀ item,
    r.phase.item? = some item →
      f.shared.sys.db.JobOf item.jobId item.list.tenantId

/- Lanes and goroutines unchanged, the database a step on. -/
theorem InOwnLanes.of_sys
    {f : Fleet}
    {s : Shared}
    (hInOwnLanes : InOwnLanes f)
    (hReach : sluice.Reachable f.shared.sys)
    (hSys :
      s.sys = f.shared.sys ∨
        ∃ label,
          sluice.step label f.shared.sys = some s.sys)
    (hLanes :
      ∀ lane, ∀ jobId ∈ s.redis.lanes lane,
        jobId ∈ f.shared.redis.lanes lane ∨
          f.shared.sys.db.JobOf jobId lane.tenantId)
    {routines : List Routine}
    (hItems :
      ∀ r ∈ routines, ∀ item, r.phase.item? = some item →
        f.shared.sys.db.JobOf item.jobId
          item.list.tenantId) :
    InOwnLanes ⟨s, routines⟩ := by
  have hKept : ∀ jobId tenantId,
      f.shared.sys.db.JobOf jobId tenantId →
        s.sys.db.JobOf jobId tenantId := by
    intro jobId tenantId hJobOf
    rcases hSys with hSame | ⟨label, hStep⟩
    · rw [hSame]
      exact hJobOf
    · exact jobOf_step hReach hStep hJobOf
  constructor
  · intro lane jobId hMem
    rcases hLanes lane jobId hMem with hOld | hNew
    · exact hKept _ _ (hInOwnLanes.lanes lane jobId hOld)
    · exact hKept _ _ hNew
  · intro r hr item hItem
    exact hKept _ _ (hItems r hr item hItem)

/- Events queue jobs only in the lanes of their tenants. -/
theorem Shared.step_lanes
    {s s' : Shared}
    {e : Event}
    (hStep : s.step e = some s') :
    ∀ lane, ∀ jobId ∈ s'.redis.lanes lane,
      jobId ∈ s.redis.lanes lane ∨
        s.sys.db.JobOf jobId lane.tenantId := by
  intro lane jobId hMem
  cases e with
  | storage label =>
      simp only [step] at hStep
      split at hStep
      · cases hStep
      · rcases Option.map_eq_some_iff.mp hStep with
          ⟨sys, _, rfl⟩
        exact .inl hMem
  | enqueue id =>
      rcases Option.map_eq_some_iff.mp hStep with
        ⟨j, hJob, rfl⟩
      have hId : j.id = id := Db.id_of_job? hJob
      rcases Redis.mem_lanes_enqueueScript_iff.mp hMem with
        hOld | ⟨_, hNew, hLane⟩
      · exact .inl hOld
      · subst hLane
        rw [hNew, hId]
        exact .inr ⟨j, hJob, rfl⟩
  | loadTenants workerId =>
      rcases Option.map_eq_some_iff.mp hStep with
        ⟨rows, _, rfl⟩
      exact .inl hMem
  | setStatus | getTenants | expireMarker
  | expireProcessing =>
      cases hStep
      exact .inl hMem

/-
  A goroutine queues only what it works on, and works on what
  it finds queued.
-/
theorem Routine.step_items
    {s s' : Shared}
    {r : Routine}
    {r' : Option Routine}
    {act : Act}
    (hStep : r.step s act = some (s', r')) :
    (∀ lane, ∀ jobId ∈ s'.redis.lanes lane,
        jobId ∈ s.redis.lanes lane ∨
          r.phase.item? = some ⟨jobId, lane⟩) ∧
      ∀ new, r' = some new → ∀ item,
        new.phase.item? = some item →
          r.phase.item? = some item ∨
            item.jobId ∈ s.redis.lanes item.list := by
  cases Routine.moves_of_step hStep with
  | pop _ _ hPop =>
      rcases Redis.popScript_eq_some hPop with
        ⟨_, hFound, hRedis⟩
      constructor
      · intro lane jobId hMem
        rw [hRedis] at hMem
        exact .inl (Redis.mem_lanes_deliver hMem)
      · intro new hNew held hHeld
        cases hNew
        cases hHeld
        exact .inr hFound
  | wait =>
      refine ⟨fun _ _ hMem => .inl hMem, ?_⟩
      intro new hNew held hHeld
      cases hNew
      exact .inl hHeld
  | claim hPhase _ =>
      refine ⟨fun _ _ hMem => .inl hMem, ?_⟩
      intro new hNew held hHeld
      cases hNew
      rw [hPhase]
      exact .inl hHeld
  | answer hPhase =>
      rename_i outcome item
      rw [hPhase]
      constructor
      · intro lane jobId hMem
        cases outcome <;> exact .inl hMem
      · intro new hNew held hHeld
        cases hNew
        cases outcome <;> exact .inl hHeld
  | requeue hPhase =>
      rw [hPhase]
      constructor
      · intro lane jobId hMem
        rcases Redis.mem_lanes_enqueueScript_iff.mp hMem
          with hOld | ⟨_, hJob, hLane⟩
        · exact .inl hOld
        · rw [hJob, hLane]
          exact .inr rfl
      · intro new hNew held hHeld
        cases hNew
        exact .inl hHeld
  | finish hPhase =>
      rw [hPhase]
      refine ⟨fun _ _ hMem => .inl hMem, ?_⟩
      intro new hNew held hHeld
      cases hNew
      exact .inl hHeld
  | giveUp | removeFromProcessing =>
      exact ⟨fun _ _ hMem => .inl hMem, by simp⟩

theorem owned
    {ok : Fleet → Label → Prop}
    {f : Fleet}
    (hReach : fleet.ReachableWith ok f) :
    InOwnLanes f := by
  refine Fleet.reachableWith_invariant ?_ ?_ ?_ ?_ ?_ ?_
    hReach
  · intro f hInit
    constructor
    · intro lane jobId hMem
      rw [hInit.2.1] at hMem
      cases hMem
    · intro r hr
      rw [hInit.2.2.2] at hr
      cases hr
  · intro f e s hPrev hInv _ hStep
    refine hInv.of_sys (Fleet.sys_reachable hPrev) ?_
      (Shared.step_lanes hStep) hInv.items
    rcases Shared.step_sys hStep with
      hSame | ⟨label, _, hSys⟩
    · exact .inl hSame
    · exact .inr ⟨label, hSys⟩
  · intro f workerId _ hInv
    refine ⟨hInv.lanes, ?_⟩
    intro r hr item hItem
    rcases List.mem_cons.mp hr with hNew | hOld
    · subst hNew
      cases hItem
    · exact hInv.items r hOld item hItem
  · intro f l₁ r l₂ act s r' hPrev hInv _ hSplit hStep
    have hOwn := hInv.items r (self_mem_of_split hSplit)
    rcases Routine.step_items hStep with ⟨hLanes, hItems⟩
    refine hInv.of_sys (Fleet.sys_reachable hPrev) ?_ ?_ ?_
    · rcases Routine.step_sys hStep with
        hSame | ⟨_, _, _, _, _, hSys⟩
      · exact .inl hSame
      · exact .inr ⟨_, hSys⟩
    · intro lane jobId hMem
      exact (hLanes lane jobId hMem).imp_right (hOwn _)
    · intro g hg item hItem
      rcases mem_replaced_iff.mp hg with hMoved | hOther
      · rcases hItems g hMoved item hItem with hSame | hFound
        · exact hOwn item hSame
        · exact hInv.lanes item.list item.jobId hFound
      · exact hInv.items g (mem_of_split hSplit hOther) item
          hItem
  · intro f workerId _ hInv
    refine ⟨hInv.lanes, ?_⟩
    intro r hr item hItem
    rcases List.mem_map.mp hr with ⟨old, hOld, rfl⟩
    exact hInv.items old hOld item hItem
  · intro f workerId _ hInv
    refine ⟨hInv.lanes, ?_⟩
    intro r hr
    exact hInv.items r (List.mem_of_mem_filter hr)

------------------------------------------------------------
-- Caches Know The Limit
------------------------------------------------------------

section

variable {tenantId : Uuid}
variable {limit : Int}

theorem addLimit_of_ne
    {limits : Uuid → Int}
    {t : Tenant}
    (hOther : t.id ≠ tenantId) :
    Cache.addLimit limits t tenantId = limits tenantId := by
  unfold Cache.addLimit
  split
  · exact Function.update_of_ne (Ne.symm hOther) _ _
  · rfl

/- The map has the limit if every row of the tenant has it. -/
theorem limitsOf_of_mem
    {rows : List Tenant}
    (hPos : 0 < limit)
    (hRows :
      ∀ t ∈ rows, t.id = tenantId →
        t.maxConcurrency = limit)
    (hMem : ∃ t ∈ rows, t.id = tenantId) :
    Cache.limitsOf rows tenantId = limit := by
  -- Generalise over the map that the loop has built so far.
  suffices hLoop :
      ∀ limits : Uuid → Int,
        (limits tenantId = limit ∨
            ∃ t ∈ rows, t.id = tenantId) →
          rows.foldl Cache.addLimit limits tenantId =
            limit from
    hLoop _ (.inr hMem)
  clear hMem
  induction rows with
  | nil =>
      intro limits hKnown
      rcases hKnown with hKnown | ⟨t, ht, _⟩
      · exact hKnown
      · cases ht
  | cons t rows ih =>
      intro limits hKnown
      apply ih (fun u hu =>
        hRows u (List.mem_cons_of_mem _ hu)) _
      by_cases hSame : t.id = tenantId
      · have hLimit := hRows t List.mem_cons_self hSame
        left
        rw [Cache.addLimit, if_pos (by omega), hSame,
          Function.update_self]
        exact hLimit
      · rcases hKnown with hKnown | ⟨u, hu, hUser⟩
        · exact .inl ((addLimit_of_ne hSame).trans hKnown)
        · rcases List.mem_cons.mp hu with hHead | hTail
          · subst hHead
            exact absurd hUser hSame
          · exact .inr ⟨u, hTail, hUser⟩

/-
  A cache that lists the tenant has its limit, and so has the
  list that a refresh has read.
-/
structure Cache.Knows
    (tenantId : Uuid)
    (limit : Int)
    (c : Cache) : Prop where
  tenants :
    (∃ t ∈ c.tenants, t.id = tenantId) →
      c.limits tenantId = limit
  loading : ∀ rows, c.loading = some rows →
    ∀ t ∈ rows, t.id = tenantId → t.maxConcurrency = limit

theorem Cache.Knows.new :
    Cache.new.Knows tenantId limit := by
  constructor <;> simp [Cache.new]

/-
  Every cache knows the limit, and the worker of a goroutine
  that may claim for the tenant has it.
-/
structure LimitKnown
    (tenantId : Uuid)
    (limit : Int)
    (f : Fleet) : Prop where
  caches : ∀ workerId,
    (f.shared.caches workerId).Knows tenantId limit
  routines : ∀ r ∈ f.routines, r.mayClaim tenantId = true →
    (f.shared.caches r.worker).limits tenantId = limit

/- Both caches agree on everything but throttling. -/
structure SameLimits (c c' : Cache) : Prop where
  tenants : c'.tenants = c.tenants
  limits : c'.limits = c.limits
  loading : c'.loading = c.loading

theorem SameLimits.refl (c : Cache) : SameLimits c c :=
  ⟨rfl, rfl, rfl⟩

theorem Cache.Knows.of_same
    {c c' : Cache}
    (hKnows : c.Knows tenantId limit)
    (hSame : SameLimits c c') :
    c'.Knows tenantId limit := by
  constructor
  · rw [hSame.tenants, hSame.limits]
    exact hKnows.tenants
  · rw [hSame.loading]
    exact hKnows.loading

variable {f : Fleet}
variable {s s' : Shared}
variable {r : Routine}

theorem LimitKnown.of_same
    {routines : List Routine}
    (hKnown : LimitKnown tenantId limit f)
    (hCaches :
      ∀ workerId,
        SameLimits (f.shared.caches workerId)
          (s.caches workerId))
    (hRoutines :
      ∀ r ∈ routines, r.mayClaim tenantId = true →
        ∃ old ∈ f.routines, old.worker = r.worker ∧
          old.mayClaim tenantId = true) :
    LimitKnown tenantId limit ⟨s, routines⟩ := by
  constructor
  · intro workerId
    exact (hKnown.caches workerId).of_same
      (hCaches workerId)
  · intro r hr hMay
    rcases hRoutines r hr hMay with
      ⟨old, hOld, hWorker, hOldMay⟩
    simp only [(hCaches r.worker).limits]
    rw [← hWorker]
    exact hKnown.routines old hOld hOldMay

/- One worker gets another cache. -/
theorem LimitKnown.setCache
    {workerId : String}
    {c : Cache}
    {routines : List Routine}
    (hKnown : LimitKnown tenantId limit f)
    (hCache : c.Knows tenantId limit)
    (hRoutines :
      ∀ r ∈ routines, r ∈ f.routines ∧
        (r.mayClaim tenantId = true →
          r.worker = workerId →
            c.limits tenantId = limit)) :
    LimitKnown tenantId limit
      ⟨f.shared.setCache workerId c, routines⟩ := by
  constructor
  · intro id
    by_cases hWorker : id = workerId
    · subst hWorker
      simp only [Shared.setCache, Function.update_self]
      exact hCache
    · simp only [Shared.setCache,
        Function.update_of_ne hWorker]
      exact hKnown.caches id
  · intro r hr hMay
    rcases hRoutines r hr with ⟨hOld, hOwn⟩
    by_cases hWorker : r.worker = workerId
    · simp only [Shared.setCache, hWorker,
        Function.update_self]
      exact hOwn hMay hWorker
    · simp only [Shared.setCache,
        Function.update_of_ne hWorker]
      exact hKnown.routines r hOld hMay

/- A goroutine does not change limits and gains no tenant. -/
theorem Routine.step_limits
    {r' : Option Routine}
    {act : Act}
    (hStep : r.step s act = some (s', r')) :
    (∀ workerId,
        SameLimits (s.caches workerId)
          (s'.caches workerId)) ∧
      ∀ new, r' = some new →
        new.worker = r.worker ∧
          (new.mayClaim tenantId = true →
            r.mayClaim tenantId = true) := by
  cases Routine.moves_of_step hStep with
  | pop hPhase hPerm hPop =>
      rename_i order tenants item redis
      refine ⟨fun _ => .refl _, ?_⟩
      intro new hNew
      cases hNew
      refine ⟨rfl, ?_⟩
      intro hMay
      have hTenant : item.list.tenantId = tenantId := by
        simpa [mayClaim] using hMay
      have hMem := Redis.mem_popKeys_iff.mp
        (Redis.popScript_eq_some hPop).1
      rw [hTenant, hPerm.mem_iff] at hMem
      rcases List.mem_map.mp hMem with ⟨t, ht, hId⟩
      simp only [mayClaim, hPhase]
      exact List.any_eq_true.mpr
        ⟨t, ht, decide_eq_true hId⟩
  | wait =>
      refine ⟨fun _ => .refl _, ?_⟩
      intro new hNew
      cases hNew
      exact ⟨rfl, id⟩
  | answer hPhase =>
      rename_i outcome item
      constructor
      · intro workerId
        cases outcome with
        | concurrencyLimit =>
            by_cases hWorker : workerId = r.worker
            · subst hWorker
              simp only [answered, Shared.setCache,
                Function.update_self]
              exact ⟨rfl, rfl, rfl⟩
            · simp only [answered, Shared.setCache,
                Function.update_of_ne hWorker]
              exact .refl _
        | claimed | notPending | databaseError =>
            exact .refl _
      · intro new hNew
        cases hNew
        cases outcome <;>
          exact ⟨rfl, fun hMay => by cases hMay⟩
  | claim | requeue | finish =>
      refine ⟨fun _ => .refl _, ?_⟩
      intro new hNew
      cases hNew
      exact ⟨rfl, fun hMay => by cases hMay⟩
  | giveUp | removeFromProcessing =>
      exact ⟨fun _ => .refl _, by simp⟩

variable {row : Tenant}

/- Rows that a refresh reads carry the stored limit. -/
theorem limit_of_mem_getTenants
    (hRow : s.sys.db.tenants.find? tenantId = some row)
    (hLimit : row.maxConcurrency = limit) :
    ∀ t ∈ s.getTenants, t.id = tenantId →
      t.maxConcurrency = limit := by
  intro t ht hId
  rcases List.mem_map.mp (List.mem_of_mem_filter ht) with
    ⟨old, hOld, rfl⟩
  have hFind : s.sys.db.tenants.find? old.id = some old :=
    Table.find?_of_mem hOld
  have hSame : old.id = tenantId := hId
  rw [hSame, hRow] at hFind
  cases hFind
  exact hLimit

/- One worker has stored a new list. -/
theorem LimitKnown.load
    {workerId : String}
    {rows : List Tenant}
    (hKnown : LimitKnown tenantId limit f)
    (hPos : 0 < limit)
    (hLoading :
      (f.shared.caches workerId).loading = some rows)
    (hClear :
      (rows.any (fun t => t.id = tenantId) ||
          f.routines.all
            (fun r =>
              r.worker ≠ workerId ||
                !r.mayClaim tenantId)) =
        true) :
    LimitKnown tenantId limit
      ⟨f.shared.setCache workerId
          ((f.shared.caches workerId).loadTenants rows),
        f.routines⟩ := by
  have hRows :=
    (hKnown.caches workerId).loading rows hLoading
  have hFound : (∃ t ∈ rows, t.id = tenantId) →
      Cache.limitsOf rows tenantId = limit :=
    limitsOf_of_mem hPos hRows
  refine hKnown.setCache ⟨?_, ?_⟩ ?_
  · rintro ⟨t, ht, hId⟩
    rcases List.mem_map.mp ht with ⟨u, hu, rfl⟩
    exact hFound ⟨u, hu, hId⟩
  · intro read hRead
    cases hRead
  · intro r hr
    refine ⟨hr, ?_⟩
    intro hMay hWorker
    rcases Bool.or_eq_true_iff.mp hClear with hAny | hNone
    · rcases List.any_eq_true.mp hAny with ⟨t, ht, hId⟩
      exact hFound ⟨t, ht, of_decide_eq_true hId⟩
    · -- No goroutine of the worker is left to claim.
      have hFree := List.all_eq_true.mp hNone r hr
      simp [hWorker, hMay] at hFree

/- An event that meets the condition keeps the limit known. -/
theorem LimitKnown.event
    {e : Event}
    (hKnown : LimitKnown tenantId limit f)
    (hPos : 0 < limit)
    (hRow :
      f.shared.sys.db.tenants.find? tenantId = some row)
    (hLimit : row.maxConcurrency = limit)
    (hClear : refreshesClear tenantId f (.event e) = true)
    (hStep : f.shared.step e = some s) :
    LimitKnown tenantId limit ⟨s, f.routines⟩ := by
  have hSame : s.caches = f.shared.caches →
      LimitKnown tenantId limit ⟨s, f.routines⟩ := by
    intro hCaches
    refine hKnown.of_same ?_ ?_
    · intro workerId
      rw [hCaches]
      exact .refl _
    · intro r hr hMay
      exact ⟨r, hr, rfl, hMay⟩
  cases e with
  | storage label =>
      simp only [Shared.step] at hStep
      split at hStep
      · cases hStep
      · rcases Option.map_eq_some_iff.mp hStep with
          ⟨sys, _, rfl⟩
        exact hSame rfl
  | enqueue jobId =>
      rcases Option.map_eq_some_iff.mp hStep with
        ⟨j, _, rfl⟩
      exact hSame rfl
  | setStatus | expireMarker | expireProcessing =>
      cases hStep
      exact hSame rfl
  | loadTenants workerId =>
      rcases Option.map_eq_some_iff.mp hStep with
        ⟨rows, hLoading, rfl⟩
      apply hKnown.load hPos hLoading
      simpa only [refreshesClear, hLoading, Option.all_some]
        using hClear
  | getTenants workerId =>
      cases hStep
      refine hKnown.setCache
        ⟨(hKnown.caches workerId).tenants, ?_⟩ ?_
      · intro rows hRead
        cases hRead
        exact limit_of_mem_getTenants hRow hLimit
      · intro r hr
        refine ⟨hr, ?_⟩
        intro hMay hWorker
        rw [← hWorker]
        exact hKnown.routines r hr hMay

/- Steps do not touch the tenant's row. -/
theorem Shared.step_tenants
    {e : Event}
    (hStep : s.step e = some s') :
    s'.sys.db.tenants = s.sys.db.tenants := by
  rcases Shared.step_sys hStep with hSame | ⟨label, _, hSys⟩
  · rw [hSame]
  · exact tenants_step hSys

theorem Routine.step_tenants
    {r' : Option Routine}
    {act : Act}
    (hStep : r.step s act = some (s', r')) :
    s'.sys.db.tenants = s.sys.db.tenants := by
  rcases Routine.step_sys hStep with
    hSame | ⟨_, _, _, _, _, hSys⟩
  · rw [hSame]
  · exact tenants_step hSys

theorem limitKnown
    (hReach :
      fleet.ReachableWith
        (fun f label =>
          refreshesClear tenantId f label = true) f)
    (hPos : 0 < limit)
    (hRow :
      f.shared.sys.db.tenants.find? tenantId = some row)
    (hLimit : row.maxConcurrency = limit) :
    LimitKnown tenantId limit f := by
  revert hRow
  refine Fleet.reachableWith_invariant
    (I := fun f =>
      f.shared.sys.db.tenants.find? tenantId = some row →
        LimitKnown tenantId limit f)
    ?_ ?_ ?_ ?_ ?_ ?_ hReach
  · intro f hInit _
    rcases hInit with ⟨_, _, hCaches, hRoutines⟩
    constructor
    · intro workerId
      rw [hCaches]
      exact .new
    · intro r hr
      rw [hRoutines] at hr
      cases hr
  · intro f e s _ hInv hClear hStep hRow
    rw [Shared.step_tenants hStep] at hRow
    exact (hInv hRow).event hPos hRow hLimit hClear hStep
  · intro f workerId _ hInv hRow
    have hKnown := hInv hRow
    refine ⟨hKnown.caches, ?_⟩
    intro r hr hMay
    rcases List.mem_cons.mp hr with hNew | hOld
    · subst hNew
      rcases List.any_eq_true.mp hMay with ⟨t, ht, hId⟩
      exact (hKnown.caches workerId).tenants
        ⟨t, List.mem_of_mem_filter ht,
          of_decide_eq_true hId⟩
    · exact hKnown.routines r hOld hMay
  · intro f l₁ r l₂ act s r' _ hInv _ hSplit hStep hRow
    rw [Routine.step_tenants hStep] at hRow
    rcases Routine.step_limits hStep with
      ⟨hCaches, hMoves⟩
    apply (hInv hRow).of_same hCaches
    intro g hg hMay
    rcases mem_replaced_iff.mp hg with hMoved | hOther
    · rcases hMoves g hMoved with ⟨hWorker, hBefore⟩
      exact ⟨r, self_mem_of_split hSplit, hWorker.symm,
        hBefore hMay⟩
    · exact ⟨g, mem_of_split hSplit hOther, rfl, hMay⟩
  · intro f workerId _ hInv hRow
    refine (hInv hRow).of_same (fun _ => .refl _) ?_
    intro r hr hMay
    rcases List.mem_map.mp hr with ⟨old, hOld, rfl⟩
    exact ⟨old, hOld, rfl, hMay⟩
  · intro f workerId _ hInv hRow
    apply (hInv hRow).setCache .new
    intro r hr
    rcases List.mem_filter.mp hr with ⟨hOld, hOther⟩
    refine ⟨hOld, ?_⟩
    intro _ hWorker
    simp [hWorker] at hOther

------------------------------------------------------------
-- Claims Are Capped
------------------------------------------------------------

theorem Cache.claimArgs?_claim
    (c : Cache)
    (item : Item)
    (a : ClaimArgs) :
    (c.claim item a).claimArgs? = some a := by
  unfold Cache.claim
  split <;> rfl

/-
  A claim is for a job that exists, and capped if the job is
  the tenant's.
-/
def ClaimsCapped
    (tenantId : Uuid)
    (limit : Int)
    (sys : Sys) :
    Prop :=
  ∀ call ∈ sys.calls, ∀ a, call.claimArgs? = some a →
    ∃ owner, sys.db.JobOf a.jobId owner ∧
      (owner = tenantId →
        call = .tryClaimLimited a tenantId limit)

/- A database step keeps this if its new claim does. -/
theorem ClaimsCapped.step
    {sys sys' : Sys}
    {label : Storage.Step}
    (hCapped : ClaimsCapped tenantId limit sys)
    (hReach : sluice.Reachable sys)
    (hStep : sluice.step label sys = some sys')
    (hNew :
      ∀ call a, label = .begin call →
        call.claimArgs? = some a →
          ∃ owner, sys.db.JobOf a.jobId owner ∧
            (owner = tenantId →
              call = .tryClaimLimited a tenantId limit)) :
    ClaimsCapped tenantId limit sys' := by
  intro call hCall a hArgs
  have hBefore :
      ∃ owner, sys.db.JobOf a.jobId owner ∧
        (owner = tenantId →
          call = .tryClaimLimited a tenantId limit) := by
    rcases Engine.step_calls hStep with
      hSame | ⟨new, hLabel, hCalls⟩
    · rw [hSame] at hCall
      exact hCapped call hCall a hArgs
    · rw [hCalls] at hCall
      rcases List.mem_cons.mp hCall with hFirst | hOld
      · subst hFirst
        exact hNew call a hLabel hArgs
      · exact hCapped call hOld a hArgs
  rcases hBefore with ⟨owner, hJobOf, hOwn⟩
  exact ⟨owner, jobOf_step hReach hStep hJobOf, hOwn⟩

/- The claim of a goroutine is capped for the tenant. -/
theorem claim_capped
    {item : Item}
    (hInOwnLanes : InOwnLanes f)
    (hKnown : LimitKnown tenantId limit f)
    (hPos : 0 < limit)
    (hr : r ∈ f.routines)
    (hPhase : r.phase = .popped item)
    {a : ClaimArgs}
    (hJob : a.jobId = item.jobId) :
    ∃ owner, f.shared.sys.db.JobOf a.jobId owner ∧
      (owner = tenantId →
        (f.shared.caches r.worker).claim item a =
          .tryClaimLimited a tenantId limit) := by
  refine ⟨item.list.tenantId, ?_, ?_⟩
  · rw [hJob]
    exact hInOwnLanes.items r hr item (by rw [hPhase]; rfl)
  · intro hTenant
    have hMay : r.mayClaim tenantId = true := by
      simp [Routine.mayClaim, hPhase, hTenant]
    have hLimit := hKnown.routines r hr hMay
    rw [Cache.claim, hTenant, hLimit, if_pos hPos]

theorem claims_capped
    (hReach :
      fleet.ReachableWith
        (fun f label =>
          refreshesClear tenantId f label = true) f)
    (hPos : 0 < limit)
    (hRow :
      f.shared.sys.db.tenants.find? tenantId = some row)
    (hLimit : row.maxConcurrency = limit) :
    ClaimsCapped tenantId limit f.shared.sys := by
  revert hRow
  refine Fleet.reachableWith_invariant
    (I := fun f =>
      f.shared.sys.db.tenants.find? tenantId = some row →
        ClaimsCapped tenantId limit f.shared.sys)
    ?_ ?_ ?_ ?_ ?_ ?_ hReach
  · intro f hInit _ call hCall
    rcases hInit.1 with ⟨db, clock, _, hSys⟩
    rw [hSys] at hCall
    cases hCall
  · intro f e s hPrev hInv _ hStep hRow
    rw [Shared.step_tenants hStep] at hRow
    rcases Shared.step_sys hStep with
      hSame | ⟨label, hNoClaim, hSys⟩
    · simp only [hSame]
      exact hInv hRow
    · apply (hInv hRow).step (Fleet.sys_reachable hPrev)
        hSys
      intro call a hLabel hArgs
      rw [hLabel, Shared.beginsClaim, hArgs] at hNoClaim
      cases hNoClaim
  · intro f workerId _ hInv
    exact hInv
  · intro f l₁ r l₂ act s r' hPrev hInv _ hSplit hStep hRow
    rw [Routine.step_tenants hStep] at hRow
    rcases Routine.step_sys hStep with
      hSame | ⟨item, token, runId, deadline, hPhase, hSys⟩
    · simp only [hSame]
      exact hInv hRow
    · apply (hInv hRow).step (Fleet.sys_reachable hPrev)
        hSys
      intro call a hLabel hArgs
      cases hLabel
      rw [Cache.claimArgs?_claim] at hArgs
      cases hArgs
      exact claim_capped (owned hPrev)
        (limitKnown hPrev hPos hRow hLimit) hPos
        (self_mem_of_split hSplit) hPhase rfl
  · intro f workerId _ hInv
    exact hInv
  · intro f workerId _ hInv
    exact hInv

end

section

variable {tenantId : Uuid}
variable {limit : Nat}
variable {row : Tenant}

/-
  In every run in which no refresh drops the tenant under a
  goroutine that may claim for it, the tenant's limit holds
  for all its claims and all its running jobs.
-/
theorem cap_kept_of_clear_refreshes
    {f : Fleet}
    (hReach :
      fleet.ReachableWith
        (fun f label =>
          refreshesClear tenantId f label = true) f)
    (hRow :
      f.shared.sys.db.tenants.find? tenantId = some row)
    (hLimit : row.maxConcurrency = limit)
    (hPos : 0 < limit) :
    CapKept tenantId limit f := by
  have hClaims := claims_capped hReach
    (Int.natCast_pos.mpr hPos) hRow hLimit
  constructor
  · intro a hCall j hJob hTenant
    rcases hClaims _ hCall a rfl with
      ⟨owner, hJobOf, hCapped⟩
    have hOwner := jobOf_unique hJobOf ⟨j, hJob, hTenant⟩
    cases hCapped hOwner
  · have hCapped : Capped tenantId limit f.shared.sys := by
      intro call hCall a hArgs j hJob hTenant
      rcases hClaims call hCall a hArgs with
        ⟨owner, hJobOf, hCapped⟩
      exact hCapped
        (jobOf_unique hJobOf ⟨j, hJob, hTenant⟩)
    exact (capHeld (Fleet.sys_reachable hReach) hCapped
      (by rw [hRow]; rfl)).count_le

end

/-
  The tenant is disabled and dropped while it has a running
  job, then enabled again; its next claim is refused.
-/
theorem cap_kept_after_disabling :
    ∃ f row,
      fleet.ReachableWith
          (fun f label =>
            refreshesClear 1 f label = true) f ∧
        f.shared.sys.db.tenants.find? 1 = some row ∧
          row.maxConcurrency = 1 ∧
            runningCount 1 f.shared.sys.db = 1 ∧
              CapKept 1 1 f := by
  rcases
    Machine.exists_reachableWith_of_run Sample.init_start
      (refreshesClear 1)
      (Sample.submit 7 ++ Sample.submit 8 ++
        Sample.refresh "w" ++
          [Label.dequeueTenants "w", .act 0 (.pop [1]),
            .act 0 (.claim 1 1 30000000)] ++
            Sample.complete 3 ++
              [Label.act 0 (.answer .claimed),
                .event (.setStatus 1 .disabled)] ++
                (Sample.refresh "w" ++
                  [Label.event (.setStatus 1 .active)] ++
                    Sample.refresh "w" ++
                      [Label.dequeueTenants "w",
                        .act 0 (.pop [1]),
                        .act 0 (.claim 2 2 30000000),
                        .event (.storage
                          (.statement 0 id)),
                        .event (.storage
                          (.statement 0 id)),
                        .act 0 (.answer
                          .concurrencyLimit)]))
      (fun f =>
        ∃ row ∈ f.shared.sys.db.tenants.find? 1,
          row.maxConcurrency = 1 ∧
            runningCount 1 f.shared.sys.db = 1)
      (by decide +kernel)
  with ⟨f, hReach, row, hFind, hLimit, hOne⟩
  exact ⟨f, row, hReach, hFind, hLimit, hOne,
    cap_kept_of_clear_refreshes hReach hFind hLimit
      (by decide)⟩

/-
  A goroutine is given the tenant; the tenant is disabled and
  the worker refreshes; then the goroutine pops a job and
  claims it without the limit of one.
-/
theorem refresh_uncaps_disabled_tenant :
    ∃ f row, fleet.Reachable f ∧
      f.shared.sys.db.tenants.find? 1 = some row ∧
        row.maxConcurrency = 1 ∧
          runningCount 1 f.shared.sys.db = 2 ∧
            ¬CapKept 1 1 f := by
  rcases
    Machine.exists_reachable_of_run Sample.init_start
      (Sample.submit 7 ++ Sample.submit 8 ++
        Sample.refresh "w" ++
          [Label.dequeueTenants "w", .act 0 (.pop [1]),
            .act 0 (.claim 1 1 30000000)] ++
            Sample.complete 3 ++
              [Label.act 0 (.answer .claimed),
                .dequeueTenants "w",
                .event (.setStatus 1 .disabled)] ++
                (Sample.refresh "w" ++
                  [Label.act 0 (.pop [1]),
                    .act 0 (.claim 2 2 30000000)] ++
                    Sample.complete 1))
      (fun f =>
        ∃ row ∈ f.shared.sys.db.tenants.find? 1,
          row.maxConcurrency = 1 ∧
            runningCount 1 f.shared.sys.db = 2)
      (by decide +kernel)
  with ⟨f, hReach, row, hFind, hLimit, hTwo⟩
  refine ⟨f, row, hReach, hFind, hLimit,
    hTwo, ?_⟩
  intro hKept
  have hOver := hKept.running
  rw [hTwo] at hOver
  exact absurd hOver (by decide)

end Worker

end Sluice
