import Sluice.Worker.Fleet

/-
  No popped job is in no list.

  A goroutine that has popped a job and has neither learnt
  the outcome of its claim nor put the job back relies on the
  worker's processing list. The goroutines of a worker share
  that list, and `RemoveFromProcessing` removes every
  occurrence of a job. So one goroutine can remove the entry
  of another that has popped the same job since.

  Main declarations:
    * `PoppedListed`
    * `removesOwn`
    * `popped_listed_of_own_removals`
    * `requeued_job_in_no_list`
-/

------------------------------------------------------------
-- The Property
------------------------------------------------------------

namespace Sluice

namespace Worker

open Foundations ReadCommitted Storage Queue

/-
  The item that a goroutine has popped, while its claim is
  not finished and the item is not put back.
-/
def Phase.held? : Phase → Option Item
| .popped item => some item
| .claiming item => some item
| .rejected item => some item
| _ => none

/-
  The job that the goroutine holds is on its worker's list,
  unless the list was taken since.
-/
def Routine.Listed (r : Routine) (redis : Redis) : Prop :=
  ∀ item, r.phase.held? = some item → r.taken = false →
    item.jobId ∈ redis.processing r.worker

def PoppedListed (f : Fleet) : Prop :=
  ∀ r ∈ f.routines, r.Listed f.shared.redis

/- The goroutine relies on an entry of the worker's list. -/
def Routine.reliesOn
    (r : Routine)
    (workerId : String)
    (p : Uuid → Bool) :
    Bool :=
  r.worker = workerId && !r.taken &&
    r.phase.held?.any (fun item => p item.jobId)

/-
  A goroutine leaves `process` only while no other goroutine
  of its worker holds the same job, and a processing list
  does not expire while a goroutine of its worker holds a job.
-/
def removesOwn (f : Fleet) : Label → Bool
| .event (.expireProcessing workerId) =>
    f.routines.all
      (fun r => !r.reliesOn workerId (fun _ => true))
| .act i .removeFromProcessing =>
    match f.routines[i]? with
    | some ⟨workerId, .leaving item, _⟩ =>
        f.routines.all
          (fun r =>
            !r.reliesOn workerId (· = item.jobId))
    | _ => true
| _ => true

------------------------------------------------------------
-- Steps
------------------------------------------------------------

/- Only the expiry of a list is an event that removes. -/
theorem Shared.step_processing
    {s s' : Shared}
    {e : Event}
    (hStep : s.step e = some s') :
    s'.redis.processing = s.redis.processing ∨
      ∃ workerId, e = .expireProcessing workerId ∧
        s'.redis = s.redis.dropProcessing workerId := by
  cases e with
  | storage label =>
      simp only [step] at hStep
      split at hStep
      · cases hStep
      · rcases Option.map_eq_some_iff.mp hStep with
          ⟨sys, _, rfl⟩
        exact .inl rfl
  | enqueue jobId =>
      rcases Option.map_eq_some_iff.mp hStep with
        ⟨j, _, rfl⟩
      exact .inl (Redis.processing_enqueueScript _ _ _)
  | loadTenants workerId =>
      rcases Option.map_eq_some_iff.mp hStep with
        ⟨rows, _, rfl⟩
      exact .inl rfl
  | setStatus | getTenants | expireMarker =>
      cases hStep
      exact .inl rfl
  | expireProcessing workerId =>
      cases hStep
      exact .inr ⟨workerId, rfl, rfl⟩

section

variable {s s' : Shared}
variable {r : Routine}
variable {r' : Option Routine}
variable {act : Act}

/- A goroutine keeps what it holds on the list. -/
theorem Routine.Listed.step
    (hListed : r.Listed s.redis)
    (hStep : r.step s act = some (s', r')) :
    ∀ new, r' = some new → new.Listed s'.redis := by
  intro new hNew
  subst hNew
  cases Routine.moves_of_step hStep with
  | pop _ _ hPop =>
      intro held hHeld _
      cases hHeld
      rw [(Redis.popScript_eq_some hPop).2.2]
      exact Redis.mem_processing_deliver_iff.mpr
        (.inr ⟨rfl, rfl⟩)
  | wait => exact hListed
  | claim hPhase _ =>
      intro held hHeld hTaken
      refine hListed held ?_ hTaken
      rw [hPhase]
      exact hHeld
  | answer hPhase =>
      rename_i outcome item
      have hOld : r.phase.held? = some item := by
        rw [hPhase]
        rfl
      intro held hHeld hTaken
      cases outcome with
      | claimed | notPending => cases hHeld
      | concurrencyLimit | databaseError =>
          cases hHeld
          exact hListed item hOld hTaken
  | requeue | finish =>
      intro held hHeld
      cases hHeld

/- A goroutine removes only the job that it leaves. -/
theorem Routine.step_processing
    (hStep : r.step s act = some (s', r'))
    {workerId : String}
    {jobId : Uuid}
    (hMem : jobId ∈ s.redis.processing workerId) :
    jobId ∈ s'.redis.processing workerId ∨
      ∃ item, act = .removeFromProcessing ∧
        r.phase = .leaving item ∧ workerId = r.worker ∧
          jobId = item.jobId := by
  cases Routine.moves_of_step hStep with
  | pop _ _ hPop =>
      rw [(Redis.popScript_eq_some hPop).2.2]
      exact .inl
        (Redis.mem_processing_deliver_iff.mpr (.inl hMem))
  | answer =>
      rename_i outcome item _
      cases outcome <;> exact .inl hMem
  | requeue =>
      left
      rw [Redis.requeue, Redis.processing_enqueueScript]
      exact hMem
  | removeFromProcessing hPhase =>
      rename_i item
      by_cases hOwn :
          workerId = r.worker ∧ jobId = item.jobId
      · exact .inr ⟨item, rfl, hPhase, hOwn⟩
      · left
        apply
          Redis.mem_processing_removeFromProcessing_iff.mpr
        exact ⟨hMem, hOwn⟩
  | wait | giveUp | claim | finish => exact .inl hMem

end

------------------------------------------------------------
-- Runs
------------------------------------------------------------

theorem Routine.reliesOn_of_held
    {r : Routine}
    {item : Item}
    {p : Uuid → Bool}
    (hHeld : r.phase.held? = some item)
    (hTaken : r.taken = false)
    (hJob : p item.jobId = true) :
    r.reliesOn r.worker p = true := by
  simp [reliesOn, hHeld, hTaken, hJob]

/- An event that meets the condition keeps every entry. -/
theorem PoppedListed.event
    {f : Fleet}
    {e : Event}
    {s : Shared}
    (hListed : PoppedListed f)
    (hOk : removesOwn f (.event e) = true)
    (hStep : f.shared.step e = some s) :
    PoppedListed ⟨s, f.routines⟩ := by
  intro r hr item hHeld hTaken
  have hMem := hListed r hr item hHeld hTaken
  rcases Shared.step_processing hStep with
    hSame | ⟨workerId, hExpire, hDrop⟩
  · simp only [hSame]
    exact hMem
  · subst hExpire
    have hFree := List.all_eq_true.mp hOk r hr
    have hOther : r.worker ≠ workerId := by
      intro hWorker
      subst hWorker
      rw [Routine.reliesOn_of_held hHeld hTaken rfl] at hFree
      cases hFree
    simp only [hDrop,
      Redis.processing_dropProcessing_of_ne hOther]
    exact hMem

/- So does the move of a goroutine. -/
theorem PoppedListed.act
    {f : Fleet}
    {l₁ l₂ : List Routine}
    {r : Routine}
    {r' : Option Routine}
    {act : Act}
    {s : Shared}
    (hListed : PoppedListed f)
    (hOk : removesOwn f (.act l₁.length act) = true)
    (hSplit : f.routines = l₁ ++ r :: l₂)
    (hStep : r.step f.shared act = some (s, r')) :
    PoppedListed ⟨s, l₁ ++ (r'.toList ++ l₂)⟩ := by
  intro g hg
  rcases mem_replaced_iff.mp hg with hMoved | hOther
  · exact (hListed r (self_mem_of_split hSplit)).step hStep
      g hMoved
  · have hMem := mem_of_split hSplit hOther
    intro item hHeld hTaken
    rcases Routine.step_processing hStep
      (hListed g hMem item hHeld hTaken) with
      hKept | ⟨left, rfl, hPhase, hWorker, hJob⟩
    · exact hKept
    · -- The removal would meet a goroutine that relies on it.
      have hGet := getElem?_of_split hSplit
      rcases r with ⟨workerId, phase, taken⟩
      subst hPhase
      simp only [removesOwn, hGet] at hOk
      have hFree := List.all_eq_true.mp hOk g hMem
      simp only at hWorker
      rw [← hWorker,
        Routine.reliesOn_of_held hHeld hTaken
          (decide_eq_true hJob)] at hFree
      cases hFree

/-
  In every run in which goroutines remove only entries that
  no other goroutine relies on, every popped job stays on the
  list of its worker until its claim is finished.
-/
theorem popped_listed_of_own_removals
    {f : Fleet}
    (hReach :
      fleet.ReachableWith
        (fun f label => removesOwn f label = true) f) :
    PoppedListed f := by
  refine Fleet.reachableWith_invariant ?_ ?_ ?_ ?_ ?_ ?_
    hReach
  · intro f hInit r hr
    rw [hInit.2.2.2] at hr
    cases hr
  · intro f e s _ hInv hOk hStep
    exact hInv.event hOk hStep
  · intro f workerId _ hInv r hr
    rcases List.mem_cons.mp hr with hNew | hOld
    · subst hNew
      intro item hHeld
      cases hHeld
    · exact hInv r hOld
  · intro f l₁ r l₂ act s r' _ hInv hOk hSplit hStep
    exact hInv.act hOk hSplit hStep
  · intro f workerId _ hInv r hr item hHeld hTaken
    rcases List.mem_map.mp hr with ⟨old, hOld, rfl⟩
    simp only [Bool.or_eq_false_iff,
      decide_eq_false_iff_not] at hTaken
    simp only [
      Redis.processing_dropProcessing_of_ne hTaken.2]
    exact hInv old hOld item hHeld hTaken.1
  · intro f workerId _ hInv r hr
    exact hInv r (List.mem_of_mem_filter hr)

/- Two goroutines of a worker hold different jobs. -/
theorem popped_listed_two_routines :
    ∃ f,
      fleet.ReachableWith
          (fun f label => removesOwn f label = true) f ∧
        f.routines.map (fun r => r.phase.held?.isSome) =
            [true, true] ∧
          PoppedListed f := by
  rcases
    Machine.exists_reachableWith_of_run Sample.init_start
      removesOwn
      (Sample.submit 7 ++ Sample.submit 8 ++
        Sample.refresh "w" ++
          [Label.dequeueTenants "w", .dequeueTenants "w",
            .act 0 (.pop [1]), .act 1 (.pop [1]),
            .act 1 (.claim 1 1 0)])
      (fun f =>
        f.routines.map (fun r => r.phase.held?.isSome) =
          [true, true])
      (by decide +kernel)
  with ⟨f, hReach, hHeld⟩
  exact ⟨f, hReach, hHeld,
    popped_listed_of_own_removals hReach⟩

/-
  The claim of one goroutine fails and it puts the job back;
  a second goroutine of the worker pops the job; then the
  first one leaves, and the job is in no list.
-/
theorem requeued_job_in_no_list :
    ∃ f, fleet.Reachable f ∧
      (∃ r ∈ f.routines, ∃ item,
        r.phase.held? = some item ∧ r.taken = false ∧
          f.shared.redis.processing r.worker = [] ∧
            f.shared.redis.lanes item.list = []) ∧
        ¬PoppedListed f := by
  rcases
    Machine.exists_reachable_of_run Sample.init_start
      (Sample.submit 7 ++ Sample.refresh "w" ++
        [Label.dequeueTenants "w", .dequeueTenants "w",
          .act 0 (.pop [1]), .act 0 (.claim 1 1 0),
          .act 0 (.answer .databaseError),
          .act 0 .requeue, .act 1 (.pop [1]),
          .act 0 .removeFromProcessing])
      (fun f =>
        ∃ r ∈ f.routines, ∃ item ∈ r.phase.held?,
          r.taken = false ∧
            f.shared.redis.processing r.worker = [] ∧
              f.shared.redis.lanes item.list = [])
      (by decide +kernel)
  with ⟨f, hReach, r, hr, item, hHeld, hTaken, hList, hLane⟩
  refine ⟨f, hReach, ⟨r, hr, item, hHeld, hTaken,
    hList, hLane⟩, ?_⟩
  intro hListed
  have hMem := hListed r hr item hHeld hTaken
  rw [hList] at hMem
  cases hMem

end Worker

end Sluice
