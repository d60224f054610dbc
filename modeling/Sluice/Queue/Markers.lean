import Sluice.Foundations.Pool
import Sluice.Queue.Traffic

/-
  An enqueued marker means a queued job.

  A script sets a marker together with its entry, and a pop
  clears the marker of what it takes. Only a drain takes
  entries and leaves their markers; it has to delete them
  later, in its scan for markers. The invariant therefore
  says of every marker that its job waits, or that some drain
  in progress has the marker in view.

  Key definitions include:
    * `Redis.Queued` and `Redis.KeepsQueued`
    * `Traffic.Drain.Sound`
    * `Traffic.Covered`
    * `Traffic.OnceQueued`

  Key theorems include:
    * `Redis.keepsQueued_enqueueScript`
    * `Redis.keepsQueued_deliver`
    * `Traffic.covered_of_reachable`
    * `Traffic.onceQueued_of_reachable`
    * `Traffic.marker_means_queued`
-/

------------------------------------------------------------
-- Jobs That Stay Queued
------------------------------------------------------------

namespace Sluice

namespace Queue

open Foundations

namespace Redis

/- The job waits in some lane. -/
def Queued (r : Redis) (jobId : Uuid) : Prop :=
  ∃ lane, jobId ∈ r.lanes lane

/-
  A marker after the change belongs to a job that waits, or
  was there before for a job that did not wait.
-/
def KeepsQueued (r r' : Redis) : Prop :=
  ∀ jobId, r'.marked jobId = true →
    r'.Queued jobId ∨
      (r.marked jobId = true ∧ ¬r.Queued jobId)

variable {r : Redis}

/- Where no job leaves a lane and no marker is set. -/
theorem keepsQueued_of_subset
    {r' : Redis}
    (hMarked :
      ∀ jobId, r'.marked jobId = true →
        r.marked jobId = true)
    (hQueued :
      ∀ jobId, r'.marked jobId = true → r.Queued jobId →
        r'.Queued jobId) :
    r.KeepsQueued r' := by
  intro jobId hAfter
  by_cases hBefore : r.Queued jobId
  · exact .inl (hQueued jobId hAfter hBefore)
  · exact .inr ⟨hMarked jobId hAfter, hBefore⟩

theorem queued_enqueueScript_iff
    {lane : Lane}
    {jobId jobId' : Uuid} :
    (r.enqueueScript lane jobId).Queued jobId' ↔
      r.Queued jobId' ∨
        (r.marked jobId = false ∧ jobId' = jobId) := by
  unfold Queued
  simp only [mem_lanes_enqueueScript_iff]
  constructor
  · rintro ⟨lane', hOld | ⟨hFree, hSame, _⟩⟩
    · exact .inl ⟨lane', hOld⟩
    · exact .inr ⟨hFree, hSame⟩
  · rintro (⟨lane', hOld⟩ | ⟨hFree, hSame⟩)
    · exact ⟨lane', .inl hOld⟩
    · exact ⟨lane, .inr ⟨hFree, hSame, rfl⟩⟩

theorem keepsQueued_enqueueScript
    (lane : Lane)
    (jobId : Uuid)
    (r : Redis) :
    r.KeepsQueued (r.enqueueScript lane jobId) := by
  intro jobId' hMarked
  rw [marked_enqueueScript, Bool.or_eq_true,
    decide_eq_true_eq] at hMarked
  rw [queued_enqueueScript_iff]
  by_cases hQueued : r.Queued jobId'
  · exact .inl (.inl hQueued)
  · by_cases hOld : r.marked jobId' = true
    · exact .inr ⟨hOld, hQueued⟩
    · rcases hMarked with hOld' | rfl
      · exact absurd hOld' hOld
      · rw [Bool.not_eq_true] at hOld
        exact .inl (.inr ⟨hOld, rfl⟩)

variable {workerId : String}
variable {item : Item}

/- A pop takes the last entry of a lane. -/
theorem getLast?_of_popScript
    {keys : List Lane}
    {r' : Redis}
    (hPop : r.popScript workerId keys = some (item, r')) :
    (r.lanes item.list).getLast? = some item.jobId := by
  induction keys with
  | nil => cases hPop
  | cons lane keys ih =>
      simp only [popScript] at hPop
      split at hPop
      · exact ih hPop
      · rename_i jobId hLast
        cases hPop
        exact hLast

/- A delivery takes only the job that it delivers. -/
theorem mem_lanes_deliver_of_ne
    {lane : Lane}
    {jobId : Uuid}
    (hLast :
      (r.lanes item.list).getLast? = some item.jobId)
    (hOther : jobId ≠ item.jobId)
    (hMem : jobId ∈ r.lanes lane) :
    jobId ∈ (r.deliver item workerId).lanes lane := by
  unfold deliver
  by_cases hLane : lane = item.list
  · subst hLane
    simp only [Function.update_self]
    rw [List.getLast?_eq_some_iff] at hLast
    rcases hLast with ⟨front, hSplit⟩
    rw [hSplit] at hMem ⊢
    rw [List.dropLast_concat]
    rcases List.mem_append.mp hMem with hFront | hEnd
    · exact hFront
    · exact absurd (List.mem_singleton.mp hEnd) hOther
  · simpa only [Function.update_of_ne hLane] using hMem

theorem keepsQueued_deliver
    (hLast :
      (r.lanes item.list).getLast? = some item.jobId) :
    r.KeepsQueued (r.deliver item workerId) := by
  have hOther :
      ∀ jobId,
        (r.deliver item workerId).marked jobId = true →
          jobId ≠ item.jobId ∧ r.marked jobId = true := by
    intro jobId hMarked
    unfold deliver at hMarked
    by_cases hSame : jobId = item.jobId
    · subst hSame
      simp at hMarked
    · simp only [Function.update_of_ne hSame] at hMarked
      exact ⟨hSame, hMarked⟩
  apply keepsQueued_of_subset
  · intro jobId hMarked
    exact (hOther jobId hMarked).2
  · rintro jobId hMarked ⟨lane, hMem⟩
    exact ⟨lane,
      mem_lanes_deliver_of_ne hLast
        (hOther jobId hMarked).1 hMem⟩

theorem keepsQueued_dropMarker
    (jobId : Uuid)
    (r : Redis) :
    r.KeepsQueued (r.dropMarker jobId) := by
  apply keepsQueued_of_subset
  · intro jobId' hMarked
    unfold dropMarker at hMarked
    by_cases hSame : jobId' = jobId
    · subst hSame
      simp at hMarked
    · simpa only [Function.update_of_ne hSame] using hMarked
  · intro jobId' _ hQueued
    exact hQueued

end Redis

------------------------------------------------------------
-- Orphaned Markers
------------------------------------------------------------

namespace Traffic

open Foundations Redis

/-
  What a drain will do about the markers that it noted: those
  in its current batch, and in the end all of them.
-/
structure Drain.Sound (r : Redis) (d : Drain) : Prop where
  marked :
    ∀ jobId, d.steady jobId = true →
      r.marked jobId = true
  onQueues :
    d.phase.onQueues = true →
      ∀ jobId, r.marked jobId = true →
        d.steady jobId = true
  batch :
    ∀ jobIds last, d.phase = .delMarkers jobIds last →
      ∀ jobId ∈ d.returned, d.steady jobId = true →
        jobId ∈ jobIds
  last :
    ∀ jobIds, d.phase = .delMarkers jobIds true →
      ∀ jobId, d.steady jobId = true → jobId ∈ jobIds
  scanned :
    d.phase = .scanMarkers →
      ∀ jobId ∈ d.returned, d.steady jobId = false
  fresh : d.phase.onQueues = true → d.returned = []

/-
  A marker belongs to a job that waits, or some drain has it
  in view.
-/
structure Covered (s : State) : Prop where
  marker :
    ∀ jobId, s.redis.marked jobId = true →
      s.redis.Queued jobId ∨
        ∃ d ∈ s.drains, d.steady jobId = true
  sound : ∀ d ∈ s.drains, d.Sound s.redis

section Observe

variable {r : Redis}
variable {d : Drain}
variable {jobId : Uuid}

theorem phase_observe : (d.observe r).phase = d.phase :=
  rfl

theorem steady_observe_iff :
    (d.observe r).steady jobId = true ↔
      r.marked jobId = true ∧
        (d.phase.onQueues = true ∨
          d.steady jobId = true) := by
  unfold Drain.observe
  rw [Bool.and_eq_true, Bool.or_eq_true]

/- What is noted stays noted while the marker is there. -/
theorem steady_observe
    (hMarked : r.marked jobId = true)
    (hSteady : d.steady jobId = true) :
    (d.observe r).steady jobId = true :=
  steady_observe_iff.mpr ⟨hMarked, .inr hSteady⟩

/- Among the markers nothing new is noted. -/
theorem steady_of_observe
    (hPhase : d.phase.onQueues = false)
    (hSteady : (d.observe r).steady jobId = true) :
    r.marked jobId = true ∧ d.steady jobId = true := by
  rcases steady_observe_iff.mp hSteady with
    ⟨hMarked, hQueues | hOld⟩
  · rw [hPhase] at hQueues
    cases hQueues
  · exact ⟨hMarked, hOld⟩

/- A drain on the queues has every marker in view. -/
theorem sound_onQueues
    (hPhase : d.phase.onQueues = true)
    (hFresh : d.returned = []) :
    (d.observe r).Sound r where
  marked := by
    intro jobId hSteady
    exact (steady_observe_iff.mp hSteady).1
  onQueues := by
    intro _ jobId hMarked
    exact steady_observe_iff.mpr ⟨hMarked, .inl hPhase⟩
  batch := by
    intro jobIds last hDel
    rw [phase_observe] at hDel
    rw [hDel] at hPhase
    cases hPhase
  last := by
    intro jobIds hDel
    rw [phase_observe] at hDel
    rw [hDel] at hPhase
    cases hPhase
  scanned := by
    intro hScan
    rw [phase_observe] at hScan
    rw [hScan] at hPhase
    cases hPhase
  fresh := fun _ => hFresh

theorem sound_scanMarkers
    (hPhase : d.phase = .scanMarkers)
    (hReturned :
      ∀ jobId ∈ d.returned, r.marked jobId = true →
        d.steady jobId = false) :
    (d.observe r).Sound r where
  marked := by
    intro jobId hSteady
    exact (steady_observe_iff.mp hSteady).1
  onQueues := by
    intro hQueues
    rw [phase_observe, hPhase] at hQueues
    cases hQueues
  batch := by
    intro jobIds last hDel
    rw [phase_observe, hPhase] at hDel
    cases hDel
  last := by
    intro jobIds hDel
    rw [phase_observe, hPhase] at hDel
    cases hDel
  scanned := by
    intro _ jobId hMem
    rw [← Bool.not_eq_true]
    intro hSteady
    have hOld :=
      steady_of_observe (by rw [hPhase]; rfl) hSteady
    rw [hReturned jobId hMem hOld.1] at hOld
    cases hOld.2
  fresh := by
    intro hQueues
    rw [phase_observe, hPhase] at hQueues
    cases hQueues

theorem sound_delMarkers
    {jobIds : List Uuid}
    {last : Bool}
    (hPhase : d.phase = .delMarkers jobIds last)
    (hBatch :
      ∀ jobId ∈ d.returned, d.steady jobId = true →
        jobId ∈ jobIds)
    (hLast :
      last = true →
        ∀ jobId, d.steady jobId = true → jobId ∈ jobIds) :
    (d.observe r).Sound r where
  marked := by
    intro jobId hSteady
    exact (steady_observe_iff.mp hSteady).1
  onQueues := by
    intro hQueues
    rw [phase_observe, hPhase] at hQueues
    cases hQueues
  batch := by
    intro jobIds' last' hDel jobId hMem hSteady
    rw [phase_observe, hPhase] at hDel
    cases hDel
    apply hBatch jobId hMem
    exact
      (steady_of_observe (by rw [hPhase]; rfl) hSteady).2
  last := by
    intro jobIds' hDel jobId hSteady
    rw [phase_observe, hPhase] at hDel
    cases hDel
    apply hLast rfl
    exact
      (steady_of_observe (by rw [hPhase]; rfl) hSteady).2
  scanned := by
    intro hScan
    rw [phase_observe, hPhase] at hScan
    cases hScan
  fresh := by
    intro hQueues
    rw [phase_observe, hPhase] at hQueues
    cases hQueues

/- Whatever happens to Redis, the notes stay right. -/
theorem Drain.Sound.observe
    {r' : Redis}
    (hSound : d.Sound r) :
    (d.observe r').Sound r' := by
  cases hPhase : d.phase with
  | scanQueues | llen | delQueue =>
      have hQueues : d.phase.onQueues = true := by
        rw [hPhase]
        rfl
      exact sound_onQueues hQueues (hSound.fresh hQueues)
  | scanMarkers =>
      apply sound_scanMarkers hPhase
      intro jobId hMem _
      exact hSound.scanned hPhase jobId hMem
  | delMarkers jobIds last =>
      apply sound_delMarkers hPhase
      · exact hSound.batch jobIds last hPhase
      · rintro rfl
        exact hSound.last jobIds hPhase

/- After a batch of queues, on to the next or the markers. -/
theorem sound_ofBatch
    {keys : List QueueKey}
    {last : Bool}
    (hPhase : d.phase = .ofBatch keys last)
    (hFresh : d.returned = []) :
    (d.observe r).Sound r := by
  have hScan :
      d.phase = .scanMarkers → (d.observe r).Sound r := by
    intro hMarkers
    apply sound_scanMarkers hMarkers
    intro jobId hMem
    rw [hFresh] at hMem
    cases hMem
  cases keys with
  | nil =>
      cases last with
      | false =>
          apply sound_onQueues _ hFresh
          rw [hPhase]
          rfl
      | true => exact hScan hPhase
  | cons key keys =>
      apply sound_onQueues _ hFresh
      rw [hPhase]
      rfl

end Observe

------------------------------------------------------------
-- One Command Of A Drain
------------------------------------------------------------

section DrainStep

variable {r r' : Redis}
variable {d : Drain}
variable {o : Option Drain}
variable {jobId : Uuid}

/- The drain goes on and has the marker in view. -/
def InView
    (r : Redis)
    (o : Option Drain)
    (jobId : Uuid) :
    Prop :=
  ∃ d, o = some d ∧ (d.observe r).steady jobId = true

/-
  What a command of a drain does: no marker is set, those in
  view stay in view, and a marker whose job is taken from a
  lane comes into view.
-/
structure Drained
    (r r' : Redis)
    (d : Drain)
    (o : Option Drain) :
    Prop where
  marked :
    ∀ jobId, r'.marked jobId = true →
      r.marked jobId = true
  inView :
    ∀ jobId, r'.marked jobId = true →
      d.steady jobId = true → InView r' o jobId
  queued :
    ∀ jobId, r'.marked jobId = true → r.Queued jobId →
      r'.Queued jobId ∨ InView r' o jobId
  sound : ∀ d', o = some d' → (d'.observe r').Sound r'

/- A command that does not change Redis. -/
theorem drained_of_same
    {d' : Drain}
    (hSteady : d'.steady = d.steady)
    (hSound : (d'.observe r).Sound r) :
    Drained r r d (some d') where
  marked := fun _ hMarked => hMarked
  inView := by
    intro jobId hMarked hOld
    refine ⟨d', rfl, steady_observe hMarked ?_⟩
    rw [hSteady]
    exact hOld
  queued := fun _ _ hQueued => .inl hQueued
  sound := by
    intro d'' hSome
    cases hSome
    exact hSound

theorem drained_queues
    {keys : List QueueKey}
    {last : Bool}
    (hSound : d.Sound r)
    (hStep :
      d.step r (.queues keys last) = some (r', o)) :
    Drained r r' d o := by
  simp only [Drain.step] at hStep
  split at hStep
  · rename_i hPhase
    cases hStep
    refine drained_of_same (by rfl) ?_
    apply sound_ofBatch rfl
    exact hSound.fresh (by rw [hPhase]; rfl)
  · cases hStep

theorem drained_markers
    {jobIds : List Uuid}
    {last : Bool}
    (hSound : d.Sound r)
    (hComplete :
      last = true →
        ∀ jobId, d.steady jobId = true →
          jobId ∈ d.returned ++ jobIds)
    (hStep :
      d.step r (.markers jobIds last) = some (r', o)) :
    Drained r r' d o := by
  simp only [Drain.step] at hStep
  split at hStep
  · rename_i hPhase
    have hBatch :
        ∀ jobId ∈ d.returned ++ jobIds,
          d.steady jobId = true → jobId ∈ jobIds := by
      intro jobId hMem hSteady
      rcases List.mem_append.mp hMem with hOld | hNew
      · rw [hSound.scanned hPhase jobId hOld] at hSteady
        cases hSteady
      · exact hNew
    split at hStep
    · rename_i hNone
      subst hNone
      cases last with
      | true =>
          -- nothing is steady: it would have been returned
          cases hStep
          refine ⟨fun _ hMarked => hMarked, ?_,
            fun _ _ hQueued => .inl hQueued, ?_⟩
          · intro jobId _ hSteady
            have hMem := hComplete rfl jobId hSteady
            cases hBatch jobId hMem hSteady
          · intro d' hSome
            cases hSome
      | false =>
          cases hStep
          refine drained_of_same (by rfl) ?_
          refine sound_scanMarkers (by exact hPhase) ?_
          intro jobId hMem _
          rw [List.append_nil] at hMem
          exact hSound.scanned hPhase jobId hMem
    · cases hStep
      refine drained_of_same (by rfl) ?_
      apply sound_delMarkers rfl hBatch
      intro hLast jobId hSteady
      exact hBatch jobId
        (hComplete hLast jobId hSteady) hSteady
  · cases hStep

/- The lists go while every marker is in view. -/
theorem drained_delQueue
    {key : QueueKey}
    {d' : Drain}
    (hSound : d.Sound r)
    (hPhase : d.phase.onQueues = true)
    (hSteady : d'.steady = d.steady)
    (hSound' :
      (d'.observe (r.delQueue key)).Sound
        (r.delQueue key)) :
    Drained r (r.delQueue key) d (some d') := by
  have hMarked : (r.delQueue key).marked = r.marked := by
    cases key <;> rfl
  have hInView :
      ∀ jobId, (r.delQueue key).marked jobId = true →
        InView (r.delQueue key) (some d') jobId := by
    intro jobId hHere
    refine ⟨d', rfl, steady_observe hHere ?_⟩
    rw [hSteady]
    rw [hMarked] at hHere
    exact hSound.onQueues hPhase jobId hHere
  refine ⟨?_, ?_, ?_, ?_⟩
  · intro jobId hHere
    rw [hMarked] at hHere
    exact hHere
  · intro jobId hHere _
    exact hInView jobId hHere
  · intro jobId hHere _
    exact .inr (hInView jobId hHere)
  · intro d'' hSome
    cases hSome
    exact hSound'

theorem marked_delMarkers_iff
    {jobIds : List Uuid} :
    (r.delMarkers jobIds).marked jobId = true ↔
      r.marked jobId = true ∧ jobId ∉ jobIds := by
  simp [delMarkers]

/- The markers of a batch go, and in the end all in view. -/
theorem drained_delMarkers
    {jobIds : List Uuid}
    {last : Bool}
    (hSound : d.Sound r)
    (hPhase : d.phase = .delMarkers jobIds last) :
    Drained r (r.delMarkers jobIds) d
      (if last then none
        else some { d with phase := .scanMarkers }) := by
  refine ⟨?_, ?_, fun _ _ hQueued => .inl hQueued, ?_⟩
  · intro jobId hMarked
    exact (marked_delMarkers_iff.mp hMarked).1
  · intro jobId hMarked hSteady
    have hLeft := (marked_delMarkers_iff.mp hMarked).2
    cases last with
    | true =>
        exact absurd
          (hSound.last jobIds hPhase jobId hSteady) hLeft
    | false =>
        exact ⟨_, rfl, steady_observe hMarked hSteady⟩
  · intro d' hSome
    cases last with
    | true => cases hSome
    | false =>
        cases hSome
        apply sound_scanMarkers rfl
        intro jobId hMem hMarked
        have hLeft := (marked_delMarkers_iff.mp hMarked).2
        rw [← Bool.not_eq_true]
        intro hSteady
        exact hLeft
          (hSound.batch jobIds false hPhase jobId hMem
            hSteady)

theorem drained_done
    (hSound : d.Sound r)
    (hStep : d.step r .done = some (r', o)) :
    Drained r r' d o := by
  simp only [Drain.step] at hStep
  split at hStep
  · rename_i key keys last hPhase
    have hQueues : d.phase.onQueues = true := by
      rw [hPhase]
      rfl
    split at hStep
    · cases hStep
      refine drained_of_same (by rfl) ?_
      exact sound_ofBatch rfl (hSound.fresh hQueues)
    · cases hStep
      refine drained_of_same (by rfl) ?_
      exact sound_onQueues rfl (hSound.fresh hQueues)
  · rename_i key n keys last hPhase
    have hQueues : d.phase.onQueues = true := by
      rw [hPhase]
      rfl
    cases hStep
    refine drained_delQueue hSound hQueues (by rfl) ?_
    exact sound_ofBatch rfl (hSound.fresh hQueues)
  · rename_i jobIds last hPhase
    cases hStep
    exact drained_delMarkers hSound hPhase
  · cases hStep

end DrainStep

------------------------------------------------------------
-- Whole Runs
------------------------------------------------------------

variable {s s' : State}
variable {r : Redis}

/- A step of another process. -/
theorem Covered.withRedis
    (hCovered : Covered s)
    (hKeeps : s.redis.KeepsQueued r) :
    Covered (s.withRedis r) where
  marker := by
    intro jobId hMarked
    rcases hKeeps jobId hMarked with
      hQueued | ⟨hBefore, hNot⟩
    · exact .inl hQueued
    · rcases hCovered.marker jobId hBefore with
        hQueued | ⟨d, hd, hSteady⟩
      · exact absurd hQueued hNot
      · right
        exact ⟨d.observe r, List.mem_map_of_mem hd,
          steady_observe hMarked hSteady⟩
  sound := by
    intro d hd
    rcases List.mem_map.mp hd with ⟨old, hOld, rfl⟩
    exact (hCovered.sound old hOld).observe

/- A step of the drain that stands between the others. -/
theorem Covered.drained
    {before after : List Drain}
    {d : Drain}
    {o : Option Drain}
    (hCovered : Covered s)
    (hSplit : s.drains = before ++ d :: after)
    (hDrained : Drained s.redis r d o)
    (hRedis : s'.redis = r)
    (hDrains :
      s'.drains =
        (before ++ (o.toList ++ after)).map
          (Drain.observe r)) :
    Covered s' where
  marker := by
    intro jobId hMarked
    rw [hRedis] at hMarked ⊢
    have hHere :
        InView r o jobId →
          ∃ e ∈ s'.drains, e.steady jobId = true := by
      rintro ⟨d', hSome, hSteady⟩
      refine ⟨d'.observe r, ?_, hSteady⟩
      rw [hDrains]
      apply List.mem_map_of_mem
      exact mem_replaced_iff.mpr (.inl hSome)
    rcases hCovered.marker jobId
        (hDrained.marked jobId hMarked) with
      hQueued | ⟨e, he, hSteady⟩
    · rcases hDrained.queued jobId hMarked hQueued with
        hStill | hInView
      · exact .inl hStill
      · exact .inr (hHere hInView)
    · right
      rw [hSplit] at he
      rcases mem_split_iff.mp he with rfl | hOther
      · exact hHere (hDrained.inView jobId hMarked hSteady)
      · refine ⟨e.observe r, ?_,
          steady_observe hMarked hSteady⟩
        rw [hDrains]
        apply List.mem_map_of_mem
        exact mem_replaced_iff.mpr (.inr hOther)
  sound := by
    intro e he
    rw [hRedis]
    rw [hDrains] at he
    rcases List.mem_map.mp he with ⟨old, hOld, rfl⟩
    rcases mem_replaced_iff.mp hOld with hSome | hOther
    · exact hDrained.sound old hSome
    · exact
        (hCovered.sound old
          (mem_of_split hSplit hOther)).observe

theorem covered_stepDrain
    {i : Nat}
    {answer : Answer}
    (hCovered : Covered s)
    (hComplete : scansComplete s (.drain i answer))
    (hStep : s.stepDrain i answer = some s') :
    Covered s' := by
  unfold State.stepDrain at hStep
  split at hStep
  · cases hStep
  · rename_i d hGet
    rcases exists_split_of_getElem? hGet with
      ⟨before, after, hSplit, _, hErase, hSet⟩
    have hSound :=
      hCovered.sound d (self_mem_of_split hSplit)
    have hDrained :
        ∀ r o, d.step s.redis answer = some (r, o) →
          Drained s.redis r d o := by
      intro r o hCommand
      cases answer with
      | queues keys last =>
          exact drained_queues hSound hCommand
      | markers jobIds last =>
          apply drained_markers hSound _ hCommand
          rintro rfl
          exact hComplete d hGet
      | done => exact drained_done hSound hCommand
    split at hStep
    · cases hStep
    · rename_i r d' hCommand
      cases hStep
      apply hCovered.drained hSplit
        (hDrained _ _ hCommand) rfl
      change (s.drains.set i d').map _ = _
      rw [hSet]
      rfl
    · rename_i r hCommand
      cases hStep
      apply hCovered.drained hSplit
        (hDrained _ _ hCommand) rfl
      change (s.drains.eraseIdx i).map _ = _
      rw [hErase]
      rfl

/- A change of the list of pipelines alone. -/
theorem Covered.of_pipelines
    {pipelines : List (List Entry)}
    (hCovered : Covered s) :
    Covered { s with pipelines := pipelines } :=
  ⟨hCovered.marker, hCovered.sound⟩

theorem covered_step
    {label : Label}
    (hCovered : Covered s)
    (hComplete : scansComplete s label)
    (hStep : step label s = some s') :
    Covered s' := by
  cases label with
  | enqueue tenantId jobId priority =>
      cases hStep
      exact hCovered.withRedis
        (keepsQueued_enqueueScript _ _ _)
  | enqueueMany entries =>
      cases hStep
      exact hCovered.of_pipelines
  | pipe i =>
      simp only [step, State.stepPipe] at hStep
      split at hStep
      · cases hStep
      · cases hStep
        exact hCovered.of_pipelines
      · cases hStep
        apply hCovered.of_pipelines.withRedis
        exact keepsQueued_enqueueScript _ _ _
  | requeue item =>
      cases hStep
      exact hCovered.withRedis
        (keepsQueued_enqueueScript _ _ _)
  | pop workerId order =>
      rcases Option.map_eq_some_iff.mp hStep with
        ⟨⟨item, r⟩, hPop, rfl⟩
      have hLast := getLast?_of_popScript hPop
      rcases popScript_eq_some hPop with ⟨_, _, rfl⟩
      exact hCovered.withRedis (keepsQueued_deliver hLast)
  | wait =>
      cases hStep
      apply hCovered.withRedis
      exact keepsQueued_of_subset (fun _ hMarked => hMarked)
        (fun _ _ hQueued => hQueued)
  | expire jobId =>
      cases hStep
      exact hCovered.withRedis (keepsQueued_dropMarker _ _)
  | startDrain =>
      cases hStep
      refine ⟨?_, ?_⟩
      · intro jobId hMarked
        rcases hCovered.marker jobId hMarked with
          hQueued | ⟨d, hd, hSteady⟩
        · exact .inl hQueued
        · exact .inr
            ⟨d, List.mem_append_left _ hd, hSteady⟩
      · intro d hd
        rcases List.mem_append.mp hd with hOld | hNew
        · exact hCovered.sound d hOld
        · rw [List.mem_singleton.mp hNew]
          have hStart :
              (Drain.start s.redis).observe s.redis =
                Drain.start s.redis := by
            simp [Drain.observe, Drain.start, Phase.onQueues]
          rw [← hStart]
          exact sound_onQueues rfl rfl
  | drain i answer =>
      exact covered_stepDrain hCovered hComplete hStep

theorem covered_of_reachable
    (hReach : queueing.ReachableWith scansComplete s) :
    Covered s := by
  apply hReach.invariant (I := Covered)
  · rintro s rfl
    refine ⟨?_, ?_⟩
    · intro jobId hMarked
      cases hMarked
    · intro d hd
      cases hd
  · intro s label s' _ hCovered hComplete hStep
    exact covered_step hCovered hComplete hStep

/- Without a drain, a marker means a queued job. -/
theorem queued_of_marked
    {jobId : Uuid}
    (hReach : queueing.ReachableWith scansComplete s)
    (hIdle : s.drains = [])
    (hMarked : s.redis.marked jobId = true) :
    s.redis.Queued jobId := by
  rcases (covered_of_reachable hReach).marker jobId
      hMarked with
    hQueued | ⟨d, hd, _⟩
  · exact hQueued
  · rw [hIdle] at hd
    cases hd

/- An `Enqueue`, even one that does nothing, leaves it queued. -/
theorem queued_after_enqueue
    {lane : Lane}
    {jobId : Uuid}
    (hReach : queueing.ReachableWith scansComplete s)
    (hIdle : s.drains = []) :
    (s.redis.enqueueScript lane jobId).Queued jobId := by
  apply queued_enqueueScript_iff.mpr
  by_cases hMarked : s.redis.marked jobId = true
  · exact .inl (queued_of_marked hReach hIdle hMarked)
  · rw [Bool.not_eq_true] at hMarked
    exact .inr ⟨hMarked, rfl⟩

------------------------------------------------------------
-- Undisturbed Runs
------------------------------------------------------------

/-
  Every job waits at most once, and exactly when its marker
  is there.
-/
structure OnceQueued (r : Redis) : Prop where
  count_le :
    ∀ lane jobId, (r.lanes lane).count jobId ≤ 1
  lane_unique :
    ∀ lane lane' jobId,
      jobId ∈ r.lanes lane → jobId ∈ r.lanes lane' →
        lane = lane'
  marked_iff :
    ∀ jobId,
      r.marked jobId = true ↔ ∃ lane, jobId ∈ r.lanes lane

theorem OnceQueued.enqueueScript
    (lane : Lane)
    (jobId : Uuid)
    (hOnce : OnceQueued r) :
    OnceQueued (r.enqueueScript lane jobId) := by
  by_cases hMarked : r.marked jobId = true
  · unfold Redis.enqueueScript
    rw [if_pos hMarked]
    exact hOnce
  · rw [Bool.not_eq_true] at hMarked
    have hAbsent : ∀ lane', jobId ∉ r.lanes lane' := by
      intro lane' hMem
      have hPresent :=
        (hOnce.marked_iff jobId).mpr ⟨lane', hMem⟩
      rw [hMarked] at hPresent
      cases hPresent
    refine ⟨?_, ?_, ?_⟩
    · intro lane' jobId'
      unfold Redis.enqueueScript
      rw [if_neg (by rw [hMarked]; decide)]
      by_cases hLane : lane' = lane
      · subst hLane
        simp only [Function.update_self]
        by_cases hSame : jobId' = jobId
        · subst hSame
          rw [List.count_cons_self,
            List.count_eq_zero.mpr (hAbsent lane')]
        · rw [List.count_cons_of_ne (Ne.symm hSame)]
          exact hOnce.count_le lane' jobId'
      · simp only [Function.update_of_ne hLane]
        exact hOnce.count_le lane' jobId'
    · intro lane₁ lane₂ jobId' hMem₁ hMem₂
      rcases mem_lanes_enqueueScript_iff.mp hMem₁ with
        hOld₁ | ⟨_, rfl, rfl⟩
      · rcases mem_lanes_enqueueScript_iff.mp hMem₂ with
          hOld₂ | ⟨_, rfl, rfl⟩
        · exact hOnce.lane_unique _ _ _ hOld₁ hOld₂
        · exact absurd hOld₁ (hAbsent lane₁)
      · rcases mem_lanes_enqueueScript_iff.mp hMem₂ with
          hOld₂ | ⟨_, _, rfl⟩
        · exact absurd hOld₂ (hAbsent lane₂)
        · rfl
    · intro jobId'
      change _ ↔ Queued _ _
      rw [queued_enqueueScript_iff, marked_enqueueScript,
        Bool.or_eq_true, decide_eq_true_eq,
        hOnce.marked_iff jobId', hMarked]
      unfold Queued
      simp

/- The job that is delivered is nowhere else. -/
theorem OnceQueued.not_queued_deliver
    {item : Item}
    {workerId : String}
    (hOnce : OnceQueued r)
    (hLast :
      (r.lanes item.list).getLast? = some item.jobId) :
    ¬(r.deliver item workerId).Queued item.jobId := by
  rintro ⟨lane, hMem⟩
  have hSame : lane = item.list :=
    hOnce.lane_unique _ _ _ (mem_lanes_deliver hMem)
      (List.mem_of_getLast? hLast)
  subst hSame
  rcases List.getLast?_eq_some_iff.mp hLast with
    ⟨front, hSplit⟩
  have hCount := hOnce.count_le item.list item.jobId
  rw [hSplit, List.count_append, List.count_singleton_self]
    at hCount
  unfold deliver at hMem
  simp only [Function.update_self] at hMem
  rw [hSplit, List.dropLast_concat] at hMem
  have hPositive := List.count_pos_iff.mpr hMem
  omega

theorem OnceQueued.deliver
    {item : Item}
    {workerId : String}
    (hOnce : OnceQueued r)
    (hLast :
      (r.lanes item.list).getLast? = some item.jobId) :
    OnceQueued (r.deliver item workerId) := by
  have hGone :
      ¬(r.deliver item workerId).Queued item.jobId :=
    hOnce.not_queued_deliver hLast
  refine ⟨?_, ?_, ?_⟩
  · intro lane jobId
    have hSublist :
        ((r.deliver item workerId).lanes lane).Sublist
          (r.lanes lane) := by
      unfold Redis.deliver
      by_cases hLane : lane = item.list
      · subst hLane
        simp only [Function.update_self]
        exact List.dropLast_sublist _
      · simp only [Function.update_of_ne hLane]
        exact List.Sublist.refl _
    exact le_trans (hSublist.count_le jobId)
      (hOnce.count_le lane jobId)
  · intro lane₁ lane₂ jobId hMem₁ hMem₂
    exact hOnce.lane_unique _ _ _ (mem_lanes_deliver hMem₁)
      (mem_lanes_deliver hMem₂)
  · intro jobId
    by_cases hSame : jobId = item.jobId
    · subst hSame
      have hCleared :
          (r.deliver item workerId).marked item.jobId =
            false := by
        simp [Redis.deliver]
      rw [hCleared]
      exact iff_of_false (by decide) hGone
    · have hKept :
          (r.deliver item workerId).marked jobId =
            r.marked jobId := by
        simp [Redis.deliver, Function.update_of_ne hSame]
      rw [hKept, hOnce.marked_iff jobId]
      constructor
      · rintro ⟨lane, hMem⟩
        exact ⟨lane,
          mem_lanes_deliver_of_ne hLast hSame hMem⟩
      · rintro ⟨lane, hMem⟩
        exact ⟨lane, mem_lanes_deliver hMem⟩

/- Undisturbed, there is no drain either. -/
theorem onceQueued_step
    {label : Label}
    (hOnce : OnceQueued s.redis ∧ s.drains = [])
    (hUndisturbed : undisturbed s label)
    (hStep : step label s = some s') :
    OnceQueued s'.redis ∧ s'.drains = [] := by
  rcases hOnce with ⟨hOnce, hIdle⟩
  have hNone :
      ∀ r, s.drains.map (Drain.observe r) = [] := by
    intro r
    rw [hIdle]
    rfl
  cases label with
  | enqueue tenantId jobId priority =>
      cases hStep
      exact ⟨hOnce.enqueueScript _ _, hNone _⟩
  | enqueueMany entries =>
      cases hStep
      exact ⟨hOnce, hIdle⟩
  | pipe i =>
      simp only [step, State.stepPipe] at hStep
      split at hStep
      · cases hStep
      · cases hStep
        exact ⟨hOnce, hIdle⟩
      · cases hStep
        exact ⟨hOnce.enqueueScript _ _, hNone _⟩
  | requeue item =>
      cases hStep
      exact ⟨hOnce.enqueueScript _ _, hNone _⟩
  | pop workerId order =>
      rcases Option.map_eq_some_iff.mp hStep with
        ⟨⟨item, r⟩, hPop, rfl⟩
      have hLast := getLast?_of_popScript hPop
      rcases popScript_eq_some hPop with ⟨_, _, rfl⟩
      exact ⟨hOnce.deliver hLast, hNone _⟩
  | wait =>
      cases hStep
      exact ⟨⟨hOnce.count_le, hOnce.lane_unique,
        hOnce.marked_iff⟩, hNone _⟩
  | expire jobId => cases hUndisturbed
  | startDrain => cases hUndisturbed
  | drain i answer =>
      simp only [step, State.stepDrain, hIdle] at hStep
      cases hStep

theorem onceQueued_of_reachable
    (hReach : queueing.ReachableWith undisturbed s) :
    OnceQueued s.redis := by
  have hBoth : OnceQueued s.redis ∧ s.drains = [] := by
    apply hReach.invariant
      (I := fun s => OnceQueued s.redis ∧ s.drains = [])
    · rintro s rfl
      refine ⟨⟨?_, ?_, ?_⟩, rfl⟩
      · intro lane jobId
        exact Nat.zero_le 1
      · intro lane lane' jobId hMem
        cases hMem
      · intro jobId
        constructor
        · intro hMarked
          cases hMarked
        · rintro ⟨lane, hMem⟩
          cases hMem
    · intro s label s' _ hOnce hUndisturbed hStep
      exact onceQueued_step hOnce hUndisturbed hStep
  exact hBoth.1

/-
  An enqueued marker means a queued job, whenever no drain is
  in progress. Where no marker expires and nobody drains, it
  means exactly one entry.
-/
theorem marker_means_queued :
    (∀ s, queueing.ReachableWith scansComplete s →
      s.drains = [] →
        (∀ jobId, s.redis.marked jobId = true →
          ∃ lane, jobId ∈ s.redis.lanes lane) ∧
          ∀ lane jobId, ∃ lane',
            jobId ∈
              (s.redis.enqueueScript lane jobId).lanes
                lane') ∧
      ∀ s, queueing.ReachableWith undisturbed s →
        OnceQueued s.redis := by
  refine ⟨?_, ?_⟩
  · intro s hReach hIdle
    refine ⟨?_, ?_⟩
    · intro jobId hMarked
      exact queued_of_marked hReach hIdle hMarked
    · intro lane jobId
      exact queued_after_enqueue hReach hIdle
  · intro s hReach
    exact onceQueued_of_reachable hReach

/- A job that is enqueued, drained and enqueued again. -/
theorem drained_job_is_queued_again :
    ∃ s, queueing.ReachableWith scansComplete s ∧
      s.output =
          ["removed 1 jobs from 1 queues",
            "jobs are preserved in postgres and will be " ++
              "re-enqueued by the reconciler when ready"] ∧
        s.redis.marked 1 = true ∧
          ∃ lane, 1 ∈ s.redis.lanes lane := by
  have hStart :
      queueing.ReachableWith scansComplete State.empty :=
    .start rfl
  have hEnqueued :=
    hStart.next (Label.enqueue 7 1 5) (by trivial) rfl
  have hDraining :=
    hEnqueued.next Label.startDrain (by trivial) rfl
  have hFound :=
    hDraining.next
      (Label.drain 0 (.queues [.lane ⟨.normal, 7⟩] true))
      (by trivial) rfl
  have hCounted :=
    hFound.next (Label.drain 0 .done) (by trivial) rfl
  have hDeleted :=
    hCounted.next (Label.drain 0 .done) (by trivial) rfl
  have hScanned :=
    hDeleted.next (Label.drain 0 (.markers [1] true))
      (by
        intro d hd jobId hSteady
        have hMarked :=
          ((covered_of_reachable hDeleted).sound d
            (List.mem_of_getElem? hd)).marked jobId hSteady
        have hSet :
            (false || decide (jobId = 1)) = true :=
          (marked_enqueueScript ⟨.normal, 7⟩ 1 jobId
            Redis.empty).symm.trans hMarked
        exact List.mem_append_right _ (by simpa using hSet))
      rfl
  have hDrained :=
    hScanned.next (Label.drain 0 .done) (by trivial) rfl
  have hAgain :=
    hDrained.next (Label.enqueue 7 1 5) (by trivial) rfl
  refine ⟨_, hAgain, ?_, ?_, ?_⟩
  · rfl
  · rfl
  · exact (marker_means_queued.1 _ hAgain rfl).1 1 rfl

end Traffic

end Queue

end Sluice
