import Mathlib.Data.List.Nodup
import Mathlib.Logic.Function.Basic
import Sluice.Foundations.Machine
import Sluice.Foundations.Pool
import Sluice.Queue.Redis

/-
  Leadership of the schedulers.

  Every pod runs `Scheduler.Run`: it opens a session in etcd,
  campaigns, runs its loops while it leads, resigns and
  starts over. The election of package `concurrency` is a
  parameter, and what is assumed of it is stated by name. A
  lease may end at any time, and the pod learns of that only
  later. Pods die, and calls to etcd fail.

  Key definitions include:
    * `LoopName` and `loops`
    * `Election`, `Election.Exclusive`, `Election.Lasting`
    * `Phase`, `Pod` and `Routine`
    * `Cluster` and `Cluster.step`
    * `Ordered`

  Key theorems include:
    * `Ordered.setPod`
    * `Ordered.step`
    * `one_lease_holder_leads`
-/

------------------------------------------------------------
-- Pods
------------------------------------------------------------

namespace Sluice

namespace Scheduler

namespace Leadership

open Foundations Queue

/- The loops that `lead` runs. -/
inductive LoopName
| duePoll
| staleReaper
| deadLetterPromoter
| cronExpander
| pendingReconciler
| deadWorkerRecovery
| partitionMaintainer
| queueDepthExporter
| retention
deriving DecidableEq, Repr

def loops : List LoopName :=
  [.duePoll, .staleReaper, .deadLetterPromoter,
    .cronExpander, .pendingReconciler, .deadWorkerRecovery,
    .partitionMaintainer, .queueDepthExporter, .retention]

/-
  The election in etcd, whose states are left open: how they
  may change, whether the lease of a session is live, and
  whether the session has won.
-/
structure Election (σ : Type) where
  next : σ → σ → Bool
  live : σ → Nat → Bool
  won : σ → Nat → Bool

namespace Election

variable {σ : Type}

/- Of the sessions that have won, one at most is live. -/
def Exclusive (E : Election σ) : Prop :=
  ∀ etcd a b, E.won etcd a = true → E.won etcd b = true →
    E.live etcd a = true → E.live etcd b = true → a = b

/- A session that has won stays one that has. -/
def Lasting (E : Election σ) : Prop :=
  ∀ etcd etcd' a, E.next etcd etcd' = true →
    E.won etcd a = true → E.won etcd' a = true

end Election

/-
  Where `Run` is: at the head of its loop; in `Campaign`,
  with its session; in `lead`, and whether its context has
  been cancelled; about to resign; returned; or gone with its
  process.
-/
inductive Phase
| standby
| campaigning (sess : Nat)
| leading (sess : Nat) (cancelled : Bool)
| resigning (sess : Nat)
| stopped
| dead
deriving DecidableEq, Repr

/- The session of a pod, whose lease may have ended. -/
def Phase.session? : Phase → Option Nat
| .campaigning sess => some sess
| .leading sess _ => some sess
| .resigning sess => some sess
| _ => none

/-
  A process. `gauge` has the samples of `sluice_queue_depth`
  that it exposes.
-/
structure Pod where
  phase : Phase
  ctxDone : Bool
  gauge : List (Lane × Nat)

def Pod.moveTo (p : Pod) (phase : Phase) : Pod :=
  { p with phase := phase }

/- A goroutine of `lead`, of one pod and one term. -/
structure Routine where
  pod : Nat
  sess : Nat
  name : LoopName
deriving DecidableEq, Repr

/-
  The election, the number of the next session, the pods and
  their goroutines.
-/
structure Cluster (σ : Type) where
  etcd : σ
  next : Nat
  pods : Nat → Pod
  routines : List Routine

inductive Label (σ : Type)
| etcd (state : σ)
| campaign (i : Nat)
| campaignFails (i : Nat)
| win (i : Nat)
| lose (i : Nat)
| cancel (i : Nat)
| publish (k : Nat) (depths : List (Lane × Nat))
| finish (k : Nat)
| waited (i : Nat)
| resign (i : Nat)
| stop (i : Nat)
| die (i : Nat)

namespace Cluster

variable {σ : Type}

def setPod (s : Cluster σ) (i : Nat) (p : Pod) : Cluster σ :=
  { s with pods := Function.update s.pods i p }

def movePod
    (s : Cluster σ)
    (i : Nat)
    (phase : Phase) :
    Cluster σ :=
  s.setPod i ((s.pods i).moveTo phase)

/- The exporter resets the gauge when it returns. -/
def finished (s : Cluster σ) (g : Routine) : Cluster σ :=
  if g.name = .queueDepthExporter then
    s.setPod g.pod { s.pods g.pod with gauge := [] }
  else s

/-
  The steps of `Run` and `Campaign`. What they ask of etcd is
  a change of the election, before or after.
-/
def stepPod
    (E : Election σ)
    (label : Label σ)
    (i : Nat)
    (s : Cluster σ) :
    Option (Cluster σ) :=
  match label, (s.pods i).phase with
  | .campaign _, .standby =>
      if (s.pods i).ctxDone then none
      else
        some
          ({ s with next := s.next + 1 }.movePod i
            (.campaigning s.next))
  | .campaignFails _, .standby =>
      some (s.movePod i .stopped)
  | .campaignFails _, .campaigning _ =>
      some (s.movePod i .stopped)
  | .win _, .campaigning sess =>
      if E.won s.etcd sess = true then
        some
          ({ s with
              routines :=
                loops.map (Routine.mk i sess) ++
                  s.routines }.movePod i
            (.leading sess false))
      else none
  | .lose _, .leading sess _ =>
      some (s.movePod i (.leading sess true))
  | .waited _, .leading sess _ =>
      if
        s.routines.all
          (fun g => g.pod ≠ i || g.sess ≠ sess) = true
      then some (s.movePod i (.resigning sess))
      else none
  | .resign _, .resigning _ =>
      some (s.movePod i .standby)
  | .stop _, .standby =>
      if (s.pods i).ctxDone then some (s.movePod i .stopped)
      else none
  | _, _ => none

/-
  The steps of a goroutine of `lead`. It returns when its
  context ends; the loop for retention also returns at once
  when there is nothing to do.
-/
def stepRoutine
    (k : Nat)
    (depths : Option (List (Lane × Nat)))
    (s : Cluster σ) :
    Option (Cluster σ) :=
  match s.routines[k]? with
  | none => none
  | some g =>
      match depths with
      | some depths =>
          if g.name = .queueDepthExporter then
            some
              (s.setPod g.pod
                { s.pods g.pod with gauge := depths })
          else none
      | none =>
          if
            (s.pods g.pod).phase = .leading g.sess true ∨
              g.name = .retention
          then
            some
              ({ s with
                  routines := s.routines.eraseIdx k }.finished
                g)
          else none

def step
    (E : Election σ)
    (label : Label σ)
    (s : Cluster σ) :
    Option (Cluster σ) :=
  match label with
  | .etcd state =>
      if E.next s.etcd state = true then
        some { s with etcd := state }
      else none
  | .campaign i => s.stepPod E label i
  | .campaignFails i => s.stepPod E label i
  | .win i => s.stepPod E label i
  | .lose i => s.stepPod E label i
  | .waited i => s.stepPod E label i
  | .resign i => s.stepPod E label i
  | .stop i => s.stepPod E label i
  | .cancel i =>
      some (s.setPod i { s.pods i with ctxDone := true })
  | .publish k depths => s.stepRoutine k (some depths)
  | .finish k => s.stepRoutine k none
  | .die i =>
      some
        ({ s with
            routines :=
              s.routines.filter (fun g => g.pod ≠ i) }.setPod
          i
          { s.pods i with phase := .dead, gauge := [] })

end Cluster

/- Pods that have just started. -/
def cluster
    {σ : Type}
    (E : Election σ) :
    Machine (Cluster σ) (Label σ) where
  init := fun s =>
    s.routines = [] ∧
      ∀ i, (s.pods i).phase = .standby ∧ (s.pods i).gauge = []
  step := Cluster.step E

------------------------------------------------------------
-- The Invariant
------------------------------------------------------------

structure Ordered
    {σ : Type}
    (E : Election σ)
    (s : Cluster σ) :
    Prop where
  sessions :
    ∀ i sess, (s.pods i).phase.session? = some sess →
      sess < s.next
  own :
    ∀ i j sess, (s.pods i).phase.session? = some sess →
      (s.pods j).phase.session? = some sess → i = j
  won :
    ∀ i sess cancelled,
      (s.pods i).phase = .leading sess cancelled →
        E.won s.etcd sess = true
  routines :
    ∀ g ∈ s.routines, ∃ cancelled,
      (s.pods g.pod).phase = .leading g.sess cancelled
  once : (s.routines.map (fun g => (g.pod, g.name))).Nodup
  gauges :
    ∀ i, (s.pods i).gauge ≠ [] →
      ∃ g ∈ s.routines, g.pod = i ∧
        g.name = .queueDepthExporter

section

variable {σ : Type}
variable {E : Election σ}
variable {s s' : Cluster σ}
variable {i sess : Nat}
variable {phase : Phase}
variable {label : Label σ}

theorem session?_of_leading
    {cancelled : Bool}
    (hLeading : phase = .leading sess cancelled) :
    phase.session? = some sess := by
  rw [hLeading]
  rfl

theorem Cluster.setPod_self
    (p : Pod) :
    (s.setPod i p).pods i = p :=
  Function.update_self _ _ _

theorem Cluster.setPod_of_ne
    {j : Nat}
    (hOther : j ≠ i)
    (p : Pod) :
    (s.setPod i p).pods j = s.pods j :=
  Function.update_of_ne hOther _ _

/- What is seen of the pods when one is given a new phase. -/
theorem Cluster.phase_setPod
    (p : Pod)
    (j : Nat) :
    ((s.setPod i p).pods j).phase =
      if j = i then p.phase else (s.pods j).phase := by
  by_cases hSame : j = i
  · subst hSame
    rw [Cluster.setPod_self, if_pos rfl]
  · rw [Cluster.setPod_of_ne hSame, if_neg hSame]

/- A pod that does not lead has no goroutines. -/
theorem Ordered.no_routine
    (hInv : Ordered E s)
    (hPhase :
      ∀ sess cancelled,
        (s.pods i).phase ≠ .leading sess cancelled) :
    ∀ g ∈ s.routines, g.pod ≠ i := by
  intro g hg hPod
  rcases hInv.routines g hg with ⟨cancelled, hLeading⟩
  rw [hPod] at hLeading
  exact hPhase g.sess cancelled hLeading

/- A pod has a session that no other pod has. -/
theorem Ordered.replacePod
    (hInv : Ordered E s)
    {p : Pod}
    (hSession :
      ∀ sess, p.phase.session? = some sess →
        sess < s.next ∧
          ∀ j, (s.pods j).phase.session? = some sess →
            j = i)
    (hWon :
      ∀ sess cancelled, p.phase = .leading sess cancelled →
        E.won s.etcd sess = true)
    (hRoutines :
      ∀ g ∈ s.routines, g.pod = i →
        ∃ cancelled, p.phase = .leading g.sess cancelled)
    (hGauge :
      p.gauge ≠ [] →
        ∃ g ∈ s.routines, g.pod = i ∧
          g.name = .queueDepthExporter) :
    Ordered E (s.setPod i p) := by
  refine ⟨?_, ?_, ?_, ?_, hInv.once, ?_⟩
  · intro j sess hNew
    rw [Cluster.phase_setPod] at hNew
    split at hNew
    · exact (hSession sess hNew).1
    · exact hInv.sessions j sess hNew
  · intro j k sess hJ hK
    rw [Cluster.phase_setPod] at hJ hK
    split at hJ
    · rename_i hOwnJ
      split at hK
      · rename_i hOwnK
        exact hOwnJ.trans hOwnK.symm
      · exact hOwnJ.trans ((hSession sess hJ).2 k hK).symm
    · split at hK
      · rename_i hOwnK
        exact ((hSession sess hK).2 j hJ).trans hOwnK.symm
      · exact hInv.own j k sess hJ hK
  · intro j sess cancelled hLeading
    rw [Cluster.phase_setPod] at hLeading
    split at hLeading
    · exact hWon sess cancelled hLeading
    · exact hInv.won j sess cancelled hLeading
  · intro g hg
    rw [Cluster.phase_setPod]
    split
    · rename_i hSame
      exact hRoutines g hg hSame
    · exact hInv.routines g hg
  · intro j hSome
    by_cases hSame : j = i
    · subst hSame
      rw [Cluster.setPod_self] at hSome
      exact hGauge hSome
    · rw [Cluster.setPod_of_ne hSame] at hSome
      exact hInv.gauges j hSome

/- A pod goes on with its session, or without one. -/
theorem Ordered.setPod
    (hInv : Ordered E s)
    {p : Pod}
    (hSession :
      ∀ sess, p.phase.session? = some sess →
        (s.pods i).phase.session? = some sess)
    (hWon :
      ∀ sess cancelled, p.phase = .leading sess cancelled →
        E.won s.etcd sess = true)
    (hRoutines :
      ∀ g ∈ s.routines, g.pod = i →
        ∃ cancelled, p.phase = .leading g.sess cancelled)
    (hGauge :
      p.gauge ≠ [] →
        ∃ g ∈ s.routines, g.pod = i ∧
          g.name = .queueDepthExporter) :
    Ordered E (s.setPod i p) := by
  refine hInv.replacePod ?_ hWon hRoutines hGauge
  intro sess hNew
  have hOld := hSession sess hNew
  exact ⟨hInv.sessions i sess hOld,
    fun j hOther => hInv.own j i sess hOther hOld⟩

/- A pod stays in its phase. -/
theorem Ordered.keepPhase
    (hInv : Ordered E s)
    {p : Pod}
    (hPhase : p.phase = (s.pods i).phase)
    (hGauge :
      p.gauge ≠ [] →
        ∃ g ∈ s.routines, g.pod = i ∧
          g.name = .queueDepthExporter) :
    Ordered E (s.setPod i p) := by
  refine hInv.setPod ?_ ?_ ?_ hGauge
  · intro sess hSession
    rw [← hPhase]
    exact hSession
  · intro sess cancelled hLeading
    exact hInv.won i sess cancelled
      (hPhase.symm.trans hLeading)
  · intro g hg hPod
    rcases hInv.routines g hg with ⟨cancelled, hOwn⟩
    rw [hPod] at hOwn
    exact ⟨cancelled, hPhase.trans hOwn⟩

/- A pod without goroutines has an empty gauge. -/
theorem Ordered.gauge_of_no_routine
    (hInv : Ordered E s)
    (hNone : ∀ g ∈ s.routines, g.pod ≠ i) :
    (s.pods i).gauge = [] := by
  by_contra hSome
  rcases hInv.gauges i hSome with ⟨g, hg, hPod, _⟩
  exact hNone g hg hPod

/- A pod that does not lead moves on and does not lead. -/
theorem Ordered.movePod
    (hInv : Ordered E s)
    (hNone : ∀ g ∈ s.routines, g.pod ≠ i)
    (hSession :
      ∀ sess, phase.session? = some sess →
        (s.pods i).phase.session? = some sess)
    (hStays :
      ∀ sess cancelled, phase ≠ .leading sess cancelled) :
    Ordered E (s.movePod i phase) := by
  refine hInv.setPod hSession ?_ ?_ ?_
  · intro sess cancelled hLeading
    exact absurd hLeading (hStays sess cancelled)
  · intro g hg hPod
    exact absurd hPod (hNone g hg)
  · intro hSome
    exact absurd (hInv.gauge_of_no_routine hNone) hSome

/- A pod that has not led ends its session. -/
theorem Ordered.leave
    (hInv : Ordered E s)
    (hNot :
      ∀ sess cancelled,
        (s.pods i).phase ≠ .leading sess cancelled)
    (hNone : phase.session? = none) :
    Ordered E (s.movePod i phase) := by
  refine hInv.movePod (hInv.no_routine hNot) ?_ ?_
  · intro sess hSome
    rw [hNone] at hSome
    cases hSome
  · intro sess cancelled hLeading
    rw [hLeading] at hNone
    cases hNone

/- The election goes on. -/
theorem Ordered.etcd
    (hInv : Ordered E s)
    (hLasting : E.Lasting)
    {state : σ}
    (hNext : E.next s.etcd state = true) :
    Ordered E { s with etcd := state } :=
  { hInv with
    won := fun i sess cancelled hLeading =>
      hLasting _ _ sess hNext
        (hInv.won i sess cancelled hLeading) }

/- A candidate opens a session that no one has. -/
theorem Ordered.campaign
    (hInv : Ordered E s)
    (hStandby : (s.pods i).phase = .standby) :
    Ordered E
      ({ s with next := s.next + 1 }.movePod i
        (.campaigning s.next)) := by
  have hNone : ∀ g ∈ s.routines, g.pod ≠ i :=
    hInv.no_routine (by simp [hStandby])
  have hMore : Ordered E { s with next := s.next + 1 } :=
    { hInv with
      sessions := fun j sess hOld =>
        Nat.lt_succ_of_lt (hInv.sessions j sess hOld) }
  refine hMore.replacePod ?_ ?_ ?_ ?_
  · intro sess hNew
    cases hNew
    refine ⟨Nat.lt_succ_self _, fun j hOld => ?_⟩
    exact absurd (hInv.sessions j s.next hOld)
      (Nat.lt_irrefl _)
  · intro sess cancelled hLeading
    cases hLeading
  · intro g hg hPod
    exact absurd hPod (hNone g hg)
  · intro hSome
    exact absurd (hInv.gauge_of_no_routine hNone) hSome

/- The winner starts each of its loops once. -/
theorem Ordered.win
    (hInv : Ordered E s)
    (hCampaigning : (s.pods i).phase = .campaigning sess)
    (hWon : E.won s.etcd sess = true) :
    Ordered E
      ({ s with
          routines :=
            loops.map (Routine.mk i sess) ++
              s.routines }.movePod i
        (.leading sess false)) := by
  have hNone : ∀ g ∈ s.routines, g.pod ≠ i :=
    hInv.no_routine (by simp [hCampaigning])
  have hGauge := hInv.gauge_of_no_routine hNone
  have hLed :
      Ordered E (s.movePod i (.leading sess false)) := by
    refine hInv.setPod ?_ ?_ ?_ ?_
    · intro sess' hSession
      rw [hCampaigning]
      exact hSession
    · intro sess' cancelled hLeading
      cases hLeading
      exact hWon
    · intro g hg hPod
      exact absurd hPod (hNone g hg)
    · intro hSome
      exact absurd hGauge hSome
  refine ⟨hLed.sessions, hLed.own, hLed.won, ?_, ?_, ?_⟩
  · intro g hg
    rcases List.mem_append.mp hg with hNew | hOld
    · rcases List.mem_map.mp hNew with ⟨name, _, rfl⟩
      refine ⟨false, ?_⟩
      unfold Cluster.movePod
      rw [Cluster.phase_setPod, if_pos rfl]
      rfl
    · exact hLed.routines g hOld
  · change
      ((loops.map (Routine.mk i sess) ++ s.routines).map
        (fun g => (g.pod, g.name))).Nodup
    rw [List.map_append, List.nodup_append]
    refine ⟨?_, hInv.once, ?_⟩
    · rw [List.map_map]
      refine List.Nodup.map ?_ (by decide)
      intro a b hSame
      exact (Prod.mk.inj hSame).2
    · intro a hNew b hOld hSame
      subst hSame
      rcases List.mem_map.mp hNew with ⟨g, hg, rfl⟩
      rcases List.mem_map.mp hg with ⟨name, _, rfl⟩
      rcases List.mem_map.mp hOld with ⟨g, hg, hPair⟩
      exact hNone g hg (Prod.mk.inj hPair).1
  · intro j hSome
    rcases hLed.gauges j hSome with ⟨g, hg, hExports⟩
    exact ⟨g, List.mem_append_right _ hg, hExports⟩

/- The context of a term ends. -/
theorem Ordered.lose
    (hInv : Ordered E s)
    {cancelled : Bool}
    (hLeading : (s.pods i).phase = .leading sess cancelled) :
    Ordered E (s.movePod i (.leading sess true)) := by
  refine hInv.setPod ?_ ?_ ?_ ?_
  · intro sess' hSession
    rw [hLeading]
    exact hSession
  · intro sess' cancelled' hSame
    cases hSame
    exact hInv.won i sess cancelled hLeading
  · intro g hg hPod
    rcases hInv.routines g hg with ⟨cancelled', hOwn⟩
    rw [hPod, hLeading] at hOwn
    cases hOwn
    exact ⟨true, rfl⟩
  · exact hInv.gauges i

/- All goroutines of a term have returned. -/
theorem Ordered.waited
    (hInv : Ordered E s)
    {cancelled : Bool}
    (hLeading : (s.pods i).phase = .leading sess cancelled)
    (hDone :
      ∀ g ∈ s.routines, g.pod ≠ i ∨ g.sess ≠ sess) :
    Ordered E (s.movePod i (.resigning sess)) := by
  have hNone : ∀ g ∈ s.routines, g.pod ≠ i := by
    intro g hg hPod
    rcases hInv.routines g hg with ⟨cancelled', hOwn⟩
    rw [hPod, hLeading] at hOwn
    cases hOwn
    rcases hDone g hg with hNot | hNot
    · exact hNot hPod
    · exact hNot rfl
  refine hInv.movePod hNone ?_ (by simp)
  intro sess' hSession
  rw [hLeading]
  exact hSession

/- Some goroutines return. -/
theorem Ordered.withRoutines
    (hInv : Ordered E s)
    {left : List Routine}
    (hLeft : left.Sublist s.routines)
    (hGauges :
      ∀ i, (s.pods i).gauge ≠ [] →
        ∃ g ∈ left, g.pod = i ∧
          g.name = .queueDepthExporter) :
    Ordered E { s with routines := left } :=
  { hInv with
    routines := fun g hg =>
      hInv.routines g (hLeft.subset hg)
    once := (hLeft.map _).nodup hInv.once
    gauges := hGauges }

/- A gauge is reset. -/
theorem Ordered.reset
    (hInv : Ordered E s)
    (i : Nat) :
    Ordered E (s.setPod i { s.pods i with gauge := [] }) :=
  hInv.keepPhase rfl (fun hSome => absurd rfl hSome)

/- A goroutine returns; an exporter resets its gauge. -/
theorem Ordered.finish
    (hInv : Ordered E s)
    {l₁ l₂ : List Routine}
    {g : Routine}
    (hSplit : s.routines = l₁ ++ g :: l₂) :
    Ordered E
      ({ s with routines := l₁ ++ l₂ }.finished g) := by
  have hLeft : (l₁ ++ l₂).Sublist s.routines := by
    rw [hSplit]
    exact List.Sublist.append_left
      (List.sublist_cons_self g l₂) l₁
  -- Another goroutine exports the gauges that are left.
  have hOthers :
      ∀ j g', g' ∈ s.routines → g'.pod = j →
        g'.name = .queueDepthExporter →
          (g.name = .queueDepthExporter → j ≠ g.pod) →
            g' ∈ l₁ ++ l₂ := by
    intro j g' hg' hPod hName hOther
    rw [hSplit] at hg'
    rcases mem_split_iff.mp hg' with hSame | hThere
    · subst hSame
      exact absurd hPod.symm (hOther hName)
    · exact hThere
  unfold Cluster.finished
  split
  · refine (hInv.reset g.pod).withRoutines hLeft ?_
    intro j hSome
    have hOther : j ≠ g.pod := by
      intro hSame
      subst hSame
      rw [Cluster.setPod_self] at hSome
      exact hSome rfl
    rw [Cluster.setPod_of_ne hOther] at hSome
    rcases hInv.gauges j hSome with ⟨g', hg', hPod, hName⟩
    exact ⟨g', hOthers j g' hg' hPod hName (fun _ => hOther),
      hPod, hName⟩
  · rename_i hNot
    refine hInv.withRoutines hLeft ?_
    intro j hSome
    rcases hInv.gauges j hSome with ⟨g', hg', hPod, hName⟩
    exact ⟨g',
      hOthers j g' hg' hPod hName (fun hIs => absurd hIs hNot),
      hPod, hName⟩

/- A process dies, and its lease stays until it ends. -/
theorem Ordered.die
    (hInv : Ordered E s)
    (i : Nat) :
    Ordered E
      ({ s with
          routines :=
            s.routines.filter (fun g => g.pod ≠ i) }.setPod i
        { s.pods i with phase := .dead, gauge := [] }) := by
  have hReset := hInv.reset i
  have hOthers :
      Ordered E
        { s.setPod i { s.pods i with gauge := [] } with
          routines :=
            s.routines.filter (fun g => g.pod ≠ i) } := by
    refine hReset.withRoutines List.filter_sublist ?_
    intro j hSome
    have hOther : j ≠ i := by
      intro hSame
      subst hSame
      rw [Cluster.setPod_self] at hSome
      exact hSome rfl
    rcases hReset.gauges j hSome with ⟨g, hg, hPod, hName⟩
    refine ⟨g, List.mem_filter.mpr ⟨hg, ?_⟩, hPod, hName⟩
    rw [hPod]
    exact decide_eq_true hOther
  have hDead : Ordered E (Cluster.movePod _ i .dead) :=
    hOthers.movePod
      (fun g hg =>
        of_decide_eq_true (List.mem_filter.mp hg).2)
      (by simp [Phase.session?]) (by simp)
  simp only [Cluster.movePod, Cluster.setPod,
    Function.update_idem, Function.update_self,
    Pod.moveTo] at hDead
  exact hDead

theorem Ordered.stepPod
    (hInv : Ordered E s)
    (hStep : s.stepPod E label i = some s') :
    Ordered E s' := by
  unfold Cluster.stepPod at hStep
  split at hStep
  case h_1 hStandby =>
    split at hStep
    · cases hStep
    · cases hStep
      exact hInv.campaign hStandby
  case h_2 hStandby =>
    cases hStep
    exact hInv.leave (by simp [hStandby]) rfl
  case h_3 sess hCampaigning =>
    cases hStep
    exact hInv.leave (by simp [hCampaigning]) rfl
  case h_4 sess hCampaigning =>
    split at hStep
    · rename_i hWon
      cases hStep
      exact hInv.win hCampaigning hWon
    · cases hStep
  case h_5 sess cancelled hLeading =>
    cases hStep
    exact hInv.lose hLeading
  case h_6 sess cancelled hLeading =>
    split at hStep
    · rename_i hDone
      cases hStep
      refine hInv.waited hLeading ?_
      intro g hg
      have hOne := List.all_eq_true.mp hDone g hg
      simpa using hOne
    · cases hStep
  case h_7 sess hResigning =>
    cases hStep
    exact hInv.leave (by simp [hResigning]) rfl
  case h_8 hStandby =>
    split at hStep
    · cases hStep
      exact hInv.leave (by simp [hStandby]) rfl
    · cases hStep
  case h_9 => cases hStep

theorem Ordered.stepRoutine
    (hInv : Ordered E s)
    {k : Nat}
    {depths : Option (List (Lane × Nat))}
    (hStep : s.stepRoutine k depths = some s') :
    Ordered E s' := by
  unfold Cluster.stepRoutine at hStep
  split at hStep
  · cases hStep
  · rename_i g hGet
    rcases exists_split_of_getElem? hGet with
      ⟨l₁, l₂, hSplit, rfl, hErase, -⟩
    split at hStep
    · split at hStep
      · rename_i depths hExports
        cases hStep
        exact hInv.keepPhase rfl
          (fun _ =>
            ⟨g, self_mem_of_split hSplit, rfl, hExports⟩)
      · cases hStep
    · split at hStep
      · cases hStep
        rw [hErase]
        exact hInv.finish hSplit
      · cases hStep

theorem Ordered.step
    (hInv : Ordered E s)
    (hLasting : E.Lasting)
    (hStep : s.step E label = some s') :
    Ordered E s' := by
  cases label with
  | etcd state =>
      simp only [Cluster.step] at hStep
      split at hStep
      · rename_i hNext
        cases hStep
        exact hInv.etcd hLasting hNext
      · cases hStep
  | campaign i => exact hInv.stepPod hStep
  | campaignFails i => exact hInv.stepPod hStep
  | win i => exact hInv.stepPod hStep
  | lose i => exact hInv.stepPod hStep
  | waited i => exact hInv.stepPod hStep
  | resign i => exact hInv.stepPod hStep
  | stop i => exact hInv.stepPod hStep
  | cancel i =>
      cases hStep
      exact hInv.keepPhase rfl (hInv.gauges i)
  | publish k depths =>
      have hRoutine :
          s.stepRoutine k (some depths) = some s' := hStep
      exact hInv.stepRoutine hRoutine
  | finish k =>
      have hRoutine : s.stepRoutine k none = some s' := hStep
      exact hInv.stepRoutine hRoutine
  | die i =>
      cases hStep
      exact hInv.die i

theorem ordered_of_reachable
    (hLasting : E.Lasting)
    (hReach : (cluster E).Reachable s) :
    Ordered E s := by
  refine Machine.ReachableWith.invariant ?_ ?_ hReach
  · rintro s ⟨hRoutines, hPods⟩
    have hNone :
        ∀ i sess, (s.pods i).phase.session? ≠ some sess := by
      intro i sess hSome
      rw [(hPods i).1] at hSome
      cases hSome
    refine ⟨?_, ?_, ?_, ?_, ?_, ?_⟩
    · intro i sess hSome
      exact absurd hSome (hNone i sess)
    · intro i j sess hSome _
      exact absurd hSome (hNone i sess)
    · intro i sess cancelled hLeading
      exact absurd (session?_of_leading hLeading)
        (hNone i sess)
    · intro g hg
      rw [hRoutines] at hg
      cases hg
    · rw [hRoutines]
      exact List.nodup_nil
    · intro i hSome
      exact absurd (hPods i).2 hSome
  · intro s label s' _ hInv _ hStep
    exact hInv.step hLasting hStep

/-
  If the election is exclusive, of the pods that lead at one
  time one at most has a live lease. Every loop that runs is
  one of a pod's present term, and none runs twice in a pod;
  only pods that lead expose queue depths, and as long as all
  of them hold their leases, only one pod does.
-/
theorem one_lease_holder_leads
    (hExclusive : E.Exclusive)
    (hLasting : E.Lasting)
    (hReach : (cluster E).Reachable s) :
    (∀ i j a b c c',
        (s.pods i).phase = .leading a c →
          (s.pods j).phase = .leading b c' →
            E.live s.etcd a = true → E.live s.etcd b = true →
              i = j) ∧
      (∀ g ∈ s.routines, ∃ c,
        (s.pods g.pod).phase = .leading g.sess c) ∧
      (s.routines.map (fun g => (g.pod, g.name))).Nodup ∧
      (∀ i, (s.pods i).gauge ≠ [] →
        ∃ a c, (s.pods i).phase = .leading a c) ∧
      ((∀ i a c, (s.pods i).phase = .leading a c →
          E.live s.etcd a = true) →
        ∀ i j, (s.pods i).gauge ≠ [] →
          (s.pods j).gauge ≠ [] → i = j) := by
  have hInv := ordered_of_reachable hLasting hReach
  have hLeaders :
      ∀ i j a b c c',
        (s.pods i).phase = .leading a c →
          (s.pods j).phase = .leading b c' →
            E.live s.etcd a = true → E.live s.etcd b = true →
              i = j := by
    intro i j a b c c' hI hJ hLive hLive'
    have hSame : a = b :=
      hExclusive s.etcd a b (hInv.won i a c hI)
        (hInv.won j b c' hJ) hLive hLive'
    subst hSame
    exact hInv.own i j a (session?_of_leading hI)
      (session?_of_leading hJ)
  have hExposes :
      ∀ i, (s.pods i).gauge ≠ [] →
        ∃ a c, (s.pods i).phase = .leading a c := by
    intro i hSome
    rcases hInv.gauges i hSome with ⟨g, hg, rfl, _⟩
    exact ⟨g.sess, hInv.routines g hg⟩
  refine
    ⟨hLeaders, hInv.routines, hInv.once, hExposes, ?_⟩
  intro hHeld i j hI hJ
  rcases hExposes i hI with ⟨a, c, hLead⟩
  rcases hExposes j hJ with ⟨b, c', hLead'⟩
  exact hLeaders i j a b c c' hLead hLead'
    (hHeld i a c hLead) (hHeld j b c' hLead')

end

namespace Sample

/- The state is the last session that has won. -/
def election : Election Nat where
  next last last' := last ≤ last'
  live last sess := last ≤ sess
  won last sess := sess ≤ last

theorem exclusive_election : election.Exclusive := by
  intro last a b hA hB hLiveA hLiveB
  simp only [election, decide_eq_true_eq]
    at hA hB hLiveA hLiveB
  omega

theorem lasting_election : election.Lasting := by
  intro last last' a hNext hWon
  simp only [election, decide_eq_true_eq] at hNext hWon ⊢
  omega

def start : Cluster Nat where
  etcd := 0
  next := 1
  pods := fun _ => ⟨.standby, false, []⟩
  routines := []

theorem init_start : (cluster election).init start :=
  ⟨rfl, fun _ => ⟨rfl, rfl⟩⟩

/- A leader is cut off, and another pod takes over. -/
def labels : List (Label Nat) :=
  [.campaign 0, .campaign 1, .etcd 1, .win 0,
    .publish 7 [(⟨.high, 1⟩, 3)], .etcd 2, .win 1,
    .publish 7 [(⟨.high, 1⟩, 2)]]

end Sample

/- Two pods lead and publish; the first has lost its lease. -/
theorem one_lease_holder_of_two_leaders :
    ∃ s, (cluster Sample.election).Reachable s ∧
      (s.pods 0).phase = .leading 1 false ∧
      (s.pods 1).phase = .leading 2 false ∧
      Sample.election.live s.etcd 2 = true ∧
      (s.pods 0).gauge ≠ [] ∧ (s.pods 1).gauge ≠ [] ∧
      Sample.election.live s.etcd 1 = false := by
  rcases
    Machine.exists_reachable_of_run Sample.init_start
      Sample.labels
      (fun s =>
        (s.pods 0).phase = .leading 1 false ∧
          (s.pods 1).phase = .leading 2 false ∧
          Sample.election.live s.etcd 2 = true ∧
          (s.pods 0).gauge ≠ [] ∧
          (s.pods 1).gauge ≠ [])
      (by decide +kernel)
  with ⟨s, hReach, hFirst, hSecond, hLive, hGauge, hGauge'⟩
  have hLeaders :=
    (one_lease_holder_leads Sample.exclusive_election
      Sample.lasting_election hReach).1 0 1 1 2 false false
      hFirst hSecond
  refine ⟨s, hReach, hFirst, hSecond, hLive, hGauge,
    hGauge', ?_⟩
  rw [← Bool.not_eq_true]
  intro hStill
  exact absurd (hLeaders hStill hLive) (by decide)

end Leadership

end Scheduler

end Sluice
