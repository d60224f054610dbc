import Mathlib.Algebra.BigOperators.Group.Finset.Basic
import Mathlib.Algebra.Order.BigOperators.Group.Finset
import Mathlib.Tactic.Linarith
import Sluice.Foundations.Machine
import Sluice.Foundations.Pool
import Sluice.Queue.Redis

/-
  How `Pop` sleeps and is woken.

  A popper runs the script over its lanes; when they are all
  empty it blocks on the wake list until an enqueue drops a
  token there, or until its time is over, and looks again.
  Tokens name no job, are taken by any popper, and no more
  than a thousand are kept.

  Key definitions include:
    * `Phase` and `Popper`
    * `Popper.step`
    * `Hall` and `hall`
    * `waiting` and `Balanced`
    * `attentive`, `patient` and `steady`
    * `Timely`

  Key theorems include:
    * `Popper.moves_of_step`
    * `attentive_of_reachable`
    * `no_wakeup_is_lost`
    * `Timely.step`
    * `exists_tick`
    * `pops_end_in_time`
-/

------------------------------------------------------------
-- Poppers
------------------------------------------------------------

namespace Sluice

namespace Queue

namespace Waking

open Foundations

/-
  Where a call of `Pop` is:
    * there is none;
    * without tenants, it waits for its time to be over;
    * it is about to run the script, since some time;
    * it blocks on the wake list, up to some time.
-/
inductive Phase
| idle
| pausing (deadline : Time)
| looking (keys : List Lane) (deadline since : Time)
| asleep (keys : List Lane) (deadline limit : Time)

structure Popper where
  workerId : String
  phase : Phase

/- Redis blocks for whole seconds, and at least for one. -/
def blockFor (remaining : Time) : Time :=
  max remaining second / second * second

inductive Act
| start (order : List Uuid) (timeout : Time)
| look
| woken
| expired
| fail

namespace Popper

def moveTo (p : Popper) (phase : Phase) : Popper :=
  { p with phase := phase }

/-
  The next step of `Pop`. A failure is an error of Redis or
  the end of the context; the worker may also have died.
-/
def step
    (act : Act)
    (clock : Time)
    (r : Redis)
    (p : Popper) :
    Option (Redis × Popper) :=
  match act, p.phase with
  | .start order timeout, .idle =>
      if order = [] then
        some (r, p.moveTo (.pausing (clock + timeout)))
      else
        some
          (r,
            p.moveTo
              (.looking (Redis.popKeys order)
                (clock + timeout) clock))
  | .look, .looking keys deadline _ =>
      match r.popScript p.workerId keys with
      | some (_, r') => some (r', p.moveTo .idle)
      | none =>
          if deadline ≤ clock then some (r, p.moveTo .idle)
          else
            some
              (r,
                p.moveTo
                  (.asleep keys deadline
                    (clock + blockFor (deadline - clock))))
  | .woken, .asleep keys deadline _ =>
      if 0 < r.wake then
        some
          (r.wait, p.moveTo (.looking keys deadline clock))
      else none
  | .expired, .asleep keys deadline limit =>
      if limit ≤ clock then
        some (r, p.moveTo (.looking keys deadline clock))
      else none
  | .expired, .pausing deadline =>
      if deadline ≤ clock then some (r, p.moveTo .idle)
      else none
  | .fail, .idle => none
  | .fail, _ => some (r, p.moveTo .idle)
  | _, _ => none

def isLooking (p : Popper) : Bool :=
  match p.phase with
  | .looking _ _ _ => true
  | _ => false

def isAsleep (p : Popper) : Bool :=
  match p.phase with
  | .asleep _ _ _ => true
  | _ => false

/- The time by which a popper takes its next step. -/
def due? (delay : Time) (p : Popper) : Option Time :=
  match p.phase with
  | .idle => none
  | .pausing deadline => some deadline
  | .looking _ _ since => some (since + delay)
  | .asleep _ _ limit => some limit

end Popper

------------------------------------------------------------
-- All Poppers
------------------------------------------------------------

structure Hall where
  redis : Redis
  clock : Time
  poppers : List Popper

/-
  A push is an `Enqueue`, a `Requeue` or one entry of an
  `EnqueueMany`.
-/
inductive Label
| push (lane : Lane) (jobId : Uuid)
| expire (jobId : Uuid)
| popper (i : Nat) (act : Act)
| tick (n : Nat)

/- The script takes at most the given time. -/
def Hall.step
    (delay : Time)
    (label : Label)
    (s : Hall) :
    Option Hall :=
  match label with
  | .push lane jobId =>
      some
        { s with redis := s.redis.enqueueScript lane jobId }
  | .expire jobId =>
      some { s with redis := s.redis.dropMarker jobId }
  | .popper i act =>
      match s.poppers[i]? with
      | none => none
      | some p =>
          (p.step act s.clock s.redis).map
            (fun (r, p') =>
              { s with
                redis := r
                poppers := s.poppers.set i p' })
  | .tick n =>
      if
        s.poppers.all
          (fun p =>
            (p.due? delay).all
              (fun t => s.clock + n ≤ t)) = true
      then some { s with clock := s.clock + n }
      else none

/- Idle poppers and empty queues. -/
def hall (delay : Time) : Machine Hall Label where
  init := fun s =>
    s.redis = Redis.empty ∧
      ∀ p ∈ s.poppers, p.phase = .idle
  step := Hall.step delay

------------------------------------------------------------
-- Moves
------------------------------------------------------------

/- What one step of a popper does. -/
inductive Popper.Moves
    (clock : Time)
    (r : Redis)
    (p : Popper) :
    Act → Redis → Popper → Prop
| pause (timeout : Time) :
    p.phase = .idle →
      Moves clock r p (.start [] timeout) r
        (p.moveTo (.pausing (clock + timeout)))
| start (order : List Uuid) (timeout : Time) :
    p.phase = .idle →
      order ≠ [] →
        Moves clock r p (.start order timeout) r
          (p.moveTo
            (.looking (Redis.popKeys order)
              (clock + timeout) clock))
| took (keys : List Lane) (deadline since : Time)
    (item : Item) :
    p.phase = .looking keys deadline since →
      item.list ∈ keys →
        item.jobId ∈ r.lanes item.list →
          Moves clock r p .look
            (r.deliver item p.workerId) (p.moveTo .idle)
| gaveUp (keys : List Lane) (deadline since : Time) :
    p.phase = .looking keys deadline since →
      (∀ lane ∈ keys, r.lanes lane = []) →
        deadline ≤ clock →
          Moves clock r p .look r (p.moveTo .idle)
| slept (keys : List Lane) (deadline since : Time) :
    p.phase = .looking keys deadline since →
      (∀ lane ∈ keys, r.lanes lane = []) →
        clock < deadline →
          Moves clock r p .look r
            (p.moveTo
              (.asleep keys deadline
                (clock + blockFor (deadline - clock))))
| woken (keys : List Lane) (deadline limit : Time) :
    p.phase = .asleep keys deadline limit →
      0 < r.wake →
        Moves clock r p .woken r.wait
          (p.moveTo (.looking keys deadline clock))
| expired (keys : List Lane) (deadline limit : Time) :
    p.phase = .asleep keys deadline limit →
      limit ≤ clock →
        Moves clock r p .expired r
          (p.moveTo (.looking keys deadline clock))
| paused (deadline : Time) :
    p.phase = .pausing deadline →
      Moves clock r p .expired r (p.moveTo .idle)
| failed :
    p.phase ≠ .idle →
      Moves clock r p .fail r (p.moveTo .idle)

/- The script finds nothing only in empty lanes. -/
theorem lanes_of_popScript_none
    {workerId : String}
    {r : Redis}
    {keys : List Lane}
    (hNone : r.popScript workerId keys = none) :
    ∀ lane ∈ keys, r.lanes lane = [] := by
  induction keys with
  | nil =>
      intro lane hLane
      cases hLane
  | cons key keys ih =>
      simp only [Redis.popScript] at hNone
      split at hNone
      · rename_i hEmpty
        intro lane hLane
        rcases List.mem_cons.mp hLane with hHere | hLater
        · rw [hHere]
          exact List.getLast?_eq_none_iff.mp hEmpty
        · exact ih hNone lane hLater
      · cases hNone

theorem Popper.moves_of_step
    {act : Act}
    {clock : Time}
    {r r' : Redis}
    {p p' : Popper}
    (hStep : p.step act clock r = some (r', p')) :
    p.Moves clock r act r' p' := by
  unfold Popper.step at hStep
  split at hStep
  case h_1 order timeout hPhase =>
    split at hStep
    · rename_i hOrder
      cases hStep
      rw [hOrder]
      exact .pause timeout hPhase
    · rename_i hOrder
      cases hStep
      exact .start order timeout hPhase hOrder
  case h_2 keys deadline since hPhase =>
    split at hStep
    · rename_i item r'' hPop
      cases hStep
      rcases Redis.popScript_eq_some hPop with
        ⟨hKey, hJob, rfl⟩
      exact .took keys deadline since item hPhase hKey hJob
    · rename_i hNone
      have hEmpty := lanes_of_popScript_none hNone
      split at hStep
      · rename_i hLate
        cases hStep
        exact .gaveUp keys deadline since hPhase hEmpty hLate
      · rename_i hEarly
        cases hStep
        exact .slept keys deadline since hPhase hEmpty
          (not_le.mp hEarly)
  case h_3 keys deadline limit hPhase =>
    split at hStep
    · rename_i hToken
      cases hStep
      exact .woken keys deadline limit hPhase hToken
    · cases hStep
  case h_4 keys deadline limit hPhase =>
    split at hStep
    · rename_i hLate
      cases hStep
      exact .expired keys deadline limit hPhase hLate
    · cases hStep
  case h_5 deadline hPhase =>
    split at hStep
    · cases hStep
      exact .paused deadline hPhase
    · cases hStep
  case h_6 => cases hStep
  case h_7 hPhase =>
    cases hStep
    exact .failed hPhase
  case h_8 => cases hStep

/- What one step does, with the popper singled out. -/
inductive Hall.Effect (delay : Time) :
    Label → Hall → Hall → Prop
| push {s : Hall} (lane : Lane) (jobId : Uuid) :
    Effect delay (.push lane jobId) s
      { s with redis := s.redis.enqueueScript lane jobId }
| expire {s : Hall} (jobId : Uuid) :
    Effect delay (.expire jobId) s
      { s with redis := s.redis.dropMarker jobId }
| popper {s : Hall} {l₁ p l₂ act r p'}
    (hSplit : s.poppers = l₁ ++ p :: l₂)
    (hMoves : p.Moves s.clock s.redis act r p') :
    Effect delay (.popper l₁.length act) s
      { s with
        redis := r
        poppers := l₁ ++ p' :: l₂ }
| tick {s : Hall} (n : Nat)
    (hDue :
      ∀ p ∈ s.poppers, ∀ t : Time,
        p.due? delay = some t → s.clock + n ≤ t) :
    Effect delay (.tick n) s
      { s with clock := s.clock + n }

theorem Hall.effect_of_step
    {delay : Time}
    {label : Label}
    {s s' : Hall}
    (hStep : s.step delay label = some s') :
    Hall.Effect delay label s s' := by
  cases label with
  | push lane jobId =>
      cases hStep
      exact .push lane jobId
  | expire jobId =>
      cases hStep
      exact .expire jobId
  | popper i act =>
      simp only [Hall.step] at hStep
      split at hStep
      · cases hStep
      · rename_i p hGet
        rcases exists_split_of_getElem? hGet with
          ⟨l₁, l₂, hSplit, rfl, -, hSet⟩
        rcases Option.map_eq_some_iff.mp hStep with
          ⟨⟨r, p'⟩, hPopper, rfl⟩
        rw [hSet]
        exact .popper hSplit (Popper.moves_of_step hPopper)
  | tick n =>
      simp only [Hall.step] at hStep
      split at hStep
      · rename_i hAll
        cases hStep
        refine .tick n ?_
        intro p hp t hDue
        have hOne := List.all_eq_true.mp hAll p hp
        rw [hDue] at hOne
        exact of_decide_eq_true hOne
      · cases hStep

------------------------------------------------------------
-- Jobs Against Tokens
------------------------------------------------------------

/- The entries of some lanes. -/
def waiting (served : Finset Lane) (r : Redis) : Nat :=
  ∑ lane ∈ served, (r.lanes lane).length

/-
  Each waiting job has a token or a popper that is about to
  look; or else each sleeper has a token.
-/
def Balanced
    (served : Finset Lane)
    (r : Redis)
    (lookers sleepers : Nat) :
    Prop :=
  waiting served r ≤ r.wake + lookers ∨ sleepers ≤ r.wake

section

variable {served : Finset Lane}
variable {r : Redis}

/- Replacing one lane changes the number by that lane. -/
theorem waiting_update
    {lane : Lane}
    (hServed : lane ∈ served)
    (entries : List Uuid)
    (r' : Redis)
    (hLanes :
      r'.lanes = Function.update r.lanes lane entries) :
    waiting served r' + (r.lanes lane).length =
      waiting served r + entries.length := by
  unfold waiting
  rw [← Finset.add_sum_erase served _ hServed,
    ← Finset.add_sum_erase served
      (fun lane => (r.lanes lane).length) hServed]
  have hOthers :
      ∑ other ∈ served.erase lane, (r'.lanes other).length =
        ∑ other ∈ served.erase lane,
          (r.lanes other).length := by
    refine Finset.sum_congr rfl ?_
    intro other hOther
    rw [hLanes,
      Function.update_of_ne (Finset.ne_of_mem_erase hOther)]
  rw [hOthers, hLanes, Function.update_self]
  omega

theorem waiting_eq_zero
    (hEmpty : ∀ lane ∈ served, r.lanes lane = []) :
    waiting served r = 0 := by
  refine Finset.sum_eq_zero ?_
  intro lane hLane
  rw [hEmpty lane hLane]
  rfl

theorem waiting_pos
    {lane : Lane}
    (hServed : lane ∈ served)
    (hWaits : r.lanes lane ≠ []) :
    0 < waiting served r :=
  Finset.sum_pos'
    (fun _ _ => Nat.zero_le _)
    ⟨lane, hServed, List.length_pos_iff.mpr hWaits⟩

/- A push brings a token, or there are a thousand of them. -/
theorem Balanced.push
    {lane : Lane}
    {jobId : Uuid}
    {lookers sleepers : Nat}
    (hServed : lane ∈ served)
    (hFew : sleepers ≤ 1000)
    (hBalanced : Balanced served r lookers sleepers) :
    Balanced served (r.enqueueScript lane jobId) lookers
      sleepers := by
  unfold Redis.enqueueScript
  split
  · exact hBalanced
  · have hWaiting :=
      waiting_update (r := r) hServed
        (jobId :: r.lanes lane)
        { r with
          lanes :=
            Function.update r.lanes lane
              (jobId :: r.lanes lane)
          marked := Function.update r.marked jobId true
          wake := min (r.wake + 1) 1000 }
        rfl
    rw [List.length_cons] at hWaiting
    unfold Balanced at hBalanced ⊢
    simp only
    omega

/- A job that is taken has its looker leave. -/
theorem Balanced.deliver
    {item : Item}
    {workerId : String}
    {lookers sleepers : Nat}
    (hServed : item.list ∈ served)
    (hJob : item.jobId ∈ r.lanes item.list)
    (hBalanced : Balanced served r (lookers + 1) sleepers) :
    Balanced served (r.deliver item workerId) lookers
      sleepers := by
  have hWaiting :=
    waiting_update (r := r) hServed
      (r.lanes item.list).dropLast
      (r.deliver item workerId) rfl
  have hSome : 0 < (r.lanes item.list).length :=
    List.length_pos_of_mem hJob
  rw [List.length_dropLast] at hWaiting
  have hWake : (r.deliver item workerId).wake = r.wake := rfl
  unfold Balanced at hBalanced ⊢
  rw [hWake]
  omega

end

/- How many poppers look and how many sleep. -/
def lookers (poppers : List Popper) : Nat :=
  poppers.countP Popper.isLooking

def sleepers (poppers : List Popper) : Nat :=
  poppers.countP Popper.isAsleep

/-
  Jobs are pushed to served lanes, every popper looks at all
  of them, and none fails.
-/
def attentive
    (served : Finset Lane)
    (_ : Hall) :
    Label → Bool
| .push lane _ => lane ∈ served
| .popper _ (.start order _) =>
    order = [] ∨ ∀ lane ∈ served, lane.tenantId ∈ order
| .popper _ .fail => false
| _ => true

------------------------------------------------------------
-- No Wake-Up Is Lost
------------------------------------------------------------

/- A popper in the middle of `Pop` has all served lanes. -/
def Popper.Serves
    (served : Finset Lane)
    (p : Popper) :
    Prop :=
  match p.phase with
  | .looking keys _ _ => ∀ lane ∈ served, lane ∈ keys
  | .asleep keys _ _ => ∀ lane ∈ served, lane ∈ keys
  | _ => True

structure Attentive
    (served : Finset Lane)
    (s : Hall) : Prop where
  serves : ∀ p ∈ s.poppers, p.Serves served
  lanes : ∀ lane, s.redis.lanes lane ≠ [] → lane ∈ served
  balanced :
    s.poppers.length ≤ 1000 →
      Balanced served s.redis (lookers s.poppers)
        (sleepers s.poppers)

section

variable {served : Finset Lane}
variable {delay : Time}
variable {s s' : Hall}
variable {clock : Time}
variable {r r' : Redis}
variable {p p' : Popper}
variable {act : Act}

/- A popper goes on serving the lanes it began with. -/
theorem Popper.Moves.serves
    (hMoves : p.Moves clock r act r' p')
    (hStart :
      ∀ order timeout, act = .start order timeout →
        order = [] ∨
          ∀ lane ∈ served, lane.tenantId ∈ order)
    (hServes : p.Serves served) :
    p'.Serves served := by
  unfold Popper.Serves at hServes
  cases hMoves with
  | pause | took | gaveUp | paused | failed => trivial
  | start order timeout _ hSome =>
      intro lane hLane
      have hOrder :=
        (hStart order timeout rfl).resolve_left hSome
      exact Redis.mem_popKeys_iff.mpr (hOrder lane hLane)
  | slept keys deadline since hPhase _ _ =>
      rw [hPhase] at hServes
      exact hServes
  | woken keys deadline limit hPhase _ =>
      rw [hPhase] at hServes
      exact hServes
  | expired keys deadline limit hPhase _ =>
      rw [hPhase] at hServes
      exact hServes

/- A popper fills no lane. -/
theorem Popper.Moves.lanes
    (hMoves : p.Moves clock r act r' p')
    {lane : Lane}
    (hSome : r'.lanes lane ≠ []) :
    r.lanes lane ≠ [] := by
  cases hMoves with
  | took keys deadline since item _ _ _ =>
      rcases List.exists_mem_of_ne_nil _ hSome with
        ⟨jobId, hJob⟩
      exact List.ne_nil_of_mem (Redis.mem_lanes_deliver hJob)
  | pause | start | gaveUp | slept | woken | expired
  | paused | failed =>
      exact hSome

/-
  A popper that leaves takes a job with it or found none; one
  that wakes up takes a token and looks.
-/
theorem Popper.Moves.balanced
    (hMoves : p.Moves clock r act r' p')
    (hServes : p.Serves served)
    (hLanes : ∀ lane, r.lanes lane ≠ [] → lane ∈ served)
    (hSafe : act ≠ .fail)
    {others sleeping : Nat}
    (hBalanced :
      Balanced served r (others + p.isLooking.toNat)
        (sleeping + p.isAsleep.toNat)) :
    Balanced served r' (others + p'.isLooking.toNat)
      (sleeping + p'.isAsleep.toNat) := by
  -- Lanes found empty by a popper leave nothing to balance.
  have hNothing :
      ∀ {keys : List Lane} {deadline since : Time}
        {lookers sleepers : Nat},
        p.phase = .looking keys deadline since →
          (∀ lane ∈ keys, r.lanes lane = []) →
            Balanced served r lookers sleepers := by
    intro keys deadline since lookers sleepers hPhase hEmpty
    unfold Popper.Serves at hServes
    rw [hPhase] at hServes
    left
    rw [waiting_eq_zero
      (fun lane hLane => hEmpty lane (hServes lane hLane))]
    exact Nat.zero_le _
  cases hMoves with
  | pause _ hPhase | paused _ hPhase =>
      simpa [Popper.isLooking, Popper.isAsleep, hPhase,
        Popper.moveTo] using hBalanced
  | start _ _ hPhase _ | expired _ _ _ hPhase _ =>
      simp only [Popper.isLooking, Popper.isAsleep, hPhase,
        Popper.moveTo, Balanced, Bool.toNat_true,
        Bool.toNat_false] at hBalanced ⊢
      omega
  | took keys deadline since item hPhase _ hJob =>
      have hServed : item.list ∈ served :=
        hLanes item.list (List.ne_nil_of_mem hJob)
      simp only [Popper.isLooking, Popper.isAsleep, hPhase,
        Bool.toNat_true] at hBalanced
      exact hBalanced.deliver hServed hJob
  | gaveUp _ _ _ hPhase hEmpty _
  | slept _ _ _ hPhase hEmpty _ =>
      exact hNothing hPhase hEmpty
  | woken keys deadline limit hPhase hToken =>
      have hSame : waiting served r.wait = waiting served r :=
        rfl
      have hWake : r.wait.wake = r.wake - 1 := rfl
      simp only [Popper.isLooking, Popper.isAsleep, hPhase,
        Popper.moveTo, Balanced, Bool.toNat_true,
        Bool.toNat_false, hSame, hWake] at hBalanced ⊢
      omega
  | failed => exact absurd rfl hSafe

theorem lookers_split
    (l₁ l₂ : List Popper)
    (p : Popper) :
    lookers (l₁ ++ p :: l₂) =
      lookers (l₁ ++ l₂) + p.isLooking.toNat := by
  simp only [lookers, List.countP_append, List.countP_cons]
  cases p.isLooking with
  | false => simp
  | true =>
      simp only [if_true, Bool.toNat_true]
      omega

theorem sleepers_split
    (l₁ l₂ : List Popper)
    (p : Popper) :
    sleepers (l₁ ++ p :: l₂) =
      sleepers (l₁ ++ l₂) + p.isAsleep.toNat := by
  simp only [sleepers, List.countP_append, List.countP_cons]
  cases p.isAsleep with
  | false => simp
  | true =>
      simp only [if_true, Bool.toNat_true]
      omega

theorem Attentive.step
    (hInv : Attentive served s)
    {label : Label}
    (hOk : attentive served s label = true)
    (hStep : s.step delay label = some s') :
    Attentive served s' := by
  cases Hall.effect_of_step hStep with
  | push lane jobId =>
      have hServed : lane ∈ served := of_decide_eq_true hOk
      refine ⟨hInv.serves, ?_, ?_⟩
      · intro lane' hSome
        rcases List.exists_mem_of_ne_nil _ hSome with
          ⟨jobId', hJob⟩
        rcases Redis.mem_lanes_enqueueScript_iff.mp hJob with
          hOld | ⟨_, _, rfl⟩
        · exact hInv.lanes lane' (List.ne_nil_of_mem hOld)
        · exact hServed
      · intro hFew
        refine (hInv.balanced hFew).push hServed ?_
        exact List.countP_le_length.trans hFew
  | expire jobId =>
      exact ⟨hInv.serves, hInv.lanes, hInv.balanced⟩
  | @popper _ l₁ p l₂ act r p' hSplit hMoves =>
      have hServes : p.Serves served :=
        hInv.serves p (self_mem_of_split hSplit)
      have hStart :
          ∀ order timeout, act = .start order timeout →
            order = [] ∨
              ∀ lane ∈ served, lane.tenantId ∈ order := by
        intro order timeout hAct
        subst hAct
        exact of_decide_eq_true hOk
      have hSafe : act ≠ .fail := by
        intro hAct
        subst hAct
        cases hOk
      refine ⟨?_, ?_, ?_⟩
      · intro q hq
        rcases mem_split_iff.mp hq with hMoved | hOther
        · subst hMoved
          exact hMoves.serves hStart hServes
        · exact hInv.serves q (mem_of_split hSplit hOther)
      · intro lane hSome
        exact hInv.lanes lane (hMoves.lanes hSome)
      · intro hFew
        have hLength :
            (l₁ ++ p :: l₂).length =
              (l₁ ++ p' :: l₂).length := by
          simp
        have hBefore := hInv.balanced
        rw [hSplit, hLength] at hBefore
        have hBalanced := hBefore hFew
        simp only [lookers_split, sleepers_split]
          at hBalanced ⊢
        exact hMoves.balanced hServes hInv.lanes hSafe
          hBalanced
  | tick n _ =>
      exact ⟨hInv.serves, hInv.lanes, hInv.balanced⟩

theorem attentive_of_reachable
    (hReach :
      (hall delay).ReachableWith
        (fun s label => attentive served s label = true) s) :
    Attentive served s := by
  refine Machine.ReachableWith.invariant ?_ ?_ hReach
  · rintro s ⟨hRedis, hIdle⟩
    refine ⟨?_, ?_, ?_⟩
    · intro p hp
      unfold Popper.Serves
      rw [hIdle p hp]
      trivial
    · intro lane hSome
      rw [hRedis] at hSome
      exact absurd rfl hSome
    · intro _
      left
      rw [hRedis, waiting_eq_zero (fun _ _ => rfl)]
      exact Nat.zero_le _
  · intro s label s' _ hInv hOk hStep
    exact hInv.step hOk hStep

/-
  While a job waits, a sleeping popper either finds a token
  and wakes up, or another popper is about to look; and that
  for each of the waiting jobs and each of the sleepers.
-/
theorem no_wakeup_is_lost
    (hReach :
      (hall delay).ReachableWith
        (fun s label => attentive served s label = true) s)
    (hFew : s.poppers.length ≤ 1000)
    {lane : Lane}
    (hWaits : s.redis.lanes lane ≠ [])
    (hAsleep : ∃ p ∈ s.poppers, p.isAsleep = true) :
    (0 < s.redis.wake ∨
        ∃ p ∈ s.poppers, p.isLooking = true) ∧
      min (waiting served s.redis) (sleepers s.poppers) ≤
        s.redis.wake + lookers s.poppers := by
  have hInv := attentive_of_reachable hReach
  have hBalanced := hInv.balanced hFew
  have hJobs : 0 < waiting served s.redis :=
    waiting_pos (hInv.lanes lane hWaits) hWaits
  have hSleepers : 0 < sleepers s.poppers :=
    List.countP_pos_iff.mpr hAsleep
  have hEnough :
      min (waiting served s.redis) (sleepers s.poppers) ≤
        s.redis.wake + lookers s.poppers := by
    unfold Balanced at hBalanced
    omega
  refine ⟨?_, hEnough⟩
  by_cases hToken : 0 < s.redis.wake
  · exact .inl hToken
  · have hLookers : 0 < lookers s.poppers := by omega
    exact .inr (List.countP_pos_iff.mp hLookers)

end

namespace Sample

def lane : Lane := ⟨.normal, 1⟩

/- Two idle poppers. -/
def start : Hall where
  redis := Redis.empty
  clock := 0
  poppers := [⟨"a", .idle⟩, ⟨"b", .idle⟩]

theorem init_start
    (delay : Time) :
    (hall delay).init start := by
  refine ⟨rfl, ?_⟩
  simp [start]

/- Two poppers fall asleep, and a job wakes one of them. -/
def labels : List Label :=
  [.popper 0 (.start [1] second), .popper 0 .look,
    .popper 1 (.start [1] second), .popper 1 .look,
    .tick 300000, .push lane 7, .popper 1 .woken,
    .push lane 8]

end Sample

/- Two jobs wait, for a sleeper and for one just woken. -/
theorem no_wakeup_is_lost_for_two :
    ∃ s, (hall second).ReachableWith
        (fun s label =>
          attentive {Sample.lane} s label = true) s ∧
      s.redis.lanes Sample.lane = [8, 7] ∧
      (∃ p ∈ s.poppers, p.isAsleep = true) ∧
      (0 < s.redis.wake ∨
          ∃ p ∈ s.poppers, p.isLooking = true) ∧
        min (waiting {Sample.lane} s.redis)
            (sleepers s.poppers) ≤
          s.redis.wake + lookers s.poppers := by
  rcases
    Machine.exists_reachableWith_of_run
      (Sample.init_start second)
      (attentive {Sample.lane}) Sample.labels
      (fun s =>
        s.poppers.length = 2 ∧
          s.redis.lanes Sample.lane = [8, 7] ∧
            ∃ p ∈ s.poppers, p.isAsleep = true)
      (by decide +kernel)
  with ⟨s, hReach, hLength, hLane, hAsleep⟩
  have hWaits : s.redis.lanes Sample.lane ≠ [] := by
    rw [hLane]
    exact List.cons_ne_nil _ _
  exact ⟨s, hReach, hLane, hAsleep,
    no_wakeup_is_lost hReach (by omega) hWaits hAsleep⟩

------------------------------------------------------------
-- Sleepers Look Again
------------------------------------------------------------

/- No timeout is negative. -/
def patient (_ : Hall) : Label → Bool
| .popper _ (.start _ timeout) => decide (0 ≤ timeout)
| _ => true

/- What a popper in the middle of `Pop` keeps to. -/
def Popper.Timely
    (delay clock : Time)
    (p : Popper) :
    Prop :=
  match p.phase with
  | .idle => True
  | .pausing deadline => clock ≤ deadline
  | .looking _ deadline since =>
      since < deadline + second ∧ since ≤ clock ∧
        clock ≤ since + delay
  | .asleep _ deadline limit =>
      limit < deadline + second ∧ clock ≤ limit ∧
        limit ≤ max deadline (clock + second)

section

variable {delay clock : Time}
variable {s s' : Hall}
variable {r r' : Redis}
variable {p p' : Popper}
variable {act : Act}

theorem second_pos : 0 < second := by
  decide

theorem blockFor_le
    (remaining : Time) :
    blockFor remaining ≤ max remaining second :=
  Int.ediv_mul_le _ second_pos.ne'

theorem second_le_blockFor
    (remaining : Time) :
    second ≤ blockFor remaining := by
  have hOne : 1 ≤ max remaining second / second :=
    (Int.le_ediv_iff_mul_le second_pos).mpr
      ((one_mul second).le.trans (le_max_right _ _))
  calc
    second = 1 * second := (one_mul _).symm
    _ ≤ blockFor remaining :=
      mul_le_mul_of_nonneg_right hOne second_pos.le

/- A short rest is rounded up to a second. -/
theorem blockFor_lt
    {remaining : Time}
    (hSome : 0 < remaining) :
    blockFor remaining < remaining + second := by
  have hSecond := second_pos
  refine lt_of_le_of_lt (blockFor_le remaining) ?_
  exact max_lt (by linarith) (by linarith)

/- No step of a popper leaves it less time than it has. -/
theorem Popper.Moves.timely
    (hMoves : p.Moves clock r act r' p')
    (hDelay : 0 ≤ delay)
    (hStart :
      ∀ order timeout, act = .start order timeout →
        0 ≤ timeout)
    (hTimely : p.Timely delay clock) :
    p'.Timely delay clock := by
  have hSecond := second_pos
  unfold Popper.Timely at hTimely
  cases hMoves with
  | took | gaveUp | paused | failed => trivial
  | pause timeout _ =>
      have hTimeout := hStart [] timeout rfl
      change clock ≤ clock + timeout
      linarith
  | start order timeout _ _ =>
      have hTimeout := hStart order timeout rfl
      exact ⟨by linarith, le_rfl, by linarith⟩
  | slept keys deadline since hPhase _ hEarly =>
      have hLeft : 0 < deadline - clock := by linarith
      have hShort := blockFor_lt hLeft
      have hLong := second_le_blockFor (deadline - clock)
      have hBlock := blockFor_le (deadline - clock)
      refine ⟨by linarith, by linarith, ?_⟩
      rcases le_max_iff.mp hBlock with hRest | hRest
      · exact le_max_of_le_left (by linarith)
      · exact le_max_of_le_right (by linarith)
  | woken keys deadline limit hPhase _ =>
      rw [hPhase] at hTimely
      rcases hTimely with ⟨hLimit, hNow, _⟩
      exact ⟨by linarith, le_rfl, by linarith⟩
  | expired keys deadline limit hPhase _ =>
      rw [hPhase] at hTimely
      rcases hTimely with ⟨hLimit, hNow, _⟩
      exact ⟨by linarith, le_rfl, by linarith⟩

/- Time does not pass a popper's next step. -/
theorem Popper.Timely.later
    {n : Nat}
    (hDue :
      ∀ t : Time, p.due? delay = some t → clock + n ≤ t)
    (hTimely : p.Timely delay clock) :
    p.Timely delay (clock + n) := by
  have hLater : clock ≤ clock + n := by
    have hNonneg : (0 : Int) ≤ n := Int.natCast_nonneg n
    linarith
  unfold Popper.Timely at hTimely ⊢
  unfold Popper.due? at hDue
  cases hPhase : p.phase with
  | idle => trivial
  | pausing deadline =>
      rw [hPhase] at hDue
      exact hDue _ rfl
  | looking keys deadline since =>
      rw [hPhase] at hTimely hDue
      rcases hTimely with ⟨hSince, hPast, _⟩
      exact ⟨hSince, by linarith, hDue _ rfl⟩
  | asleep keys deadline limit =>
      rw [hPhase] at hTimely hDue
      rcases hTimely with ⟨hLimit, _, hBlock⟩
      refine ⟨hLimit, hDue _ rfl, hBlock.trans ?_⟩
      exact max_le_max_left _ (by linarith)

/- Everyone in the hall. -/
def Timely (delay : Time) (s : Hall) : Prop :=
  ∀ p ∈ s.poppers, p.Timely delay s.clock

theorem Timely.step
    {label : Label}
    (hTimely : Timely delay s)
    (hDelay : 0 ≤ delay)
    (hOk : patient s label = true)
    (hStep : s.step delay label = some s') :
    Timely delay s' := by
  cases Hall.effect_of_step hStep with
  | push lane jobId => exact hTimely
  | expire jobId => exact hTimely
  | @popper _ l₁ p l₂ act r p' hSplit hMoves =>
      have hStart :
          ∀ order timeout, act = .start order timeout →
            0 ≤ timeout := by
        intro order timeout hAct
        subst hAct
        exact of_decide_eq_true hOk
      intro q hq
      rcases mem_split_iff.mp hq with hMoved | hOther
      · subst hMoved
        exact hMoves.timely hDelay hStart
          (hTimely p (self_mem_of_split hSplit))
      · exact hTimely q (mem_of_split hSplit hOther)
  | tick n hDue =>
      intro p hp
      exact (hTimely p hp).later (hDue p hp)

theorem timely_of_reachable
    (hDelay : 0 ≤ delay)
    (hReach :
      (hall delay).ReachableWith
        (fun s label => patient s label = true) s) :
    Timely delay s := by
  refine Machine.ReachableWith.invariant
    (I := Timely delay) ?_ ?_ hReach
  · rintro s ⟨_, hIdle⟩ p hp
    unfold Popper.Timely
    rw [hIdle p hp]
    trivial
  · intro s label s' _ hTimely hOk hStep
    exact hTimely.step hDelay hOk hStep

------------------------------------------------------------
-- Time Passes
------------------------------------------------------------

/- Steps other than failures and what comes from outside. -/
def steady : Label → Prop
| .popper _ .look => True
| .popper _ .woken => True
| .popper _ .expired => True
| .tick _ => True
| _ => False

def Popper.isDue
    (delay clock : Time)
    (p : Popper) :
    Bool :=
  (p.due? delay).any (fun t => decide (t ≤ clock))

/- A popper that is due has a step after which it is not. -/
theorem Popper.exists_step_of_isDue
    (hDelay : 0 < delay)
    (r : Redis)
    (hDue : p.isDue delay clock = true) :
    ∃ act r' p',
      (∀ i, steady (.popper i act)) ∧
        p.step act clock r = some (r', p') ∧
          p'.isDue delay clock = false := by
  rcases (Option.any_eq_true _ _).mp hDue with
    ⟨t, hTime, hLate⟩
  have hLate : t ≤ clock := of_decide_eq_true hLate
  unfold Popper.due? at hTime
  cases hPhase : p.phase with
  | idle =>
      rw [hPhase] at hTime
      cases hTime
  | pausing deadline =>
      rw [hPhase] at hTime
      cases hTime
      exact ⟨.expired, r, p.moveTo .idle, fun _ => trivial,
        by simp [Popper.step, hPhase, hLate], rfl⟩
  | looking keys deadline since =>
      refine ⟨.look, ?_⟩
      unfold Popper.step
      rw [hPhase]
      dsimp only
      split
      · exact ⟨_, _, fun _ => trivial, rfl, rfl⟩
      · split
        · exact ⟨_, _, fun _ => trivial, rfl, rfl⟩
        · refine ⟨_, _, fun _ => trivial, rfl, ?_⟩
          have hSecond := second_pos
          have hLong := second_le_blockFor (deadline - clock)
          apply decide_eq_false
          linarith
  | asleep keys deadline limit =>
      rw [hPhase] at hTime
      cases hTime
      refine ⟨.expired, r,
        p.moveTo (.looking keys deadline clock),
        fun _ => trivial,
        by simp [Popper.step, hPhase, hLate], ?_⟩
      apply decide_eq_false
      linarith

/- One of the poppers that are due steps out of the way. -/
theorem leads_to_fewer_due
    {s : Hall}
    (hDelay : 0 < delay)
    (hPopper : p ∈ s.poppers)
    (hDue : p.isDue delay s.clock = true) :
    ∃ s', (hall delay).Leads steady s s' ∧
      s'.clock = s.clock ∧
        s'.poppers.countP (Popper.isDue delay s'.clock) <
          s.poppers.countP (Popper.isDue delay s.clock) := by
  rcases List.append_of_mem hPopper with ⟨l₁, l₂, hSplit⟩
  rcases p.exists_step_of_isDue hDelay s.redis hDue with
    ⟨act, r', p', hSteady, hStep, hNot⟩
  have hMove :
      (hall delay).step (.popper l₁.length act) s =
        some
          { s with
            redis := r'
            poppers := l₁ ++ p' :: l₂ } := by
    simp [hall, Hall.step, hSplit, hStep]
  refine ⟨_, .of_step (hSteady _) hMove, rfl, ?_⟩
  rw [hSplit]
  simp [List.countP_append, hDue, hNot]

/- If none is due, the clock goes on. -/
theorem leads_to_tick
    {s : Hall}
    (hNone :
      ∀ p ∈ s.poppers, ¬p.isDue delay s.clock = true) :
    (hall delay).Leads steady s
      { s with clock := s.clock + 1 } := by
  have hFree :
      s.poppers.all
          (fun p =>
            (p.due? delay).all
              (fun t => s.clock + (1 : Nat) ≤ t)) =
        true := by
    apply List.all_eq_true.mpr
    intro p hp
    apply Option.all_eq_true_iff_get _ _ |>.mpr
    intro hDue
    apply decide_eq_true
    by_contra hLate
    apply hNone p hp
    refine (Option.any_eq_true _ _).mpr
      ⟨_, Option.some_get hDue |>.symm, ?_⟩
    exact decide_eq_true
      (Int.lt_add_one_iff.mp (not_le.mp hLate))
  have hTick :
      (hall delay).step (.tick 1) s =
        some { s with clock := s.clock + 1 } := by
    simp only [hall, Hall.step]
    rw [if_pos hFree]
    rfl
  exact .of_step (by trivial) hTick

/- By induction on the number of poppers that are due. -/
theorem exists_tick
    (hDelay : 0 < delay)
    (s : Hall) :
    ∃ s', (hall delay).Leads steady s s' ∧
      s'.clock = s.clock + 1 := by
  induction hCount :
      s.poppers.countP (Popper.isDue delay s.clock)
    using Nat.strong_induction_on generalizing s with
  | _ n ih =>
    by_cases hSome :
        ∃ p ∈ s.poppers, p.isDue delay s.clock = true
    · rcases hSome with ⟨p, hp, hDue⟩
      rcases leads_to_fewer_due hDelay hp hDue with
        ⟨s₁, hFirst, hSame, hFewer⟩
      rw [hCount] at hFewer
      rcases ih _ hFewer s₁ rfl with ⟨s', hRest, hClock⟩
      rw [hSame] at hClock
      exact ⟨s', hFirst.trans hRest, hClock⟩
    · have hNone :
          ∀ p ∈ s.poppers, ¬p.isDue delay s.clock = true :=
        fun p hp hDue => hSome ⟨p, hp, hDue⟩
      exact ⟨_, leads_to_tick hNone, rfl⟩

/- Time passes as far as one likes. -/
theorem exists_later
    (hDelay : 0 < delay)
    (s : Hall)
    (n : Nat) :
    ∃ s', (hall delay).Leads steady s s' ∧
      s'.clock = s.clock + n := by
  induction n with
  | zero => exact ⟨s, .refl s, (add_zero _).symm⟩
  | succ n ih =>
      rcases ih with ⟨mid, hFirst, hMid⟩
      rcases exists_tick hDelay mid with ⟨s', hThen, hEnd⟩
      refine ⟨s', hFirst.trans hThen, ?_⟩
      rw [hEnd, hMid, Nat.cast_succ]
      exact add_assoc _ _ _

/- When the call of a popper is over. -/
def Popper.deadline? (p : Popper) : Option Time :=
  match p.phase with
  | .idle => none
  | .pausing deadline => some deadline
  | .looking _ deadline _ => some deadline
  | .asleep _ deadline _ => some deadline

/- Every call is over by some time. -/
def Until (last : Time) (s : Hall) : Prop :=
  ∀ p ∈ s.poppers, ∀ t, p.deadline? = some t → t ≤ last

/- No popper starts anew, and none gets a later deadline. -/
theorem Until.step
    {last : Time}
    {label : Label}
    (hUntil : Until last s)
    (hSteady : steady label)
    (hStep : s.step delay label = some s') :
    Until last s' := by
  cases Hall.effect_of_step hStep with
  | push | expire => exact hUntil
  | tick n hDue => exact hUntil
  | @popper _ l₁ p l₂ act r p' hSplit hMoves =>
      intro q hq
      rcases mem_split_iff.mp hq with hMoved | hOther
      · subst hMoved
        have hOld := hUntil p (self_mem_of_split hSplit)
        unfold Popper.deadline? at hOld ⊢
        cases hMoves with
        | pause | start => cases hSteady
        | took | gaveUp | paused | failed =>
            intro t hTime
            cases hTime
        | slept keys deadline since hPhase =>
            rw [hPhase] at hOld
            exact hOld
        | woken keys deadline limit hPhase =>
            rw [hPhase] at hOld
            exact hOld
        | expired keys deadline limit hPhase =>
            rw [hPhase] at hOld
            exact hOld
      · exact hUntil q (mem_of_split hSplit hOther)

theorem exists_until (poppers : List Popper) :
    ∃ last : Time, ∀ p ∈ poppers, ∀ t,
      p.deadline? = some t → t ≤ last := by
  induction poppers with
  | nil => exact ⟨0, fun _ hp => nomatch hp⟩
  | cons p poppers ih =>
      rcases ih with ⟨last, hLast⟩
      refine ⟨max last (p.deadline?.getD 0), ?_⟩
      intro q hq t hTime
      rcases List.mem_cons.mp hq with rfl | hOther
      · rw [hTime]
        exact le_max_right _ _
      · exact (hLast q hOther t hTime).trans
          (le_max_left _ _)

/- Later than everyone's deadline, all have returned. -/
theorem Timely.idle_of_late
    {last : Time}
    (hTimely : Timely delay s)
    (hDelay : 0 ≤ delay)
    (hUntil : Until last s)
    (hLate : last + second + delay ≤ s.clock)
    (hPopper : p ∈ s.poppers) :
    p.phase = .idle := by
  have hSecond := second_pos
  have hOwn := hTimely p hPopper
  have hLast := hUntil p hPopper
  unfold Popper.Timely at hOwn
  unfold Popper.deadline? at hLast
  cases hPhase : p.phase with
  | idle => rfl
  | pausing deadline =>
      rw [hPhase] at hOwn hLast
      have hBefore := hLast _ rfl
      have hNow : s.clock ≤ deadline := hOwn
      linarith
  | looking keys deadline since =>
      rw [hPhase] at hOwn hLast
      rcases hOwn with ⟨hSince, _, hNow⟩
      have hBefore := hLast _ rfl
      linarith
  | asleep keys deadline limit =>
      rw [hPhase] at hOwn hLast
      rcases hOwn with ⟨hLimit, hNow, _⟩
      have hBefore := hLast _ rfl
      linarith

/- Without a failure, every call comes to its end. -/
theorem Timely.leads_to_idle
    (hTimely : Timely delay s)
    (hDelay : 0 < delay) :
    ∃ s', (hall delay).Leads steady s s' ∧
      ∀ p ∈ s'.poppers, p.phase = .idle := by
  rcases exists_until s.poppers with ⟨last, hUntil⟩
  rcases exists_later hDelay s
      (last + second + delay - s.clock).toNat with
    ⟨s', hLeads, hClock⟩
  have hKept :
      Timely delay s' ∧ Until last s' := by
    refine hLeads.invariant
      (I := fun s => Timely delay s ∧ Until last s) ?_
      ⟨hTimely, hUntil⟩
    rintro s label s' ⟨hTimely, hUntil⟩ hSteady hStep
    have hPatient : patient s label = true := by
      unfold patient
      split
      · cases hSteady
      · rfl
    exact
      ⟨hTimely.step hDelay.le hPatient hStep,
        hUntil.step hSteady hStep⟩
  have hLate : last + second + delay ≤ s'.clock := by
    have hEnough :=
      Int.self_le_toNat
        (last + second + delay - s.clock)
    rw [hClock]
    linarith
  exact ⟨s', hLeads, fun p hp =>
    hKept.1.idle_of_late hDelay.le hKept.2 hLate hp⟩

/-
  What a popper can do by itself: asleep at its limit it can
  look, and looking it can always look; late, it returns.
-/
structure Popper.Goes
    (clock : Time)
    (r : Redis)
    (p : Popper) :
    Prop where
  wakes :
    ∀ keys deadline limit,
      p.phase = .asleep keys deadline limit →
        limit ≤ clock →
          p.step .expired clock r =
            some (r, p.moveTo (.looking keys deadline clock))
  looks :
    ∀ keys deadline since,
      p.phase = .looking keys deadline since →
        ∃ r' p', p.step .look clock r = some (r', p') ∧
          (deadline ≤ clock → p'.phase = .idle)

theorem Popper.goes
    (clock : Time)
    (r : Redis)
    (p : Popper) :
    p.Goes clock r := by
  constructor
  · intro keys deadline limit hPhase hLate
    simp [Popper.step, hPhase, hLate]
  · intro keys deadline since hPhase
    unfold Popper.step
    rw [hPhase]
    dsimp only
    split
    · exact ⟨_, _, rfl, fun _ => rfl⟩
    · split
      · exact ⟨_, _, rfl, fun _ => rfl⟩
      · rename_i hEarly
        exact ⟨_, _, rfl, fun hLate => absurd hLate hEarly⟩

/-
  Whatever becomes of the tokens: a popper that sleeps looks
  again by its deadline, or within a second; no call lasts
  longer than its deadline by more than a second and the time
  of one script; a popper is never stuck; and without any
  failure all calls come to their end.
-/
theorem pops_end_in_time
    (hDelay : 0 < delay)
    (hReach :
      (hall delay).ReachableWith
        (fun s label => patient s label = true) s) :
    (∀ p ∈ s.poppers,
      (∀ keys deadline limit,
        p.phase = .asleep keys deadline limit →
          s.clock ≤ limit ∧
            limit ≤ max deadline (s.clock + second) ∧
              s.clock < deadline + second) ∧
      (∀ keys deadline since,
        p.phase = .looking keys deadline since →
          s.clock ≤ since + delay ∧
            s.clock < deadline + second + delay) ∧
      (∀ deadline, p.phase = .pausing deadline →
        s.clock ≤ deadline) ∧
      p.Goes s.clock s.redis) ∧
      ∃ s', (hall delay).Leads steady s s' ∧
        ∀ p ∈ s'.poppers, p.phase = .idle := by
  have hTimely := timely_of_reachable hDelay.le hReach
  refine ⟨?_, hTimely.leads_to_idle hDelay⟩
  intro p hPopper
  have hOwn := hTimely p hPopper
  unfold Popper.Timely at hOwn
  refine ⟨?_, ?_, ?_, p.goes s.clock s.redis⟩
  · intro keys deadline limit hPhase
    rw [hPhase] at hOwn
    rcases hOwn with ⟨hLimit, hNow, hBlock⟩
    exact ⟨hNow, hBlock, by linarith⟩
  · intro keys deadline since hPhase
    rw [hPhase] at hOwn
    rcases hOwn with ⟨hSince, _, hNow⟩
    exact ⟨hNow, by linarith⟩
  · intro deadline hPhase
    rw [hPhase] at hOwn
    exact hOwn

end

namespace Sample

/-
  The token of a job goes to a popper of another tenant, and
  the popper that serves the lane sleeps on.
-/
def strayLabels : List Label :=
  [.popper 0 (.start [2] second), .popper 0 .look,
    .popper 1 (.start [1] second), .popper 1 .look,
    .tick 300000, .push lane 7, .popper 0 .woken,
    .popper 0 .look, .tick 600000]

end Sample

theorem sleeper_looks_again_after_stray_token :
    ∃ s p keys deadline limit,
      (hall second).ReachableWith
          (fun s label => patient s label = true) s ∧
        p ∈ s.poppers ∧
        p.phase = .asleep keys deadline limit ∧
        Sample.lane ∈ keys ∧
        s.redis.lanes Sample.lane = [7] ∧
        s.redis.wake = 0 ∧
        (s.clock ≤ limit ∧
          limit ≤ max deadline (s.clock + second) ∧
          s.clock < deadline + second) ∧
        ∃ s', (hall second).Leads steady s s' ∧
          ∀ p ∈ s'.poppers, p.phase = .idle := by
  rcases
    Machine.exists_reachableWith_of_run
      (Sample.init_start second)
      patient Sample.strayLabels
      (fun s =>
        s.redis.lanes Sample.lane = [7] ∧
          s.redis.wake = 0 ∧
          s.poppers.any
            (fun p =>
              match p.phase with
              | .asleep keys _ _ =>
                  Sample.lane ∈ keys
              | _ => false) = true)
      (by decide +kernel)
  with ⟨s, hReach, hLane, hWake, hAny⟩
  rcases List.any_eq_true.mp hAny with ⟨p, hp, hAsleep⟩
  split at hAsleep
  case h_2 => cases hAsleep
  rename_i keys deadline limit hPhase
  rcases pops_end_in_time second_pos hReach with
    ⟨hEach, hIdle⟩
  exact ⟨s, p, keys, deadline, limit, hReach, hp, hPhase,
    of_decide_eq_true hAsleep, hLane, hWake,
    (hEach p hp).1 keys deadline limit hPhase, hIdle⟩

end Waking

end Queue

end Sluice
