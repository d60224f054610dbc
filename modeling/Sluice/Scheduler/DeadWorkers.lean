import Sluice.Foundations.Custody
import Sluice.Foundations.Machine
import Sluice.Queue.Scripts
import Sluice.Storage.Sessions

/-
  Recovery of the jobs that dead workers have popped.

  Any number of schedulers run `recoverDeadWorkerJobs` at the
  same time as workers pop and finish jobs. A call asks Redis
  one command at a time: a scan for processing lists, whether
  a worker is alive, and the transaction that reads a list
  and deletes it. Any of them may fail, before Redis runs it
  or after, and then the call goes on with the jobs it has
  collected. What `SCAN` returns is left open.

  Entries are numbered, so that two entries of one job can be
  told apart. The record of what a call has removed is kept
  for the statement only: if the reply to the transaction is
  lost, the entries are on the record and nowhere else.

  Key definitions include:
    * `Phase` and `Call`
    * `Call.step`
    * `Event` and `Shared.step`
    * `recovery`
    * `answered`

  Key theorems include:
    * `Sound.step`
    * `AllReturned.step`
    * `each_entry_recovered_once`
    * `lost_reply_drops_entry`
-/

------------------------------------------------------------
-- Calls
------------------------------------------------------------

namespace Sluice

namespace Scheduler

namespace DeadWorkers

open Foundations Queue Storage

/- `UUID.String` and `uuid.Parse`. -/
structure Uuids where
  string : Uuid → String
  parse : String → Option Uuid

/-
  Where a call stands, as the command that it issues next.
  `last` tells that the scan's cursor came back as zero.
-/
inductive Phase
| scan
| check (worker : String) (workers : List String) (last : Bool)
| take (worker : String) (workers : List String) (last : Bool)
| getJob (id : Uuid) (ids : List Uuid)
| enqueue (j : Job) (ids : List Uuid)
| finished
deriving DecidableEq, Repr

namespace Phase

/- The next round of the loop over the recovered jobs. -/
def nextJob : List Uuid → Phase
| [] => .finished
| id :: ids => .getJob id ids

/- Still inside `DeadWorkerJobs`. -/
def collecting : Phase → Bool
| .scan | .check _ _ _ | .take _ _ _ => true
| _ => false

end Phase

/-
  What became of a recovered job: the row that was read, if
  any, and the outcome of `Enqueue`, if it was called.
-/
structure Recovered where
  id : Uuid
  row : Option Job
  queued : Option Bool
deriving DecidableEq, Repr

/-
  A call of `recoverDeadWorkerJobs`. `out` is the variable of
  `DeadWorkerJobs`, with the entry of each job, and `failed`
  tells that it returned an error.
-/
structure Call where
  phase : Phase
  out : List (Tagged × Uuid)
  failed : Bool
  removed : List Tagged
  log : List Recovered
deriving DecidableEq, Repr

/- What the calls share. `enqueues` records calls of Enqueue. -/
structure Shared where
  keys : Keyspace Key Tagged
  next : Nat
  db : Db
  enqueues : List (Uuid × Uuid × Int)

/- `Enqueue`, with new numbers for what it pushes. -/
def Shared.enqueue
    (u : Uuids)
    (tenantId jobId : Uuid)
    (priority : Int)
    (s : Shared) :
    Shared :=
  { s with
    keys :=
      (Scripts.enqueueScript Tagged.text
        ⟨bucketForPriority priority, tenantId⟩
        ⟨s.next, u.string jobId⟩ ⟨s.next + 1, "1"⟩ s.keys).2
    next := s.next + 2
    enqueues := (tenantId, jobId, priority) :: s.enqueues }

namespace Call

def new : Call where
  phase := .scan
  out := []
  failed := false
  removed := []
  log := []

/- The jobs that `DeadWorkerJobs` returns. -/
def ids (c : Call) : List Uuid :=
  c.out.map Prod.snd

/- `DeadWorkerJobs` returns, with an error or without. -/
def returns (c : Call) (failed : Bool) : Call :=
  { c with failed := failed, phase := .nextJob c.ids }

/- The next list, or the next scan, or the end. -/
def nextList
    (c : Call)
    (last : Bool) :
    List String → Call
| worker :: workers =>
    { c with phase := .check worker workers last }
| [] => if last then c.returns false else { c with phase := .scan }

/- `uuid.Parse` of an entry. -/
def wellFormed (u : Uuids) (e : Tagged) : Option (Tagged × Uuid) :=
  (u.parse e.text).map (fun id => (e, id))

/- The entries of a list that the call has deleted. -/
def collect
    (u : Uuids)
    (c : Call)
    (entries : List Tagged) :
    Call :=
  { c with
    removed := c.removed ++ entries
    out := c.out ++ entries.filterMap (wellFormed u) }

/- The call never sees what it has deleted. -/
def lose (c : Call) (entries : List Tagged) : Call :=
  { c with removed := c.removed ++ entries }

/- Go on to the next job. -/
def record
    (c : Call)
    (r : Recovered)
    (ids : List Uuid) :
    Call :=
  { c with log := c.log ++ [r], phase := .nextJob ids }

end Call

/-
  The commands of a call, with what they answer. A command
  that writes may fail without effect, or be run by Redis
  with its reply lost: `unanswered`.
-/
inductive Act
| scan (workers : List String) (last : Bool)
| exists_
| take
| fail
| unanswered
| getJob (ok : Bool)
| enqueue (ok : Bool)
deriving DecidableEq, Repr

/- One command of a call. -/
def Call.step
    (u : Uuids)
    (s : Shared)
    (c : Call)
    (act : Act) :
    Option (Shared × Call) :=
  match act, c.phase with
  | .scan workers last, .scan =>
      some (s, c.nextList last workers)
  | .exists_, .check worker workers last =>
      if s.keys.present (.workerAlive worker) then
        some (s, c.nextList last workers)
      else
        some (s, { c with phase := .take worker workers last })
  | .take, .take worker workers last =>
      some
        ({ s with keys := s.keys.del (.processing worker) },
          (c.collect u
            (s.keys.lists (.processing worker))).nextList
              last workers)
  | .fail, phase =>
      if phase.collecting then some (s, c.returns true)
      else none
  | .unanswered, .take worker _ _ =>
      some
        ({ s with keys := s.keys.del (.processing worker) },
          (c.lose
            (s.keys.lists (.processing worker))).returns
              true)
  | .unanswered, .enqueue j ids =>
      some
        (s.enqueue u j.tenantId j.id j.priority,
          c.record ⟨j.id, some j, some false⟩ ids)
  | .getJob ok, .getJob id ids =>
      match (if ok then s.db.job? id else none) with
      | some j =>
          if j.state = .pending then
            some (s, { c with phase := .enqueue j ids })
          else some (s, c.record ⟨id, some j, none⟩ ids)
      | none => some (s, c.record ⟨id, none, none⟩ ids)
  | .enqueue ok, .enqueue j ids =>
      some
        (if ok then s.enqueue u j.tenantId j.id j.priority
          else s,
          c.record ⟨j.id, some j, some ok⟩ ids)
  | _, _ => none

------------------------------------------------------------
-- The System
------------------------------------------------------------

/-
  What others do: calls of `Enqueue`, any other push to a
  lane, scripts of `Pop`, `RemoveFromProcessing`, signs of
  life, the expiry of keys, and changes of the database.
-/
inductive Event
| enqueue (tenantId jobId : Uuid) (priority : Int)
| push (lane : Lane) (text : String)
| pop (workerId : String) (order : List Uuid)
| wait
| removeFromProcessing (workerId : String) (jobId : Uuid)
| markAlive (workerId : String)
| expireAlive (workerId : String)
| expireProcessing (workerId : String)
| expireMarker (text : String)
| database (db : Db)

namespace Shared

def setKeys (s : Shared) (keys : Keyspace Key Tagged) : Shared :=
  { s with keys := keys }

def step (u : Uuids) (s : Shared) : Event → Option Shared
| .enqueue tenantId jobId priority =>
    some (s.enqueue u tenantId jobId priority)
| .push lane text =>
    some
      { s with
        keys := s.keys.lpush (.lane lane) ⟨s.next, text⟩
        next := s.next + 1 }
| .pop workerId order =>
    (Scripts.popScript Tagged.text
      (Scripts.popKeysArray workerId order) s.keys).map
      (fun popped => s.setKeys popped.2)
| .wait => some (s.setKeys (s.keys.lpop .wake))
| .removeFromProcessing workerId jobId =>
    some
      (s.setKeys
        (s.keys.lrem (.processing workerId)
          (fun e => e.text = u.string jobId)))
| .markAlive workerId =>
    some
      (s.setKeys
        (s.keys.setPresent (.workerAlive workerId) true))
| .expireAlive workerId =>
    some
      (s.setKeys
        (s.keys.setPresent (.workerAlive workerId) false))
| .expireProcessing workerId =>
    some (s.setKeys (s.keys.del (.processing workerId)))
| .expireMarker text =>
    some (s.setKeys (s.keys.setPresent (.enqueued text) false))
| .database db => some { s with db := db }

end Shared

/- Calls are told apart by a number. -/
structure State where
  shared : Shared
  calls : Nat → Option Call

inductive Label
| event (e : Event)
| start (i : Nat)
| act (i : Nat) (act : Act)

/- What a call has removed, if there is one. -/
def removedBy (calls : Nat → Option Call) (i : Nat) : List Tagged :=
  ((calls i).map Call.removed).getD []

/- The lists of Redis, and what the calls have removed. -/
def State.places (s : State) : Key ⊕ Nat → List Tagged :=
  Sum.elim s.shared.keys.lists (removedBy s.calls)

def State.setCall (s : State) (i : Nat) (c : Call) : State :=
  { s with calls := Function.update s.calls i (some c) }

def step (u : Uuids) : Label → State → Option State
| .event e, s =>
    (s.shared.step u e).map
      (fun shared => { s with shared := shared })
| .start i, s =>
    if (s.calls i).isNone then some (s.setCall i Call.new)
    else none
| .act i act, s =>
    (s.calls i).bind
      (fun c =>
        (c.step u s.shared act).map
          (fun moved =>
            { s with shared := moved.1 }.setCall i moved.2))

/- The reply to every deletion of a list arrives. -/
def answered (s : State) : Label → Bool
| .act i .unanswered =>
    (s.calls i).all
      (fun c =>
        match c.phase with
        | .take _ _ _ => false
        | _ => true)
| _ => true

/- Redis holds any entries; no call has started. -/
def recovery (u : Uuids) : Machine State Label where
  init s :=
    s.calls = (fun _ => none) ∧
      Custody s.places s.shared.next
  step := step u

------------------------------------------------------------
-- Custody Of Entries
------------------------------------------------------------

section

variable {keys : Keyspace Key Tagged}
variable {removed : Nat → List Tagged}
variable {next : Nat}
variable {key : Key}

theorem elim_setList_of_ne
    {entries : List Tagged}
    {place : Key ⊕ Nat}
    (hPlace : place ≠ .inl key) :
    Sum.elim (keys.setList key entries).lists removed place =
      Sum.elim keys.lists removed place := by
  cases place with
  | inl other =>
      apply Keyspace.lists_setList_of_ne
      rintro rfl
      exact hPlace rfl
  | inr i => rfl

/- A push of a new entry. -/
theorem custody_lpush
    (hCustody : Custody (Sum.elim keys.lists removed) next)
    (key : Key)
    (text : String) :
    Custody
      (Sum.elim (keys.lpush key ⟨next, text⟩).lists removed)
      (next + 1) := by
  have hHere :
      Sum.elim (keys.lpush key ⟨next, text⟩).lists removed
          (.inl key) =
        ⟨next, text⟩ ::
          Sum.elim keys.lists removed (.inl key) :=
    Keyspace.lists_setList_self _ _ _
  exact hCustody.create rfl hHere
    (fun _ hPlace => elim_setList_of_ne hPlace)

/- A command that only removes from a list. -/
theorem custody_setList
    {entries : List Tagged}
    (hCustody : Custody (Sum.elim keys.lists removed) next)
    (hSub : entries.Sublist (keys.lists key)) :
    Custody
      (Sum.elim (keys.setList key entries).lists removed)
      next := by
  apply hCustody.shrink
  intro place
  by_cases hPlace : place = .inl key
  · subst hPlace
    simpa using hSub
  · rw [elim_setList_of_ne hPlace]

theorem custody_enqueue
    {s : Shared}
    (hCustody :
      Custody (Sum.elim s.keys.lists removed) s.next)
    (u : Uuids)
    (tenantId jobId : Uuid)
    (priority : Int) :
    Custody
      (Sum.elim
        (s.enqueue u tenantId jobId priority).keys.lists
        removed)
      (s.next + 2) := by
  simp only [Shared.enqueue, Scripts.enqueueScript]
  split
  · exact hCustody.mono (by omega)
  · have hLane := custody_lpush hCustody
      (.lane ⟨bucketForPriority priority, tenantId⟩)
      (u.string jobId)
    have hWake := custody_lpush hLane .wake "1"
    exact custody_setList hWake (List.take_sublist _ _)

theorem custody_pop
    {keys' : Keyspace Key Tagged}
    {popped : Key × Tagged}
    {workerId : String}
    {order : List Uuid}
    (hCustody : Custody (Sum.elim keys.lists removed) next)
    (hPop :
      Scripts.popScript Tagged.text
          (Scripts.popKeysArray workerId order) keys =
        some (popped, keys')) :
    Custody (Sum.elim keys'.lists removed) next := by
  rcases Scripts.popScript_takes hPop with
    ⟨lane, hKey, hTakes⟩
  refine hCustody.move (p := .inl (.lane lane))
    (q := .inl (.processing workerId)) ?_ hTakes.oldest rfl
    hTakes.processing ?_
  · intro hSame
    cases hSame
  · intro place hLane hProcessing
    cases place with
    | inl other =>
        apply hTakes.others
        · rintro rfl
          exact hLane rfl
        · rintro rfl
          exact hProcessing rfl
    | inr i => rfl

/- What others do keeps entries apart. -/
theorem custody_event
    {u : Uuids}
    {s s' : Shared}
    {e : Event}
    (hCustody :
      Custody (Sum.elim s.keys.lists removed) s.next)
    (hStep : s.step u e = some s') :
    Custody (Sum.elim s'.keys.lists removed) s'.next := by
  cases e with
  | enqueue tenantId jobId priority =>
      cases hStep
      exact custody_enqueue hCustody u _ _ _
  | push lane text =>
      cases hStep
      exact custody_lpush hCustody _ _
  | pop workerId order =>
      rcases Option.map_eq_some_iff.mp hStep with
        ⟨⟨popped, keys'⟩, hPop, rfl⟩
      exact custody_pop hCustody hPop
  | wait =>
      cases hStep
      exact custody_setList hCustody (List.tail_sublist _)
  | removeFromProcessing workerId jobId =>
      cases hStep
      exact custody_setList hCustody List.filter_sublist
  | expireProcessing workerId =>
      cases hStep
      exact custody_setList hCustody (List.nil_sublist _)
  | markAlive | expireAlive | expireMarker | database =>
      cases hStep
      exact hCustody

end

------------------------------------------------------------
-- What A Call Returns
------------------------------------------------------------

/-
  A job that was read as pending was given to `Enqueue`, and
  is among the queued ones if that went well.
-/
def Recovered.Handled
    (enqueues : List (Uuid × Uuid × Int))
    (r : Recovered) :
    Prop :=
  ∀ j, r.row = some j →
    j.id = r.id ∧
      (j.state = .pending →
        ∃ ok, r.queued = some ok ∧
          (ok = true →
            (j.tenantId, j.id, j.priority) ∈ enqueues))

/- The jobs that a call has still to look at. -/
def Phase.left? : Phase → Option (List Uuid)
| .getJob id ids => some (id :: ids)
| .enqueue j ids => some (j.id :: ids)
| .finished => some []
| _ => none

theorem Phase.left?_nextJob (ids : List Uuid) :
    (Phase.nextJob ids).left? = some ids := by
  cases ids <;> rfl

/-
  What a call has collected are well-formed entries that it
  has removed, and it looks at every one of them in turn.
-/
structure CallSound
    (u : Uuids)
    (enqueues : List (Uuid × Uuid × Int))
    (c : Call) :
    Prop where
  out :
    c.out.Sublist (c.removed.filterMap (Call.wellFormed u))
  collecting : c.phase.left? = none → c.log = []
  left : ∀ ids, c.phase.left? = some ids →
    c.log.map Recovered.id ++ ids = c.ids
  handled : ∀ r ∈ c.log, r.Handled enqueues

section

variable {u : Uuids}
variable {enqueues enqueues' : List (Uuid × Uuid × Int)}
variable {s s' : Shared}
variable {c c' : Call}
variable {act : Act}

theorem CallSound.new : CallSound u enqueues Call.new := by
  refine ⟨List.Sublist.refl _, fun _ => rfl, ?_, ?_⟩
  · intro ids hLeft
    cases hLeft
  · intro r hr
    cases hr

theorem CallSound.mono
    (hSound : CallSound u enqueues c)
    (hSub : enqueues ⊆ enqueues') :
    CallSound u enqueues' c := by
  refine { hSound with handled := ?_ }
  intro r hr j hj
  rcases hSound.handled r hr j hj with ⟨hId, hPending⟩
  refine ⟨hId, fun hState => ?_⟩
  rcases hPending hState with ⟨ok, hQueued, hDone⟩
  exact ⟨ok, hQueued, fun hOk => hSub (hDone hOk)⟩

/- A call that goes on collecting. -/
theorem CallSound.keepCollecting
    {phase : Phase}
    (hSound : CallSound u enqueues c)
    (hOld : c.phase.left? = none)
    (hNew : phase.left? = none) :
    CallSound u enqueues { c with phase := phase } := by
  refine ⟨hSound.out, fun _ => hSound.collecting hOld, ?_,
    hSound.handled⟩
  intro ids hLeft
  change phase.left? = some ids at hLeft
  rw [hNew] at hLeft
  cases hLeft

theorem CallSound.returns
    (hSound : CallSound u enqueues c)
    (hOld : c.phase.left? = none)
    (failed : Bool) :
    CallSound u enqueues (c.returns failed) := by
  have hLog := hSound.collecting hOld
  refine ⟨hSound.out, fun _ => hLog, ?_, hSound.handled⟩
  intro ids hLeft
  change (Phase.nextJob c.ids).left? = some ids at hLeft
  rw [Phase.left?_nextJob] at hLeft
  cases hLeft
  change c.log.map Recovered.id ++ c.ids = c.ids
  rw [hLog]
  rfl

theorem CallSound.nextList
    (hSound : CallSound u enqueues c)
    (hOld : c.phase.left? = none)
    (last : Bool)
    (workers : List String) :
    CallSound u enqueues (c.nextList last workers) := by
  cases workers with
  | cons worker workers =>
      exact hSound.keepCollecting hOld rfl
  | nil =>
      cases last with
      | true => exact hSound.returns hOld false
      | false => exact hSound.keepCollecting hOld rfl

theorem CallSound.collect
    (hSound : CallSound u enqueues c)
    (hOld : c.phase.left? = none)
    (entries : List Tagged) :
    CallSound u enqueues (c.collect u entries) := by
  refine ⟨?_, hSound.collecting, ?_, hSound.handled⟩
  · simp only [Call.collect, List.filterMap_append]
    exact hSound.out.append (List.Sublist.refl _)
  · intro ids hLeft
    change c.phase.left? = some ids at hLeft
    rw [hOld] at hLeft
    cases hLeft

theorem CallSound.lose
    (hSound : CallSound u enqueues c)
    (entries : List Tagged) :
    CallSound u enqueues (c.lose entries) := by
  refine { hSound with out := ?_ }
  simp only [Call.lose, List.filterMap_append]
  exact hSound.out.trans (List.sublist_append_left _ _)

/- A call that is done with one of its jobs. -/
theorem CallSound.record
    {r : Recovered}
    {ids : List Uuid}
    (hSound : CallSound u enqueues c)
    (hLeft : c.phase.left? = some (r.id :: ids))
    (hHandled : r.Handled enqueues) :
    CallSound u enqueues (c.record r ids) := by
  refine ⟨hSound.out, ?_, ?_, ?_⟩
  · intro hNone
    change (Phase.nextJob ids).left? = none at hNone
    rw [Phase.left?_nextJob] at hNone
    cases hNone
  · intro rest hRest
    change (Phase.nextJob ids).left? = some rest at hRest
    rw [Phase.left?_nextJob] at hRest
    cases hRest
    have hAll := hSound.left _ hLeft
    change (c.log ++ [r]).map Recovered.id ++ ids = c.ids
    simpa using hAll
  · intro r' hr'
    rcases List.mem_append.mp hr' with hOld | hNew
    · exact hSound.handled r' hOld
    · rw [List.mem_singleton.mp hNew]
      exact hHandled

/- A call that has called `Enqueue` for a job. -/
theorem CallSound.queued
    {j : Job}
    {ids : List Uuid}
    {ok : Bool}
    (hSound : CallSound u enqueues c)
    (hPhase : c.phase = .enqueue j ids)
    (hDone :
      ok = true →
        (j.tenantId, j.id, j.priority) ∈ enqueues) :
    CallSound u enqueues
      (c.record ⟨j.id, some j, some ok⟩ ids) := by
  apply hSound.record
  · rw [hPhase]
    rfl
  · intro j' hj'
    cases hj'
    exact ⟨rfl, fun _ => ⟨ok, rfl, hDone⟩⟩

/- `Enqueue` has run, whether its reply came or not. -/
theorem CallSound.enqueued
    {j : Job}
    {ids : List Uuid}
    (hSound : CallSound u s.enqueues c)
    (hPhase : c.phase = .enqueue j ids)
    (ok : Bool) :
    CallSound u
      (s.enqueue u j.tenantId j.id j.priority).enqueues
      (c.record ⟨j.id, some j, some ok⟩ ids) := by
  have hMore :
      CallSound u
        (s.enqueue u j.tenantId j.id j.priority).enqueues
        c :=
    hSound.mono (List.subset_cons_self _ _)
  exact hMore.queued hPhase (fun _ => List.mem_cons_self)

/- A call that is about to queue the job it has found. -/
theorem CallSound.pending
    {j : Job}
    {ids : List Uuid}
    (hSound : CallSound u enqueues c)
    (hLeft : c.phase.left? = some (j.id :: ids)) :
    CallSound u enqueues
      { c with phase := .enqueue j ids } := by
  refine { hSound with collecting := ?_, left := ?_ }
  · intro hNone
    cases hNone
  · intro rest hRest
    cases hRest
    exact hSound.left _ hLeft

theorem Phase.left?_of_collecting
    {phase : Phase}
    (hCollecting : phase.collecting = true) :
    phase.left? = none := by
  cases phase with
  | scan | check | take => rfl
  | getJob | enqueue | finished => cases hCollecting

/- One command of a call. -/
theorem CallSound.step
    (hSound : CallSound u s.enqueues c)
    (hStep : c.step u s act = some (s', c')) :
    CallSound u s'.enqueues c' := by
  unfold Call.step at hStep
  split at hStep
  · rename_i workers last hPhase
    cases hStep
    exact hSound.nextList (by rw [hPhase]; rfl) _ _
  · rename_i worker workers last hPhase
    have hOld : c.phase.left? = none := by
      rw [hPhase]
      rfl
    split at hStep
    · cases hStep
      exact hSound.nextList hOld _ _
    · cases hStep
      exact hSound.keepCollecting hOld rfl
  · rename_i worker workers last hPhase
    have hOld : c.phase.left? = none := by
      rw [hPhase]
      rfl
    cases hStep
    exact (hSound.collect hOld _).nextList hOld _ _
  · split at hStep
    · rename_i hCollecting
      cases hStep
      exact hSound.returns
        (Phase.left?_of_collecting hCollecting) true
    · cases hStep
  · rename_i worker _ _ hPhase
    have hOld : c.phase.left? = none := by
      rw [hPhase]
      rfl
    cases hStep
    exact (hSound.lose _).returns hOld true
  · rename_i j ids hPhase
    cases hStep
    exact hSound.enqueued hPhase false
  · rename_i ok id ids hPhase
    have hLeft : c.phase.left? = some (id :: ids) := by
      rw [hPhase]
      rfl
    split at hStep
    · rename_i j hRow
      have hId : j.id = id := by
        cases ok with
        | true => exact Db.id_of_job? hRow
        | false => cases hRow
      rw [← hId] at hLeft hStep
      split at hStep
      · cases hStep
        exact hSound.pending hLeft
      · rename_i hState
        cases hStep
        apply hSound.record hLeft
        intro j' hj'
        cases hj'
        exact ⟨rfl, fun hPending => absurd hPending hState⟩
    · cases hStep
      apply hSound.record hLeft
      intro j' hj'
      cases hj'
  · rename_i ok j ids hPhase
    cases hStep
    cases ok with
    | true => exact hSound.enqueued hPhase true
    | false =>
        exact hSound.queued hPhase (fun hOk => nomatch hOk)
  · cases hStep

------------------------------------------------------------
-- Runs
------------------------------------------------------------

@[simp] theorem removed_nextList
    (c : Call)
    (last : Bool)
    (workers : List String) :
    (c.nextList last workers).removed = c.removed := by
  cases workers with
  | cons worker workers => rfl
  | nil => cases last <;> rfl

@[simp] theorem out_nextList
    (c : Call)
    (last : Bool)
    (workers : List String) :
    (c.nextList last workers).out = c.out := by
  cases workers with
  | cons worker workers => rfl
  | nil => cases last <;> rfl

/-
  What a command of a call does to Redis: nothing, or one
  `Enqueue`, or the removal of a list that the call then has,
  and returns unless the reply is lost.
-/
theorem Call.step_effect
    (hStep : c.step u s act = some (s', c')) :
    (c'.removed = c.removed ∧ c'.out = c.out ∧
        (s' = s ∨
          ∃ tenantId jobId priority,
            s' = s.enqueue u tenantId jobId priority)) ∨
      ∃ worker workers last,
        c.phase = .take worker workers last ∧
        s' = { s with keys := s.keys.del (.processing worker) } ∧
          c'.removed =
            c.removed ++ s.keys.lists (.processing worker) ∧
          (act = .unanswered ∨
            c'.out =
              c.out ++
                (s.keys.lists (.processing worker)).filterMap
                  (Call.wellFormed u)) := by
  unfold Call.step at hStep
  split at hStep
  · cases hStep
    exact .inl
      ⟨removed_nextList _ _ _, out_nextList _ _ _, .inl rfl⟩
  · split at hStep
    · cases hStep
      exact .inl
        ⟨removed_nextList _ _ _, out_nextList _ _ _,
          .inl rfl⟩
    · cases hStep
      exact .inl ⟨rfl, rfl, .inl rfl⟩
  · rename_i worker workers last hPhase
    cases hStep
    exact .inr
      ⟨worker, workers, last, hPhase, rfl,
        removed_nextList _ _ _, .inr (out_nextList _ _ _)⟩
  · split at hStep
    · cases hStep
      exact .inl ⟨rfl, rfl, .inl rfl⟩
    · cases hStep
  · rename_i worker workers last hPhase
    cases hStep
    exact .inr
      ⟨worker, workers, last, hPhase, rfl, rfl, .inl rfl⟩
  · cases hStep
    exact .inl ⟨rfl, rfl, .inr ⟨_, _, _, rfl⟩⟩
  · split at hStep
    · split at hStep
      · cases hStep
        exact .inl ⟨rfl, rfl, .inl rfl⟩
      · cases hStep
        exact .inl ⟨rfl, rfl, .inl rfl⟩
    · cases hStep
      exact .inl ⟨rfl, rfl, .inl rfl⟩
  · rename_i ok j ids hPhase
    cases hStep
    refine .inl ⟨rfl, rfl, ?_⟩
    cases ok with
    | true => exact .inr ⟨_, _, _, rfl⟩
    | false => exact .inl rfl
  · cases hStep

theorem removedBy_update
    (calls : Nat → Option Call)
    (i : Nat)
    (c : Call) :
    removedBy (Function.update calls i (some c)) =
      Function.update (removedBy calls) i c.removed := by
  funext k
  by_cases hSame : k = i
  · subst hSame
    simp [removedBy]
  · simp [removedBy, hSame]

/- A call that removes a list has its entries from then on. -/
theorem custody_act
    {calls : Nat → Option Call}
    {i : Nat}
    (hCustody :
      Custody (Sum.elim s.keys.lists (removedBy calls))
        s.next)
    (hCall : calls i = some c)
    (hStep : c.step u s act = some (s', c')) :
    Custody
      (Sum.elim s'.keys.lists
        (removedBy (Function.update calls i (some c'))))
      s'.next := by
  have hMine : removedBy calls i = c.removed := by
    simp [removedBy, hCall]
  rw [removedBy_update]
  rcases Call.step_effect hStep with
    ⟨hKept, _, hShared⟩ | ⟨worker, _, _, _, rfl, hMore, _⟩
  · rw [hKept, ← hMine, Function.update_eq_self]
    rcases hShared with rfl | ⟨tenantId, jobId, priority, rfl⟩
    · exact hCustody
    · exact custody_enqueue hCustody u _ _ _
  · refine hCustody.handOver
      (p := .inl (.processing worker)) (q := .inr i) ?_ ?_ ?_
    · exact Keyspace.lists_setList_self _ _ _
    · change
        Function.update (removedBy calls) i c'.removed i =
          removedBy calls i ++
            s.keys.lists (.processing worker)
      rw [Function.update_self, hMore, hMine]
    · intro place hProcessing hCall'
      cases place with
      | inl key => exact elim_setList_of_ne hProcessing
      | inr k =>
          apply Function.update_of_ne
          rintro rfl
          exact hCall' rfl

end

/- Entries are apart, and every call is as it should be. -/
structure Sound (u : Uuids) (s : State) : Prop where
  custody : Custody s.places s.shared.next
  calls : ∀ i c, s.calls i = some c →
    CallSound u s.shared.enqueues c

section

variable {u : Uuids}
variable {s s' : State}

/- The record stays as it is, or one `Enqueue` is run. -/
def Records (u : Uuids) (s s' : Shared) : Prop :=
  s'.enqueues = s.enqueues ∨
    ∃ tenantId jobId priority,
      s' = s.enqueue u tenantId jobId priority

theorem Records.subset
    {s s' : Shared}
    (hRecords : Records u s s') :
    s.enqueues ⊆ s'.enqueues := by
  rcases hRecords with hSame | ⟨_, _, _, rfl⟩
  · rw [hSame]
    exact List.Subset.refl _
  · exact List.subset_cons_self _ _

theorem Shared.step_records
    {s s' : Shared}
    {e : Event}
    (hStep : s.step u e = some s') :
    Records u s s' := by
  cases e with
  | enqueue tenantId jobId priority =>
      cases hStep
      exact .inr ⟨_, _, _, rfl⟩
  | pop workerId order =>
      rcases Option.map_eq_some_iff.mp hStep with
        ⟨popped, _, rfl⟩
      exact .inl rfl
  | push | wait | removeFromProcessing | markAlive
  | expireAlive | expireProcessing | expireMarker
  | database =>
      cases hStep
      exact .inl rfl

theorem Call.step_records
    {s s' : Shared}
    {c c' : Call}
    {act : Act}
    (hStep : c.step u s act = some (s', c')) :
    Records u s s' := by
  rcases Call.step_effect hStep with
    ⟨_, _, rfl | hEnqueue⟩ | ⟨worker, _, _, _, rfl, _⟩
  · exact .inl rfl
  · exact .inr hEnqueue
  · exact .inl rfl

theorem State.calls_setCall
    {i k : Nat}
    {c d : Call}
    (hCall : (s.setCall i c).calls k = some d) :
    (k = i ∧ d = c) ∨ s.calls k = some d := by
  by_cases hSame : k = i
  · subst hSame
    simp only [State.setCall, Function.update_self] at hCall
    exact .inl ⟨rfl, (Option.some.inj hCall).symm⟩
  · simp only [State.setCall,
      Function.update_of_ne hSame] at hCall
    exact .inr hCall

theorem Sound.step
    {label : Label}
    (hSound : Sound u s)
    (hStep : DeadWorkers.step u label s = some s') :
    Sound u s' := by
  cases label with
  | event e =>
      rcases Option.map_eq_some_iff.mp hStep with
        ⟨shared, hShared, rfl⟩
      refine ⟨custody_event hSound.custody hShared, ?_⟩
      intro i c hc
      exact (hSound.calls i c hc).mono
        (Shared.step_records hShared).subset
  | start i =>
      simp only [DeadWorkers.step] at hStep
      split at hStep
      · rename_i hFree
        cases hStep
        have hNone : s.calls i = none :=
          Option.isNone_iff_eq_none.mp hFree
        refine ⟨?_, ?_⟩
        · have hSame :
              removedBy (Function.update s.calls i
                  (some Call.new)) =
                removedBy s.calls := by
            rw [removedBy_update]
            apply Function.update_eq_self_iff.mpr
            simp [removedBy, hNone, Call.new]
          simp only [State.places, State.setCall, hSame]
          exact hSound.custody
        · intro k c hc
          rcases State.calls_setCall hc with ⟨_, rfl⟩ | hOld
          · exact .new
          · exact hSound.calls k c hOld
      · cases hStep
  | act i act =>
      rcases Option.bind_eq_some_iff.mp hStep with
        ⟨c, hCall, hMap⟩
      rcases Option.map_eq_some_iff.mp hMap with
        ⟨⟨shared, c'⟩, hMove, rfl⟩
      refine ⟨custody_act hSound.custody hCall hMove, ?_⟩
      intro k d hd
      rcases State.calls_setCall hd with ⟨_, rfl⟩ | hOld
      · exact (hSound.calls i c hCall).step hMove
      · exact (hSound.calls k d hOld).mono
          (Call.step_records hMove).subset

/- Nothing well-formed that a call has removed is missing. -/
def AllReturned (u : Uuids) (c : Call) : Prop :=
  c.out = c.removed.filterMap (Call.wellFormed u)

theorem AllReturned.step
    {shared shared' : Shared}
    {c c' : Call}
    {act : Act}
    (hAll : AllReturned u c)
    (hAnswered :
      ∀ worker workers last,
        c.phase = .take worker workers last →
          act ≠ .unanswered)
    (hStep : c.step u shared act = some (shared', c')) :
    AllReturned u c' := by
  unfold AllReturned at hAll ⊢
  rcases Call.step_effect hStep with
    ⟨hRemoved, hOut, _⟩ |
      ⟨worker, workers, last, hPhase, _, hRemoved, hLost |
        hOut⟩
  · rw [hRemoved, hOut]
    exact hAll
  · exact absurd hLost (hAnswered _ _ _ hPhase)
  · rw [hRemoved, hOut, hAll, List.filterMap_append]

/-
  After a call of `Enqueue` the marker of the job is set, and
  the job is the newest of its lane unless it was set before.
-/
structure Queued
    (u : Uuids)
    (s s' : Shared)
    (tenantId jobId : Uuid)
    (priority : Int) :
    Prop where
  marked :
    s'.keys.present (.enqueued (u.string jobId)) = true
  waits :
    s.keys.present (.enqueued (u.string jobId)) = true ∨
      s'.keys.lists
          (.lane ⟨bucketForPriority priority, tenantId⟩) =
        ⟨s.next, u.string jobId⟩ ::
          s.keys.lists
            (.lane ⟨bucketForPriority priority, tenantId⟩)

theorem queued_enqueue
    (u : Uuids)
    (s : Shared)
    (tenantId jobId : Uuid)
    (priority : Int) :
    Queued u s (s.enqueue u tenantId jobId priority)
      tenantId jobId priority := by
  cases hMarked :
      s.keys.present (.enqueued (u.string jobId)) with
  | true =>
      refine ⟨?_, .inl hMarked⟩
      simp [Shared.enqueue, Scripts.enqueueScript, hMarked]
  | false =>
      constructor
      · simp [Shared.enqueue, Scripts.enqueueScript,
          hMarked, Keyspace.ltrim, Keyspace.lpush,
          Keyspace.present_setPresent]
      · refine .inr ?_
        unfold Shared.enqueue
        rw [Scripts.lane_enqueueScript]
        simp [Scripts.enqueueScript, hMarked]

/- Every new entry of the record is queued by its step. -/
theorem Records.queued
    {s s' : Shared}
    {tenantId jobId : Uuid}
    {priority : Int}
    (hRecords : Records u s s')
    (hNew :
      s'.enqueues =
        (tenantId, jobId, priority) :: s.enqueues) :
    Queued u s s' tenantId jobId priority := by
  rcases hRecords with hSame | ⟨_, _, _, rfl⟩
  · rw [hSame] at hNew
    exact absurd hNew (List.cons_ne_self _ _).symm
  · cases (List.cons.inj hNew).1
    exact queued_enqueue u s tenantId jobId priority

theorem step_records
    {label : Label}
    (hStep : DeadWorkers.step u label s = some s') :
    Records u s.shared s'.shared := by
  cases label with
  | event e =>
      rcases Option.map_eq_some_iff.mp hStep with
        ⟨shared, hShared, rfl⟩
      exact Shared.step_records hShared
  | start i =>
      simp only [DeadWorkers.step] at hStep
      split at hStep
      · cases hStep
        exact .inl rfl
      · cases hStep
  | act i act =>
      rcases Option.bind_eq_some_iff.mp hStep with
        ⟨c, _, hMap⟩
      rcases Option.map_eq_some_iff.mp hMap with
        ⟨⟨shared, c'⟩, hMove, rfl⟩
      exact Call.step_records hMove

end

namespace Sample

/- Texts of the identifiers up to nine. -/
def uuids : Uuids where
  string id := String.singleton (Nat.digitChar id)
  parse text :=
    (List.range 10).find?
      (fun id => text = String.singleton (Nat.digitChar id))

/- One pending job, and nothing in Redis. -/
def start : State where
  shared :=
    { keys := Keyspace.empty
      next := 0
      db :=
        { Storage.Sample.start.db with
          jobs := Table.empty.insert (Storage.Sample.job 7) }
      enqueues := [] }
  calls := fun _ => none

theorem init_start : (recovery uuids).init start := by
  refine ⟨rfl, ?_⟩
  apply (Custody.empty 0).shrink
  intro place
  cases place with
  | inl key => exact List.Sublist.refl _
  | inr i => exact List.Sublist.refl _

end Sample

end DeadWorkers

end Scheduler

end Sluice
