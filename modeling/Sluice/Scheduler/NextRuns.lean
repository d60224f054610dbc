import Sluice.Scheduler.CronLibrary
import Sluice.Scheduler.Occurrences

/-
  At which instants schedules fire.

  Schedules are now created and deleted as well. Beside what
  the system stores, a state keeps a record of what happened:
  which expression and timezone a schedule had when its next
  run was last stored, which rows leaders were given, which
  rows requests with a new next run handed to the database,
  and which jobs were created.

  Key definitions include:
    * `NextRuns.State`, `NextRuns.step`, `NextRuns.machine`
    * `NextRuns.AtOccurrences`
    * `NextRuns.regular`

  Key theorems include:
    * `NextRuns.schedules_fire_at_occurrences`
-/

------------------------------------------------------------
-- The System And Its Record
------------------------------------------------------------

namespace Sluice

namespace Scheduler

namespace Cron

namespace NextRuns

open Foundations Storage

/- When a schedule runs: its expression and its timezone. -/
structure Timetable where
  cron : String
  timezone : String
deriving DecidableEq, Repr

def timetable (sched : Schedule) : Timetable :=
  ⟨sched.cron, sched.timezone⟩

/-
  `inForce` is the timetable of each schedule when its next
  run was last stored. `reads` has the rows that leaders were
  given, with the timetable in force then; `handed` the rows
  with a new next run that a request stores, with the time of
  the request; and `created` the jobs of firings, with the
  row that was fired.
-/
structure State where
  base : Cron.State
  inForce : Uuid → Option Timetable
  reads : List (Schedule × Option Timetable)
  handed : List (Time × Schedule)
  created : List (Schedule × Job)

/-
  A request takes its time `now` before its statement runs.
-/
inductive Label
| base (label : Cron.Label)
| createSchedule
    (tenantId id : Uuid) (now : Time)
    (req : CreateScheduleRequest)
| deleteSchedule (tenantId id : Uuid)

/- Record that the next run of a schedule has been stored. -/
def noteStored
    (id : Uuid)
    (db : Db)
    (inForce : Uuid → Option Timetable) :
    Uuid → Option Timetable :=
  Function.update inForce id
    ((db.schedules.find? id).map timetable)

/- The record of a step that led to the state `base`. -/
def record
    (base : Cron.State)
    (s : State) :
    Cron.Label → State
| .getDueSchedules scheduleId =>
    { s with
      base := base
      reads :=
        ((s.base.db.schedules.find? scheduleId).map
            (fun row => (row, s.inForce scheduleId))).toList ++
          s.reads }
| .insertJob i jobId =>
    match
      s.base.fires[i]?, s.base.db.job? jobId,
      base.db.job? jobId
    with
    | some f, none, some j =>
        { s with
          base := base
          created := (f.sched, j) :: s.created }
    | _, _, _ => { s with base := base }
| .updateScheduleAfterRun i =>
    match s.base.fires[i]? with
    | some f =>
        { s with
          base := base
          inForce := noteStored f.sched.id base.db s.inForce }
    | none => { s with base := base }
| .edit i =>
    match s.base.edits[i]?, base.edits[i]? with
    | some e, some ⟨_, _, some saved⟩ =>
        if recomputes e.req e.sched then
          { s with
            base := base
            handed := (s.base.clock, saved) :: s.handed }
        else { s with base := base }
    | _, _ => { s with base := base }
| .updateSchedule i =>
    match s.base.edits[i]? with
    | some ⟨_, _, some saved⟩ =>
        { s with
          base := base
          inForce := noteStored saved.id base.db s.inForce }
    | _ => { s with base := base }
| _ => { s with base := base }

namespace State

variable (P : RequestParsers)

def createSchedule
    (tenantId id : Uuid)
    (now : Time)
    (req : CreateScheduleRequest)
    (s : State) :
    Option State :=
  match Cron.createSchedule P tenantId id now req with
  | .error _ => none
  | .ok sched =>
      (insertSchedule sched s.base.db).map
        (fun db =>
          { s with
            base :=
              { s.base with
                db := db
                templates :=
                  (id, sched.jobTemplate) ::
                    s.base.templates }
            inForce := noteStored id db s.inForce
            handed := (now, sched) :: s.handed })

def deleteSchedule
    (tenantId id : Uuid)
    (s : State) :
    Option State :=
  (Cron.deleteSchedule id tenantId s.base.db).map
    (fun db => { s with base := { s.base with db := db } })

end State

section

variable (P : RequestParsers)

def step : Label → State → Option State
| .base label, s =>
    (Cron.step P.toParsers label s.base).map
      (fun base => record base s label)
| .createSchedule tenantId id now req, s =>
    if now ≤ s.base.clock then
      s.createSchedule P tenantId id now req
    else none
| .deleteSchedule tenantId id, s =>
    s.deleteSchedule tenantId id

/- Nothing exists at first. -/
def init (s : State) : Prop :=
  Cron.init s.base ∧ s.base.db.schedules = Table.empty ∧
    s.reads = [] ∧ s.handed = [] ∧ s.created = []

def machine : Machine State Label where
  init := init
  step := step P

end

variable (L : CronLibrary)

/-
  Requests store next runs that are later than the request.
  A created job carries the key of an instant that matches
  the timetable in force when the instant was stored, for
  every read of the row that was fired.
-/
structure AtOccurrences (s : State) : Prop where
  later : ∀ h ∈ s.handed, h.1 < h.2.nextRunAt
  key :
    ∀ c ∈ s.created,
      c.2.idempotencyKey =
        some (occurrenceKey c.1.id c.1.nextRunAt)
  read : ∀ c ∈ s.created, ∃ t, (c.1, t) ∈ s.reads
  occurs :
    ∀ c ∈ s.created, ∀ t, (c.1, t) ∈ s.reads →
      ∃ t', t = some t' ∧
        L.occurs t'.cron t'.timezone c.1.nextRunAt

/-
  The steps that keep it. A next run is only computed when
  the expression matches within five years, and a leader only
  stores one while the schedule still has the timetable that
  the leader has read.
-/
def regular (s : State) : Label → Prop
| .base (.start i) =>
    ∀ f, s.base.fires[i]? = some f →
      L.Recurs f.sched.cron f.sched.timezone s.base.clock
| .base (.edit i) =>
    ∀ e, s.base.edits[i]? = some e →
      recomputes e.req e.sched = true →
        L.Recurs (e.req.cron.getD e.sched.cron)
          (e.req.timezone.getD e.sched.timezone)
          s.base.clock
| .base (.updateScheduleAfterRun i) =>
    ∀ f row, s.base.fires[i]? = some f →
      s.base.db.schedules.find? f.sched.id = some row →
        timetable row = timetable f.sched
| .createSchedule _ _ now req =>
    L.Recurs req.cron req.location now
| _ => True

------------------------------------------------------------
-- The Invariant
------------------------------------------------------------

/- The next run of a row matches the row's own timetable. -/
def OnTime (sched : Schedule) : Prop :=
  L.occurs sched.cron sched.timezone sched.nextRunAt

/- The run that a firing is going to store. -/
def FirePhase.next? : FirePhase → Option Time
| .read => none
| .started _ next _ => some next
| .inserted _ next => some next

/- What a leader has read and computed. -/
structure SoundFire
    (reads : List (Schedule × Option Timetable))
    (f : Fire) :
    Prop where
  read : ∃ t, (f.sched, t) ∈ reads
  next :
    ∀ next, FirePhase.next? f.phase = some next →
      L.occurs f.sched.cron f.sched.timezone next

/- What a request has read and is about to store. -/
structure SoundEdit (e : Edit) : Prop where
  read : OnTime L e.sched
  saves : ∀ saved, e.saves = some saved → OnTime L saved

structure Inv (s : State) : Prop where
  rows :
    ∀ id row, s.base.db.schedules.find? id = some row →
      s.inForce id = some (timetable row) ∧ OnTime L row
  fires : ∀ f ∈ s.base.fires, SoundFire L s.reads f
  edits : ∀ e ∈ s.base.edits, SoundEdit L e
  reads :
    ∀ r ∈ s.reads,
      r.2 = some (timetable r.1) ∧ OnTime L r.1
  handed : ∀ h ∈ s.handed, h.1 < h.2.nextRunAt
  created :
    ∀ c ∈ s.created,
      c.2.idempotencyKey =
          some (occurrenceKey c.1.id c.1.nextRunAt) ∧
        ∃ t, (c.1, t) ∈ s.reads

variable {L}
variable {s s' : State}

theorem atOccurrences_of_inv
    (hInv : Inv L s) :
    AtOccurrences L s where
  later := hInv.handed
  key := fun c hMem => (hInv.created c hMem).1
  read := fun c hMem => (hInv.created c hMem).2
  occurs := by
    intro c _ t hRead
    rcases hInv.reads _ hRead with ⟨hForce, hOn⟩
    exact ⟨timetable c.1, hForce, hOn⟩

/-
  Steps that store no next run: rows may go, leaders and
  requests may move on.
-/
theorem Inv.move
    {base : Cron.State}
    (hInv : Inv L s)
    (hRows :
      ∀ id row, base.db.schedules.find? id = some row →
        s.base.db.schedules.find? id = some row)
    (hFires :
      ∀ f ∈ base.fires,
        f ∈ s.base.fires ∨ SoundFire L s.reads f)
    (hEdits :
      ∀ e ∈ base.edits,
        e ∈ s.base.edits ∨ SoundEdit L e) :
    Inv L { s with base := base } where
  rows := fun id row hRow =>
    hInv.rows id row (hRows id row hRow)
  fires := fun f hf => (hFires f hf).elim (hInv.fires f) id
  edits := fun e he => (hEdits e he).elim (hInv.edits e) id
  reads := hInv.reads
  handed := hInv.handed
  created := hInv.created

/-
  A statement that stores a next run: the row it leaves has
  a next run of its timetable.
-/
theorem Inv.store
    {base : Cron.State}
    {id : Uuid}
    (hInv : Inv L s)
    (hOwn :
      ∀ row, base.db.schedules.find? id = some row →
        OnTime L row)
    (hOthers :
      ∀ k, k ≠ id →
        base.db.schedules.find? k =
          s.base.db.schedules.find? k)
    (hFires : ∀ f ∈ base.fires, f ∈ s.base.fires)
    (hEdits : ∀ e ∈ base.edits, e ∈ s.base.edits) :
    Inv L
      { s with
        base := base
        inForce := noteStored id base.db s.inForce } where
  rows := by
    intro k row hRow
    by_cases hKey : k = id
    · subst hKey
      refine ⟨?_, hOwn row hRow⟩
      change noteStored k base.db s.inForce k = _
      unfold noteStored
      rw [Function.update_self, hRow]
      rfl
    · rw [hOthers k hKey] at hRow
      rcases hInv.rows k row hRow with ⟨hForce, hOn⟩
      refine ⟨?_, hOn⟩
      change noteStored id base.db s.inForce k = _
      unfold noteStored
      rw [Function.update_of_ne hKey]
      exact hForce
  fires := fun f hf => hInv.fires f (hFires f hf)
  edits := fun e he => hInv.edits e (hEdits e he)
  reads := hInv.reads
  handed := hInv.handed
  created := hInv.created

/- A request hands over a row with a later next run. -/
theorem Inv.hand
    {now : Time}
    {sched : Schedule}
    (hInv : Inv L s)
    (hLater : now < sched.nextRunAt) :
    Inv L { s with handed := (now, sched) :: s.handed } where
  rows := hInv.rows
  fires := hInv.fires
  edits := hInv.edits
  reads := hInv.reads
  handed := by
    intro h hMem
    rcases List.mem_cons.mp hMem with hNew | hOld
    · rw [hNew]
      exact hLater
    · exact hInv.handed h hOld
  created := hInv.created

end NextRuns

------------------------------------------------------------
-- Steps Of Leaders
------------------------------------------------------------

open Foundations Storage

namespace NextRuns

variable {L : CronLibrary}
variable {s : State}
variable {base : Cron.State}

theorem Inv.getDueSchedules
    {scheduleId : Uuid}
    (hInv : Inv L s)
    (hStep :
      s.base.getDueSchedules scheduleId = some base) :
    Inv L (record base s (.getDueSchedules scheduleId)) := by
  unfold State.getDueSchedules at hStep
  cases hRow : s.base.db.schedules.find? scheduleId with
  | none =>
      rw [hRow] at hStep
      cases hStep
  | some row =>
      simp only [hRow] at hStep
      split at hStep
      · cases hStep
        rcases hInv.rows scheduleId row hRow with
          ⟨hForce, hOn⟩
        simp only [record, hRow, Option.map_some,
          Option.toList_some, List.singleton_append]
        refine ⟨hInv.rows, ?_, hInv.edits, ?_, hInv.handed,
          ?_⟩
        · intro f hf
          rcases List.mem_cons.mp hf with hNew | hOld
          · rw [hNew]
            refine ⟨⟨_, List.mem_cons_self⟩, ?_⟩
            intro next hPhase
            cases hPhase
          · have hSound := hInv.fires f hOld
            rcases hSound.read with ⟨t, hRead⟩
            exact ⟨⟨t, List.mem_cons_of_mem _ hRead⟩,
              hSound.next⟩
        · intro r hr
          rcases List.mem_cons.mp hr with hNew | hOld
          · rw [hNew]
            exact ⟨hForce, hOn⟩
          · exact hInv.reads r hOld
        · intro c hc
          rcases hInv.created c hc with ⟨hKey, t, hRead⟩
          exact ⟨hKey, t, List.mem_cons_of_mem _ hRead⟩
      · cases hStep

theorem Inv.start
    {i : Nat}
    (hInv : Inv L s)
    (hOk : regular L s (.base (.start i)))
    (hStep : s.base.start L.toParsers i = some base) :
    Inv L { s with base := base } := by
  unfold State.start at hStep
  split at hStep
  · cases hStep
  rename_i f hGet
  rcases Option.map_eq_some_iff.mp hStep with
    ⟨f', hStart, hBase⟩
  rcases Fire.start_eq_some hStart with
    ⟨next, t, hNext, _, hFire⟩
  have hSound := hInv.fires f (List.mem_of_getElem? hGet)
  subst hBase
  refine hInv.move (fun _ _ hRow => hRow) ?_
    (fun _ he => .inl he)
  intro g hg
  rcases List.mem_or_eq_of_mem_set hg with hOld | hSet
  · exact .inl hOld
  · rw [hSet, hFire]
    refine .inr ⟨hSound.read, ?_⟩
    intro next' hPhase
    cases hPhase
    exact CronLibrary.occurs_next hNext (hOk f hGet)

/- The row that is found under a new identifier. -/
theorem job?_storeJob
    {j row : Job}
    {db : Db}
    (hFresh : db.job? j.id = none)
    (hRow : (storeJob j db).job? j.id = some row) :
    row = j.inserted := by
  rcases of_mem_storeJob hFresh
      (Table.mem_of_find? hRow) with
    hOld | hNew
  · have hNone := Table.find?_eq_none_iff.mp hFresh
    exact absurd (Table.key_of_find? hRow) (hNone row hOld)
  · exact hNew

/-
  A firing inserts its job, finds that it exists, or ends
  with an error before.
-/
theorem Inv.insertJob
    {i : Nat}
    {jobId : Uuid}
    (hInv : Inv L s)
    (hStep :
      s.base.insertJob L.toParsers i jobId = some base) :
    Inv L (record base s (.insertJob i jobId)) := by
  rcases insertJob_eq_some hStep with
    ⟨sched, now, next, t, hGet,
      rfl | ⟨j, hJob, hId, hNone, rfl⟩⟩
  · have hMoved :
        Inv L
          { s with
            base :=
              { s.base with
                fires := s.base.fires.eraseIdx i } } :=
      hInv.move (fun _ _ hRow => hRow)
        (fun f hf => .inl (List.mem_of_mem_eraseIdx hf))
        (fun _ he => .inl he)
    simp only [record, hGet]
    cases s.base.db.job? jobId <;> exact hMoved
  · have hSound := hInv.fires _ (List.mem_of_getElem? hGet)
    have hFresh : s.base.db.job? j.id = none := by
      rw [hId]
      exact hNone
    have hMoved :
        Inv L
          { s with
            base :=
              { s.base with
                db := storeJob j s.base.db
                fires :=
                  s.base.fires.set i
                    ⟨sched, .inserted now next⟩ } } := by
      refine hInv.move ?_ ?_ (fun _ he => .inl he)
      · intro id row hRow
        rw [schedules_storeJob hFresh] at hRow
        exact hRow
      · intro f hf
        rcases List.mem_or_eq_of_mem_set hf with hOld | hSet
        · exact .inl hOld
        · rw [hSet]
          exact .inr ⟨hSound.read, hSound.next⟩
    simp only [record, hGet, hNone]
    cases hRow : (storeJob j s.base.db).job? jobId with
    | none => exact hMoved
    | some row =>
        refine
          { hMoved with
            created := ?_ }
        intro c hc
        rcases List.mem_cons.mp hc with hNew | hOld
        · rw [hNew]
          rw [← hId] at hRow
          refine ⟨?_, hSound.read⟩
          rw [job?_storeJob hFresh hRow, cronJob_eq_ok hJob]
          rfl
        · exact hInv.created c hOld

theorem Inv.updateScheduleAfterRun
    {i : Nat}
    (hInv : Inv L s)
    (hOk : regular L s (.base (.updateScheduleAfterRun i)))
    (hStep :
      s.base.updateScheduleAfterRun i = some base) :
    Inv L (record base s (.updateScheduleAfterRun i)) := by
  unfold State.updateScheduleAfterRun at hStep
  split at hStep
  · rename_i sched now next hGet
    cases hStep
    have hSound := hInv.fires _ (List.mem_of_getElem? hGet)
    have hFind :=
      find?_changeSchedule sched.id (rowAfterRun now next)
        (fun _ => rfl) s.base.db
    simp only [record, hGet]
    refine hInv.store ?_ ?_
      (fun _ hf => List.mem_of_mem_eraseIdx hf)
      (fun _ he => he)
    · intro row hRow
      change
        (changeSchedule sched.id (rowAfterRun now next)
            s.base.db).schedules.find? sched.id =
          some row at hRow
      rw [hFind] at hRow
      rcases Option.map_eq_some_iff.mp hRow with
        ⟨old, hOld, hNew⟩
      rw [if_pos rfl] at hNew
      have hSame : timetable old = timetable sched :=
        hOk _ old hGet hOld
      have hCron : old.cron = sched.cron :=
        congrArg Timetable.cron hSame
      have hZone : old.timezone = sched.timezone :=
        congrArg Timetable.timezone hSame
      rw [← hNew]
      change L.occurs old.cron old.timezone next
      rw [hCron, hZone]
      exact hSound.next next rfl
    · intro k hOther
      exact (hFind k).trans (by simp [hOther])
  · cases hStep

end NextRuns

------------------------------------------------------------
-- Steps Of Requests
------------------------------------------------------------

namespace NextRuns

variable {L : CronLibrary}
variable {s s' : State}
variable {base : Cron.State}

theorem Inv.getSchedule
    {scheduleId tenantId : Uuid}
    {req : UpdateScheduleRequest}
    (hInv : Inv L s)
    (hStep :
      s.base.getSchedule scheduleId tenantId req =
        some base) :
    Inv L { s with base := base } := by
  unfold State.getSchedule at hStep
  split at hStep
  · cases hStep
  rename_i row hRow
  split at hStep
  · cases hStep
    refine hInv.move (fun _ _ h => h) (fun _ hf => .inl hf) ?_
    intro e he
    rcases List.mem_cons.mp he with hNew | hOld
    · rw [hNew]
      refine .inr ⟨(hInv.rows scheduleId row hRow).2, ?_⟩
      intro saved hNone
      cases hNone
    · exact .inl hOld
  · cases hStep

theorem Inv.edit
    {i : Nat}
    (hInv : Inv L s)
    (hOk : regular L s (.base (.edit i)))
    (hStep : s.base.edit L.toParsers i = some base) :
    Inv L (record base s (.edit i)) := by
  unfold State.edit at hStep
  split at hStep
  · rename_i req sched hGet
    rcases Option.map_eq_some_iff.mp hStep with
      ⟨saved, hEdit, hBase⟩
    subst hBase
    have hSound := hInv.edits _ (List.mem_of_getElem? hGet)
    have hBound : i < s.base.edits.length :=
      (List.getElem?_eq_some_iff.mp hGet).1
    rcases editSchedule_cases hEdit with
      ⟨_, _, hCron, hZone, hNext⟩
    have hRecurs :
        recomputes req sched = true →
          L.Recurs saved.cron saved.timezone
            s.base.clock := by
      intro hRecompute
      rw [hCron, hZone]
      exact hOk _ hGet hRecompute
    have hOn : OnTime L saved := by
      rcases hNext with
        ⟨hRecompute, hNext⟩ | ⟨_, hCron, hZone, hSame⟩
      · exact CronLibrary.occurs_next hNext
          (hRecurs hRecompute)
      · unfold OnTime
        rw [hCron, hZone, hSame]
        exact hSound.read
    have hMoved :
        Inv L
          { s with
            base :=
              { s.base with
                edits :=
                  s.base.edits.set i
                    ⟨req, sched, some saved⟩ } } := by
      refine hInv.move (fun _ _ h => h)
        (fun _ hf => .inl hf) ?_
      intro e he
      rcases List.mem_or_eq_of_mem_set he with hOld | hSet
      · exact .inl hOld
      · rw [hSet]
        refine .inr ⟨hSound.read, ?_⟩
        intro saved' hSaved
        cases hSaved
        exact hOn
    simp only [record, hGet, List.getElem?_set_self hBound]
    split
    · rename_i hRecompute
      apply hMoved.hand
      rcases hNext with ⟨_, hNext⟩ | ⟨hNot, _⟩
      · exact (CronLibrary.lt_next_iff hNext).mpr
          (.inl (hRecurs hRecompute))
      · rw [hNot] at hRecompute
        cases hRecompute
    · exact hMoved
  · cases hStep

theorem Inv.updateSchedule
    {i : Nat}
    (hInv : Inv L s)
    (hStep : s.base.updateSchedule i = some base) :
    Inv L (record base s (.updateSchedule i)) := by
  unfold State.updateSchedule at hStep
  split at hStep
  · rename_i req sched saved hGet
    rcases Option.map_eq_some_iff.mp hStep with
      ⟨db, hSave, hBase⟩
    subst hBase
    have hSound := hInv.edits _ (List.mem_of_getElem? hGet)
    have hFind :=
      find?_changeSchedule saved.id (rowAfterEdit saved)
        (fun _ => rfl) s.base.db
    rw [← updateSchedule_eq_some hSave] at hFind
    simp only [record, hGet]
    refine hInv.store ?_ ?_ (fun _ hf => hf)
      (fun _ he => List.mem_of_mem_eraseIdx he)
    · intro row hRow
      change db.schedules.find? saved.id = some row at hRow
      rw [hFind] at hRow
      rcases Option.map_eq_some_iff.mp hRow with
        ⟨old, _, hNew⟩
      rw [if_pos rfl] at hNew
      rw [← hNew]
      exact hSound.saves saved rfl
    · intro k hOther
      exact (hFind k).trans (by simp [hOther])
  · cases hStep

theorem Inv.submit
    {r : Submission}
    (hInv : Inv L s)
    (hStep : s.base.submit L.toParsers r = some base) :
    Inv L { s with base := base } := by
  rcases submit_eq_some hStep with ⟨j, hFresh, _, rfl⟩
  refine hInv.move ?_ (fun _ hf => .inl hf)
    (fun _ he => .inl he)
  intro id row hRow
  rw [schedules_storeJob hFresh] at hRow
  exact hRow

theorem Inv.createSchedule
    {tenantId id : Uuid}
    {now : Time}
    {req : CreateScheduleRequest}
    (hInv : Inv L s)
    (hOk : L.Recurs req.cron req.location now)
    (hStep :
      s.createSchedule L.toRequestParsers tenantId id now
          req =
        some s') :
    Inv L s' := by
  unfold State.createSchedule at hStep
  split at hStep
  · cases hStep
  rename_i sched hCreate
  rcases Option.map_eq_some_iff.mp hStep with
    ⟨db, hInsert, hNew⟩
  subst hNew
  rcases createSchedule_eq_ok hCreate with
    ⟨hId, _, hCron, hZone, hNext⟩
  rcases insertSchedule_eq_some hInsert with ⟨hFree, hDb⟩
  have hFind := Table.find?_insert s.base.db.schedules sched
  have hKey : Keyed.key sched = id := hId
  rw [hKey] at hFind
  rw [hId] at hFree
  have hLater : now < sched.nextRunAt :=
    (CronLibrary.lt_next_iff hNext).mpr (.inl hOk)
  refine Inv.hand (s := { s with base := _, inForce := _ })
    (hInv.store ?_ ?_ (fun _ hf => hf) (fun _ he => he))
    hLater
  · intro row hRow
    rw [hDb] at hRow
    change
      (s.base.db.schedules.insert sched).find? id =
        some row at hRow
    rw [hFind id, if_pos ⟨rfl, hFree⟩] at hRow
    rw [← Option.some.inj hRow]
    unfold OnTime
    rw [hCron, hZone]
    exact CronLibrary.occurs_next hNext hOk
  · intro k hOther
    rw [hDb]
    change (s.base.db.schedules.insert sched).find? k = _
    rw [hFind k, if_neg (fun hBoth => hOther hBoth.1)]

theorem Inv.deleteSchedule
    {tenantId id : Uuid}
    (hInv : Inv L s)
    (hStep : s.deleteSchedule tenantId id = some s') :
    Inv L s' := by
  rcases Option.map_eq_some_iff.mp hStep with
    ⟨db, hDelete, hNew⟩
  subst hNew
  rw [(deleteSchedule_eq_some hDelete).2]
  refine hInv.move ?_ (fun _ hf => .inl hf)
    (fun _ he => .inl he)
  intro k row hRow
  change
    (s.base.db.schedules.delete id).find? k =
      some row at hRow
  rw [Table.find?_delete] at hRow
  split at hRow
  · cases hRow
  · exact hRow

/- One step of any party. -/
theorem Inv.step
    {label : Label}
    (hInv : Inv L s)
    (hOk : regular L s label)
    (hStep :
      NextRuns.step L.toRequestParsers label s = some s') :
    Inv L s' := by
  cases label with
  | base label =>
      rcases Option.map_eq_some_iff.mp hStep with
        ⟨base, hBase, hNew⟩
      subst hNew
      cases label with
      | getDueSchedules => exact hInv.getDueSchedules hBase
      | start => exact hInv.start hOk hBase
      | insertJob => exact hInv.insertJob hBase
      | updateScheduleAfterRun =>
          exact hInv.updateScheduleAfterRun hOk hBase
      | crash i =>
          cases hBase
          exact hInv.move (fun _ _ h => h)
            (fun f hf => .inl (List.mem_of_mem_eraseIdx hf))
            (fun _ he => .inl he)
      | getSchedule => exact hInv.getSchedule hBase
      | edit => exact hInv.edit hOk hBase
      | updateSchedule => exact hInv.updateSchedule hBase
      | cancel i =>
          cases hBase
          exact hInv.move (fun _ _ h => h)
            (fun _ hf => .inl hf)
            (fun e he => .inl (List.mem_of_mem_eraseIdx he))
      | submit => exact hInv.submit hBase
      | tick n =>
          cases hBase
          exact hInv.move (fun _ _ h => h)
            (fun _ hf => .inl hf) (fun _ he => .inl he)
  | createSchedule tenantId id now req =>
      simp only [NextRuns.step] at hStep
      split at hStep
      · exact hInv.createSchedule hOk hStep
      · cases hStep
  | deleteSchedule => exact hInv.deleteSchedule hStep

theorem inv_of_init
    (hInit : init s) :
    Inv L s := by
  rcases hInit with
    ⟨hBase, hRows, hReads, hHanded, hCreated⟩
  refine ⟨?_, ?_, ?_, ?_, ?_, ?_⟩
  · intro id row hRow
    rw [hRows] at hRow
    cases hRow
  · intro f hf
    rw [hBase.2.1] at hf
    cases hf
  · intro e he
    rw [hBase.2.2.1] at he
    cases he
  · intro r hr
    rw [hReads] at hr
    cases hr
  · intro h hh
    rw [hHanded] at hh
    cases hh
  · intro c hc
    rw [hCreated] at hc
    cases hc

/-
  In a run of regular steps, requests store later next runs
  and every job is created for an instant of the timetable
  that was in force.
-/
theorem schedules_fire_at_occurrences
    (L : CronLibrary)
    (s : State)
    (hReach :
      (machine L.toRequestParsers).ReachableWith
        (regular L) s) :
    AtOccurrences L s :=
  atOccurrences_of_inv
    (Machine.ReachableWith.invariant (I := Inv L)
      (fun _ hInit => inv_of_init hInit)
      (fun _ _ _ _ hInv hOk hStep => hInv.step hOk hStep)
      hReach)

------------------------------------------------------------
-- Runs
------------------------------------------------------------

namespace Sample

open SampleLibrary

/- A system without schedules, at time zero. -/
def start : State where
  base :=
    { db :=
        { jobs := Table.empty
          jobRuns := Table.empty
          deadLetter := Table.empty
          schedules := Table.empty
          tenants := Table.empty }
      clock := 0
      fires := []
      edits := []
      templates := []
      history := [] }
  inForce := fun _ => none
  reads := []
  handed := []
  created := []

theorem init_start :
    (machine library.toRequestParsers).init start :=
  ⟨⟨rfl, rfl, rfl, rfl, rfl⟩, rfl, rfl, rfl, rfl⟩

def request (cron : String) : CreateScheduleRequest where
  name := "report"
  cron := cron
  timezone := ""
  jobTemplate := "{}"

/- The request that makes a schedule run every hour. -/
def everyHour : UpdateScheduleRequest where
  enabled := none
  cron := some "0 * * * *"
  timezone := none
  jobTemplate := none

end Sample

open SampleLibrary

/- A schedule is created, and fires a minute later. -/
theorem new_schedule_fires_on_time :
    ∃ s : State, s.created.length = 1 ∧
      AtOccurrences library s := by
  have hStart :
      (machine library.toRequestParsers).ReachableWith
        (regular library) Sample.start :=
    .start Sample.init_start
  have hCreated :=
    hStart.next
      (.createSchedule 1 3 0 (Sample.request "* * * * *"))
      (by exact recurs_everyMinute "UTC" 0) rfl
  have hDue :=
    hCreated.next (.base (.tick 60000000)) (by trivial) rfl
  have hRead :=
    hDue.next (.base (.getDueSchedules 3)) (by trivial) rfl
  have hStarted :=
    hRead.next (.base (.start 0))
      (by
        intro f hGet
        cases hGet
        exact recurs_everyMinute _ _)
      rfl
  have hFired :=
    hStarted.next (.base (.insertJob 0 7)) (by trivial) rfl
  exact ⟨_, rfl,
    schedules_fire_at_occurrences library _ hFired⟩

/- A job was created for an instant that does not match. -/
def OffTime (L : CronLibrary) (s : State) : Prop :=
  ∃ c ∈ s.created, ∃ t, (c.1, some t) ∈ s.reads ∧
    ¬L.occurs t.cron t.timezone c.1.nextRunAt

theorem not_atOccurrences_of_offTime
    {L : CronLibrary}
    {s : State}
    (hOff : OffTime L s) :
    ¬AtOccurrences L s := by
  intro hAt
  rcases hOff with ⟨c, hCreated, t, hRead, hNot⟩
  rcases hAt.occurs c hCreated (some t) hRead with
    ⟨t', hSame, hOccurs⟩
  rw [← Option.some.inj hSame] at hOccurs
  exact hNot hOccurs

/- Whether the record has such a job of the sample library. -/
def Sample.offTime (s : State) : Bool :=
  s.created.any
    (fun c =>
      s.reads.any
        (fun r =>
          decide (r.1 = c.1) &&
            r.2.any
              (fun t =>
                (period? t.cron).all
                  (fun period =>
                    c.1.nextRunAt % period ≠ 0))))

theorem Sample.offTime_sound
    {s : State}
    (hOff : Sample.offTime s = true) :
    OffTime library s := by
  rcases List.any_eq_true.mp hOff with ⟨c, hCreated, hAny⟩
  rcases List.any_eq_true.mp hAny with ⟨r, hRead, hBoth⟩
  rcases Bool.and_eq_true_iff.mp hBoth with ⟨hRow, hSome⟩
  rw [Option.any_eq_true] at hSome
  rcases hSome with ⟨t, hForce, hAll⟩
  have hPair : r = (c.1, some t) :=
    Prod.ext (of_decide_eq_true hRow) hForce
  refine ⟨c, hCreated, t, hPair ▸ hRead, ?_⟩
  rintro ⟨period, hPeriod, hZero⟩
  rw [hPeriod, Option.all_some] at hAll
  exact of_decide_eq_true hAll hZero

/-
  A schedule for day 30 of month 2 is due at once, and fires
  at an instant that its expression does not match.
-/
theorem never_matching_schedule_fires :
    ∃ s, (machine library.toRequestParsers).Reachable s ∧
      (∃ h ∈ s.handed, h.2.nextRunAt ≤ h.1) ∧
        OffTime library s ∧ ¬AtOccurrences library s := by
  rcases
    Machine.exists_reachable_of_run Sample.init_start
      [.createSchedule 1 3 0
          (Sample.request "0 0 30 2 *"),
        .base (.getDueSchedules 3), .base (.start 0),
        .base (.insertJob 0 7)]
      (fun s =>
        (∃ h ∈ s.handed, h.2.nextRunAt ≤ h.1) ∧
          Sample.offTime s = true)
      (by decide +kernel)
  with ⟨s, hReach, hPast, hOff⟩
  have hOffTime := Sample.offTime_sound hOff
  refine ⟨s, hReach, ?_, hOffTime,
    not_atOccurrences_of_offTime hOffTime⟩
  simpa using hPast

/-
  A leader that stores the next run of a timetable that has
  been changed meanwhile makes the schedule fire at an
  instant of the old one.
-/
theorem stale_leader_fires_off_time :
    ∃ s, (machine library.toRequestParsers).Reachable s ∧
      (∀ h ∈ s.handed, h.1 < h.2.nextRunAt) ∧
        OffTime library s := by
  rcases
    Machine.exists_reachable_of_run Sample.init_start
      [.createSchedule 1 3 0
          (Sample.request "* * * * *"),
        .base (.tick 60000000),
        .base (.getDueSchedules 3), .base (.start 0),
        .base (.insertJob 0 7),
        .base (.getSchedule 3 1 Sample.everyHour),
        .base (.edit 0), .base (.updateSchedule 0),
        .base (.updateScheduleAfterRun 0),
        .base (.tick 60000000),
        .base (.getDueSchedules 3), .base (.start 0),
        .base (.insertJob 0 8)]
      (fun s =>
        (∀ h ∈ s.handed, h.1 < h.2.nextRunAt) ∧
          Sample.offTime s = true)
      (by decide +kernel)
  with ⟨s, hReach, hLater, hOff⟩
  exact ⟨s, hReach, hLater, Sample.offTime_sound hOff⟩

end NextRuns

end Cron

end Scheduler

end Sluice
