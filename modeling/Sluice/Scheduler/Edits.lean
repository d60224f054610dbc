import Sluice.Scheduler.Cron

/-
  Two requests that edit one schedule at the same time.

  `handleUpdateSchedule` reads the row with `GetSchedule`,
  edits it in memory and writes every column back with
  `UpdateSchedule`. The two statements of a request and those
  of another one interleave in any order.

  Key definitions include:
    * `Fields` and `UpdateScheduleRequest.apply`
    * `Interleaves`
    * `Editing` and `Editing.step`
    * `BothApplied`
    * `NothingLost`

  Key theorems include:
    * `fields_of_separate`
    * `fields_of_overlapping`
    * `both_applied_iff_nothing_lost`
-/

------------------------------------------------------------
-- Requests
------------------------------------------------------------

namespace Sluice

namespace Scheduler

namespace Cron

open Foundations Storage

/- The columns that a request can set. -/
structure Fields where
  enabled : Bool
  cron : String
  timezone : String
  jobTemplate : String
deriving DecidableEq, Repr

def fieldsOf (sched : Schedule) : Fields where
  enabled := sched.enabled
  cron := sched.cron
  timezone := sched.timezone
  jobTemplate := sched.jobTemplate

namespace UpdateScheduleRequest

/- What a request asks for. -/
def apply
    (req : UpdateScheduleRequest)
    (f : Fields) :
    Fields where
  enabled := req.enabled.getD f.enabled
  cron := req.cron.getD f.cron
  timezone := req.timezone.getD f.timezone
  jobTemplate := req.jobTemplate.getD f.jobTemplate

/- No column is set by both requests. -/
def Disjoint (a b : UpdateScheduleRequest) : Prop :=
  (a.enabled = none ∨ b.enabled = none) ∧
    (a.cron = none ∨ b.cron = none) ∧
      (a.timezone = none ∨ b.timezone = none) ∧
        (a.jobTemplate = none ∨ b.jobTemplate = none)

/- The request asks for what is there already. -/
def Idle (req : UpdateScheduleRequest) (f : Fields) : Prop :=
  (∀ v, req.enabled = some v → v = f.enabled) ∧
    (∀ v, req.cron = some v → v = f.cron) ∧
      (∀ v, req.timezone = some v → v = f.timezone) ∧
        ∀ v, req.jobTemplate = some v → v = f.jobTemplate

end UpdateScheduleRequest

------------------------------------------------------------
-- Interleavings
------------------------------------------------------------

/- All ways to interleave two lists. -/
inductive Interleaves
    {A : Type} :
    List A → List A → List A → Prop
| nil : Interleaves [] [] []
| left {a : A} {l r o : List A} :
    Interleaves l r o → Interleaves (a :: l) r (a :: o)
| right {a : A} {l r o : List A} :
    Interleaves l r o → Interleaves l (a :: r) (a :: o)

theorem Interleaves.eq_of_nil_left
    {A : Type}
    {r o : List A}
    (hOrder : Interleaves [] r o) :
    o = r := by
  induction r generalizing o with
  | nil =>
      cases hOrder
      rfl
  | cons a r ih =>
      cases hOrder with
      | right hRest => rw [ih hRest]

theorem Interleaves.eq_of_nil_right
    {A : Type}
    {l o : List A}
    (hOrder : Interleaves l [] o) :
    o = l := by
  induction l generalizing o with
  | nil =>
      cases hOrder
      rfl
  | cons a l ih =>
      cases hOrder with
      | left hRest => rw [ih hRest]

inductive Side
| left
| right
deriving DecidableEq, Repr

def Side.other : Side → Side
| .left => .right
| .right => .left

theorem Side.other_other
    (side : Side) :
    side.other.other = side := by
  cases side <;> rfl

theorem Side.eq_or_other
    (side any : Side) :
    any = side ∨ any = side.other := by
  cases side <;> cases any <;> decide

/- A request's two statements. -/
inductive EditStep
| getSchedule (side : Side)
| updateSchedule (side : Side)
deriving DecidableEq, Repr

/- A request, and the time at which it is handled. -/
structure Patch where
  req : UpdateScheduleRequest
  now : Time
deriving DecidableEq, Repr

/- How far a request is. -/
inductive Progress
| received
| read (sched : Schedule)
| answered
deriving DecidableEq, Repr

structure Editing where
  db : Db
  progress : Side → Progress

namespace Editing

def start (db : Db) : Editing where
  db := db
  progress := fun _ => .received

/-
  One statement; `none` if the request is not accepted. Both
  requests are for one schedule of one tenant.
-/
def step
    (P : Parsers)
    (patches : Side → Patch)
    (scheduleId tenantId : Uuid)
    (s : Editing) :
    EditStep → Option Editing
| .getSchedule side =>
    match s.progress side,
      s.db.schedules.find? scheduleId with
    | .received, some row =>
        if row.tenantId = tenantId then
          some
            { s with
              progress :=
                Function.update s.progress side (.read row) }
        else none
    | _, _ => none
| .updateSchedule side =>
    match s.progress side with
    | .read sched =>
        (editSchedule P (patches side).req
          (patches side).now sched).bind
          (fun saved =>
            (Cron.updateSchedule saved s.db).map
              (fun db =>
                { db := db
                  progress :=
                    Function.update s.progress side
                      .answered }))
    | _ => none

def run
    (P : Parsers)
    (patches : Side → Patch)
    (scheduleId tenantId : Uuid) :
    List EditStep → Editing → Option Editing
| [], s => some s
| label :: order, s =>
    (s.step P patches scheduleId tenantId label).bind
      (run P patches scheduleId tenantId order)

end Editing

/- The statements of a request, in their order. -/
def statementsOf (side : Side) : List EditStep :=
  [.getSchedule side, .updateSchedule side]

/-
  The row in the end is what both requests make of the row at
  the start.
-/
def BothApplied
    (patches : Side → Patch)
    (before after : Schedule) :
    Prop :=
  fieldsOf after =
    (patches .right).req.apply
      ((patches .left).req.apply (fieldsOf before))

/-
  If both requests read the row before one of them writes it,
  then the one that writes first asks for nothing new.
-/
def NothingLost
    (patches : Side → Patch)
    (order : List EditStep)
    (before : Schedule) :
    Prop :=
  ∀ side,
    (∀ any, EditStep.getSchedule any ∈ order.take 2) →
      order[2]? = some (.updateSchedule side) →
        (patches side).req.Idle (fieldsOf before)

------------------------------------------------------------
-- Effects Of The Statements
------------------------------------------------------------

open Foundations Storage UpdateScheduleRequest

section

variable {P : Parsers}
variable {patches : Side → Patch}
variable {scheduleId tenantId : Uuid}

/- The row that is stored, but for its next run. -/
theorem fieldsOf_editSchedule
    {req : UpdateScheduleRequest}
    {now : Time}
    {sched saved : Schedule}
    (hEdit : editSchedule P req now sched = some saved) :
    fieldsOf saved = req.apply (fieldsOf sched) ∧
      saved.id = sched.id := by
  unfold editSchedule at hEdit
  simp only at hEdit
  split at hEdit
  · split at hEdit
    · rcases Option.map_eq_some_iff.mp hEdit with
        ⟨next, _, rfl⟩
      exact ⟨rfl, rfl⟩
    · cases hEdit
      exact ⟨rfl, rfl⟩
  · cases hEdit

/- All columns at issue are overwritten. -/
theorem find?_updateSchedule
    {saved : Schedule}
    {db db' : Db}
    (hUpdate : updateSchedule saved db = some db') :
    ∃ row, db.schedules.find? saved.id = some row ∧
      db'.schedules.find? saved.id =
        some (rowAfterEdit saved row) := by
  unfold updateSchedule at hUpdate
  split at hUpdate
  · cases hUpdate
    cases hFind : db.schedules.find? saved.id with
    | none =>
        rename_i hAny
        rw [hFind] at hAny
        cases hAny
    | some row =>
        refine ⟨row, rfl, ?_⟩
        have hKey :
            saved.id = Keyed.key (rowAfterEdit saved row) :=
          (Table.key_of_find? hFind).symm
        unfold changeSchedule
        rw [hFind]
        change (db.schedules.put _).find? _ = _
        rw [Table.find?_put, if_pos hKey, hFind]
        rfl
  · cases hUpdate

theorem step_getSchedule
    {s s' : Editing}
    {side : Side}
    (hStep :
      s.step P patches scheduleId tenantId
          (.getSchedule side) =
        some s') :
    ∃ row, s.db.schedules.find? scheduleId = some row ∧
      s'.db = s.db ∧ s'.progress side = .read row ∧
        s'.progress side.other = s.progress side.other := by
  simp only [Editing.step] at hStep
  split at hStep
  · rename_i row _ hFind
    split at hStep
    · cases hStep
      refine ⟨row, hFind, rfl, ?_, ?_⟩
      · exact Function.update_self _ _ _
      · apply Function.update_of_ne
        cases side <;> decide
    · cases hStep
  · cases hStep

theorem step_updateSchedule
    {s s' : Editing}
    {side : Side}
    {sched : Schedule}
    (hRead : s.progress side = .read sched)
    (hId : sched.id = scheduleId)
    (hStep :
      s.step P patches scheduleId tenantId
          (.updateSchedule side) =
        some s') :
    (∃ row, s'.db.schedules.find? scheduleId = some row ∧
      fieldsOf row =
        (patches side).req.apply (fieldsOf sched)) ∧
      s'.progress side.other = s.progress side.other := by
  simp only [Editing.step, hRead] at hStep
  rcases Option.bind_eq_some_iff.mp hStep with
    ⟨saved, hEdit, hRest⟩
  rcases Option.map_eq_some_iff.mp hRest with
    ⟨db, hUpdate, rfl⟩
  rcases fieldsOf_editSchedule hEdit with
    ⟨hFields, hSame⟩
  rcases find?_updateSchedule hUpdate with
    ⟨row, _, hAfter⟩
  rw [hSame, hId] at hAfter
  refine ⟨⟨_, hAfter, hFields⟩, ?_⟩
  apply Function.update_of_ne
  cases side <;> decide

end

------------------------------------------------------------
-- The Two Kinds Of Interleavings
------------------------------------------------------------

section

variable {P : Parsers}
variable {patches : Side → Patch}
variable {scheduleId tenantId : Uuid}
variable {db : Db}
variable {before after : Schedule}
variable {s : Editing}

/- A request that reads the other's row adds to it. -/
theorem fields_of_separate
    {side : Side}
    (hBefore : db.schedules.find? scheduleId = some before)
    (hRun :
      Editing.run P patches scheduleId tenantId
          (statementsOf side ++ statementsOf side.other)
          (Editing.start db) =
        some s)
    (hAfter : s.db.schedules.find? scheduleId = some after) :
    fieldsOf after =
      (patches side.other).req.apply
        ((patches side).req.apply (fieldsOf before)) := by
  simp only [statementsOf, List.cons_append, List.nil_append,
    Editing.run] at hRun
  rcases Option.bind_eq_some_iff.mp hRun with
    ⟨s₁, hRead₁, hRun⟩
  rcases Option.bind_eq_some_iff.mp hRun with
    ⟨s₂, hWrite₁, hRun⟩
  rcases Option.bind_eq_some_iff.mp hRun with
    ⟨s₃, hRead₂, hRun⟩
  rcases Option.bind_eq_some_iff.mp hRun with
    ⟨s₄, hWrite₂, hEnd⟩
  cases hEnd
  rcases step_getSchedule hRead₁ with
    ⟨row₁, hRow₁, _, hProgress₁, _⟩
  have hSame : row₁ = before :=
    Option.some.inj (hRow₁.symm.trans hBefore)
  subst hSame
  rcases step_updateSchedule hProgress₁
      (Table.key_of_find? hRow₁) hWrite₁ with
    ⟨⟨row₂, hRow₂, hFields₂⟩, _⟩
  rcases step_getSchedule hRead₂ with
    ⟨row₃, hRow₃, _, hProgress₃, _⟩
  have hSame : row₃ = row₂ :=
    Option.some.inj (hRow₃.symm.trans hRow₂)
  subst hSame
  rcases step_updateSchedule hProgress₃
      (Table.key_of_find? hRow₃) hWrite₂ with
    ⟨⟨row₄, hRow₄, hFields₄⟩, _⟩
  have hSame : row₄ = after :=
    Option.some.inj (hRow₄.symm.trans hAfter)
  subst hSame
  rw [hFields₄, hFields₂]

/- Of two requests that read the same row, the last stands. -/
theorem fields_of_overlapping
    {first side : Side}
    (hBefore : db.schedules.find? scheduleId = some before)
    (hRun :
      Editing.run P patches scheduleId tenantId
          [.getSchedule first, .getSchedule first.other,
            .updateSchedule side,
            .updateSchedule side.other]
          (Editing.start db) =
        some s)
    (hAfter : s.db.schedules.find? scheduleId = some after) :
    fieldsOf after =
      (patches side.other).req.apply (fieldsOf before) := by
  simp only [Editing.run] at hRun
  rcases Option.bind_eq_some_iff.mp hRun with
    ⟨s₁, hRead₁, hRun⟩
  rcases Option.bind_eq_some_iff.mp hRun with
    ⟨s₂, hRead₂, hRun⟩
  rcases Option.bind_eq_some_iff.mp hRun with
    ⟨s₃, hWrite₁, hRun⟩
  rcases Option.bind_eq_some_iff.mp hRun with
    ⟨s₄, hWrite₂, hEnd⟩
  cases hEnd
  rcases step_getSchedule hRead₁ with
    ⟨row₁, hRow₁, hDb₁, hProgress₁, _⟩
  rcases step_getSchedule hRead₂ with
    ⟨row₂, hRow₂, hDb₂, hProgress₂, hKept₂⟩
  have hSame₁ : row₁ = before :=
    Option.some.inj (hRow₁.symm.trans hBefore)
  have hSame₂ : row₂ = before := by
    rw [hDb₁] at hRow₂
    exact Option.some.inj (hRow₂.symm.trans hBefore)
  subst hSame₁
  subst hSame₂
  have hBoth : ∀ any, s₂.progress any = .read row₂ := by
    intro any
    rw [Side.other_other] at hKept₂
    rcases first.eq_or_other any with rfl | rfl
    · exact hKept₂.trans hProgress₁
    · exact hProgress₂
  rcases step_updateSchedule (hBoth side)
      (Table.key_of_find? hBefore) hWrite₁ with
    ⟨_, hKept₃⟩
  rw [hBoth side.other] at hKept₃
  rcases step_updateSchedule hKept₃
      (Table.key_of_find? hBefore) hWrite₂ with
    ⟨⟨row₄, hRow₄, hFields₄⟩, _⟩
  have hSame : row₄ = after :=
    Option.some.inj (hRow₄.symm.trans hAfter)
  subst hSame
  exact hFields₄

------------------------------------------------------------
-- Lost Edits
------------------------------------------------------------

variable {a b : UpdateScheduleRequest}

/- Disjoint requests may be applied in either order. -/
theorem apply_comm
    (hDisjoint : a.Disjoint b)
    (f : Fields) :
    a.apply (b.apply f) = b.apply (a.apply f) := by
  rcases hDisjoint with
    ⟨hEnabled, hCron, hTimezone, hTemplate⟩
  simp only [apply, Fields.mk.injEq]
  refine ⟨?_, ?_, ?_, ?_⟩
  · rcases hEnabled with hNone | hNone <;> simp [hNone]
  · rcases hCron with hNone | hNone <;> simp [hNone]
  · rcases hTimezone with hNone | hNone <;> simp [hNone]
  · rcases hTemplate with hNone | hNone <;> simp [hNone]

/- One column: nothing is lost if nothing was asked for. -/
theorem getD_getD_iff
    {A : Type}
    {a b : Option A}
    {v : A}
    (hDisjoint : a = none ∨ b = none) :
    b.getD v = b.getD (a.getD v) ↔
      ∀ w, a = some w → w = v := by
  rcases hDisjoint with hNone | hNone
  · subst hNone
    simp
  · subst hNone
    cases a with
    | none => simp
    | some w => simp [eq_comm]

theorem apply_eq_apply_iff
    (hDisjoint : a.Disjoint b)
    (f : Fields) :
    b.apply f = b.apply (a.apply f) ↔ a.Idle f := by
  rcases hDisjoint with
    ⟨hEnabled, hCron, hTimezone, hTemplate⟩
  simp only [apply, Fields.mk.injEq]
  rw [getD_getD_iff hEnabled, getD_getD_iff hCron,
    getD_getD_iff hTimezone, getD_getD_iff hTemplate]
  rfl

theorem UpdateScheduleRequest.Disjoint.symm
    (hDisjoint : a.Disjoint b) :
    b.Disjoint a := by
  rcases hDisjoint with
    ⟨hEnabled, hCron, hTimezone, hTemplate⟩
  exact ⟨hEnabled.symm, hCron.symm, hTimezone.symm,
    hTemplate.symm⟩

/- What both requests ask for, from either side. -/
theorem bothApplied_iff
    (hDisjoint :
      (patches .left).req.Disjoint (patches .right).req)
    (side : Side) :
    BothApplied patches before after ↔
      fieldsOf after =
        (patches side.other).req.apply
          ((patches side).req.apply (fieldsOf before)) := by
  cases side with
  | left => rfl
  | right =>
      unfold BothApplied
      rw [apply_comm hDisjoint.symm]
      rfl

/- Every interleaving is separate or overlapping. -/
theorem interleaving_cases
    {order : List EditStep}
    (hOrder :
      Interleaves (statementsOf .left) (statementsOf .right)
        order) :
    (∃ side,
      order = statementsOf side ++ statementsOf side.other) ∨
      ∃ first side,
        order =
          [.getSchedule first, .getSchedule first.other,
            .updateSchedule side,
            .updateSchedule side.other] := by
  unfold statementsOf at hOrder
  cases hOrder with
  | left hRest =>
      cases hRest with
      | left hRest =>
          rw [hRest.eq_of_nil_left]
          exact .inl ⟨.left, rfl⟩
      | right hRest =>
          cases hRest with
          | left hRest =>
              rw [hRest.eq_of_nil_left]
              exact .inr ⟨.left, .left, rfl⟩
          | right hRest =>
              rw [hRest.eq_of_nil_right]
              exact .inr ⟨.left, .right, rfl⟩
  | right hRest =>
      cases hRest with
      | right hRest =>
          rw [hRest.eq_of_nil_right]
          exact .inl ⟨.right, rfl⟩
      | left hRest =>
          cases hRest with
          | left hRest =>
              rw [hRest.eq_of_nil_left]
              exact .inr ⟨.right, .left, rfl⟩
          | right hRest =>
              rw [hRest.eq_of_nil_right]
              exact .inr ⟨.right, .right, rfl⟩

/-
  Two accepted requests for different columns are both in
  the final row exactly when the first of two overlapping
  requests asked for nothing new.
-/
theorem both_applied_iff_nothing_lost
    (P : Parsers)
    (patches : Side → Patch)
    (scheduleId tenantId : Uuid)
    (db : Db)
    (order : List EditStep)
    (s : Editing)
    (before after : Schedule)
    (hDisjoint :
      (patches .left).req.Disjoint (patches .right).req)
    (hOrder :
      Interleaves (statementsOf .left) (statementsOf .right)
        order)
    (hBefore : db.schedules.find? scheduleId = some before)
    (hRun :
      Editing.run P patches scheduleId tenantId order
          (Editing.start db) =
        some s)
    (hAfter : s.db.schedules.find? scheduleId = some after) :
    BothApplied patches before after ↔
      NothingLost patches order before := by
  rcases interleaving_cases hOrder with
    ⟨side, rfl⟩ | ⟨first, side, rfl⟩
  · have hFields := fields_of_separate hBefore hRun hAfter
    apply iff_of_true
    · exact (bothApplied_iff hDisjoint side).mpr hFields
    · intro any hReads
      have hOther := hReads side.other
      cases side <;> simp [statementsOf, Side.other] at hOther
  · have hFields :=
      fields_of_overlapping hBefore hRun hAfter
    have hBoth :
        (patches side).req.Disjoint
          (patches side.other).req := by
      cases side with
      | left => exact hDisjoint
      | right => exact hDisjoint.symm
    rw [bothApplied_iff hDisjoint side, hFields,
      apply_eq_apply_iff hBoth]
    constructor
    · intro hIdle any _ hThird
      cases hThird
      exact hIdle
    · intro hLost
      apply hLost side _ rfl
      intro any
      rcases first.eq_or_other any with rfl | rfl
      · exact List.mem_cons_self
      · exact List.mem_cons_of_mem _ List.mem_cons_self

end

------------------------------------------------------------
-- A Pause That Is Undone
------------------------------------------------------------

namespace EditSample

/- Every expression fires a minute later. -/
def parsers : Parsers where
  next := fun _ _ now => some (now + 60 * second)
  template := fun _ => none
  validateWebhookPayload := fun _ => .ok ()

def schedule : Schedule where
  id := 1
  tenantId := 1
  name := "nightly"
  cron := "0 0 * * *"
  timezone := "UTC"
  jobTemplate := ""
  enabled := true
  lastRunAt := none
  nextRunAt := 60 * second

def db : Db where
  jobs := Table.empty
  jobRuns := Table.empty
  deadLetter := Table.empty
  schedules := Table.empty.insert schedule
  tenants := Table.empty

/- One request pauses the schedule, the other one moves it. -/
def patches : Side → Patch
| .left => ⟨⟨some false, none, none, none⟩, 0⟩
| .right => ⟨⟨none, some "0 5 * * *", none, none⟩, 0⟩

def finalFields (order : List EditStep) : Option Fields :=
  (Editing.run parsers patches 1 1 order
    (Editing.start db)).bind
    (fun s => (s.db.schedules.find? 1).map fieldsOf)

end EditSample

open EditSample in
/-
  Both requests read the row; the pause is stored, and then
  overwritten by the other request.
-/
theorem concurrent_edit_undoes_pause :
    Interleaves (statementsOf .left) (statementsOf .right)
        [.getSchedule .left, .getSchedule .right,
          .updateSchedule .left, .updateSchedule .right] ∧
      (patches .left).req.Disjoint (patches .right).req ∧
      finalFields
          [.getSchedule .left, .getSchedule .right,
            .updateSchedule .left, .updateSchedule .right] =
        some ⟨true, "0 5 * * *", "UTC", ""⟩ ∧
      finalFields
          (statementsOf .left ++ statementsOf .right) =
        some ⟨false, "0 5 * * *", "UTC", ""⟩ := by
  refine ⟨?_, ?_, by decide +kernel, by decide +kernel⟩
  · exact .left (.right (.left (.right .nil)))
  · exact ⟨.inr rfl, .inl rfl, .inl rfl, .inl rfl⟩

open EditSample in
/- One after the other, both are applied. -/
theorem separate_edits_both_applied :
    ∃ s after,
      Editing.run parsers patches 1 1
          (statementsOf .left ++ statementsOf .right)
          (Editing.start db) =
        some s ∧
      s.db.schedules.find? 1 = some after ∧
        BothApplied patches schedule after := by
  have hFinal :
      finalFields
          (statementsOf .left ++ statementsOf .right) =
        some ⟨false, "0 5 * * *", "UTC", ""⟩ := by
    decide +kernel
  rcases Option.bind_eq_some_iff.mp hFinal with
    ⟨s, hRun, hMap⟩
  rcases Option.map_eq_some_iff.mp hMap with
    ⟨after, hAfter, _⟩
  refine ⟨s, after, hRun, hAfter, ?_⟩
  refine (both_applied_iff_nothing_lost parsers patches 1 1
    db _ s schedule after ?_ ?_ ?_ hRun hAfter).mpr ?_
  · exact ⟨.inr rfl, .inl rfl, .inl rfl, .inl rfl⟩
  · exact .left (.left (.right (.right .nil)))
  · decide +kernel
  · intro side hReads
    have hRight := hReads .right
    simp [statementsOf] at hRight

end Cron

end Scheduler

end Sluice
