import Sluice.Scheduler.Cron
import Sluice.Storage.Insertion

/-
  Every occurrence of a schedule gets one job.

  The key of an occurrence keeps it from getting two. It may
  get none if its next run is overwritten by a leader or by a
  request that never read it, or if a tenant submits a job
  under the key; in all other runs a leader that stores the
  next run has the job of the one it replaces.

  Main declarations:
    * `occurrenceKey_inj`
    * `OccurrencesKept`
    * `undisturbed`
    * `Inv` and `Inv.step`
    * `occurrences_kept_of_undisturbed`
    * `edit_drops_occurrence`
-/

------------------------------------------------------------
-- Occurrence Keys
------------------------------------------------------------

namespace Sluice

namespace Scheduler

namespace Cron

/- Keys that start as those of a schedule's occurrences do. -/
def reservedKey (scheduleId : Uuid) (key : String) : Bool :=
  ("schedule:" ++ (Nat.repr scheduleId ++ ":")).toList
    |>.isPrefixOf key.toList

theorem reservedKey_occurrenceKey
    (scheduleId : Uuid)
    (occurrence : Time) :
    reservedKey scheduleId
        (occurrenceKey scheduleId occurrence) =
      true := by
  unfold reservedKey occurrenceKey
  refine List.isPrefixOf_iff_prefix.mpr
    ⟨(Int.repr occurrence.unix).toList, ?_⟩
  simp only [String.toList_append, List.append_assoc]

theorem notMem_natRepr
    {c : Char}
    (hNot : c.isDigit = false)
    (n : Nat) :
    c ∉ (Nat.repr n).toList := by
  rw [Nat.repr_eq_ofList_toDigits, String.toList_ofList]
  intro hMem
  have hDigit :=
    Nat.isDigit_of_mem_toDigits
      (Nat.succ_pos 9) (le_refl 10) hMem
  rw [hNot] at hDigit
  cases hDigit

theorem colon_notMem_intRepr
    (z : Int) :
    ':' ∉ (Int.repr z).toList := by
  cases z with
  | ofNat n => exact notMem_natRepr (by decide) n
  | negSucc n =>
      intro hMem
      change
        ':' ∈ ("-" ++ Nat.repr (n + 1)).toList at hMem
      rw [String.toList_append] at hMem
      rcases List.mem_append.mp hMem with hSign | hDigits
      · revert hSign
        decide
      · exact notMem_natRepr (by decide) (n + 1) hDigits

theorem eq_of_natRepr
    {n n' : Nat}
    (hSame : Nat.repr n = Nat.repr n') :
    n = n' := by
  rw [Nat.repr_eq_ofList_toDigits,
    Nat.repr_eq_ofList_toDigits] at hSame
  have hDigits := String.ofList_injective hSame
  have hRead :=
    congrArg (fun text => Nat.ofDigitChars 10 text 0) hDigits
  rw [Nat.ofDigitChars_ten_toDigits,
    Nat.ofDigitChars_ten_toDigits] at hRead
  exact hRead

/- The digits of a number do not start with a sign. -/
theorem eq_of_intRepr
    {z z' : Int}
    (hSame : Int.repr z = Int.repr z') :
    z = z' := by
  have hSign :
      ∀ n m : Nat, Nat.repr n ≠ "-" ++ Nat.repr m := by
    intro n m hEq
    have hMem : '-' ∈ (Nat.repr n).toList := by
      rw [hEq, String.toList_append]
      exact List.mem_append_left _ (by decide)
    exact notMem_natRepr (by decide) n hMem
  cases z with
  | ofNat n =>
      cases z' with
      | ofNat n' => exact congrArg _ (eq_of_natRepr hSame)
      | negSucc n' => exact absurd hSame (hSign n (n' + 1))
  | negSucc n =>
      cases z' with
      | ofNat n' =>
          exact absurd hSame.symm (hSign n' (n + 1))
      | negSucc n' =>
          have hNat :=
            eq_of_natRepr (String.append_right_inj _ |>.mp hSame)
          exact congrArg _ (Nat.succ.inj hNat)

/- A key determines its schedule and its second. -/
theorem occurrenceKey_inj
    {scheduleId scheduleId' : Uuid}
    {occurrence occurrence' : Time}
    (hKey :
      occurrenceKey scheduleId occurrence =
        occurrenceKey scheduleId' occurrence') :
    scheduleId = scheduleId' ∧
      occurrence.unix = occurrence'.unix := by
  have hRest := String.append_right_inj _ |>.mp hKey
  have hLists := congrArg String.toList hRest
  have hColon : ":".toList = [':'] := rfl
  simp only [String.toList_append, hColon,
    List.singleton_append] at hLists
  have hParts :=
    (List.append_cons_inj_of_notMem
      (notMem_natRepr (by decide) scheduleId)
      (colon_notMem_intRepr occurrence.unix)).mp hLists
  refine ⟨?_, ?_⟩
  · exact eq_of_natRepr (String.toList_inj.mp hParts.1)
  · exact eq_of_intRepr (String.toList_inj.mp hParts.2.2)

------------------------------------------------------------
-- Occurrences And Their Jobs
------------------------------------------------------------

open Foundations Storage

section

variable (P : Parsers)

/-
  The job was built for the occurrence, from a template that
  the schedule has had.
-/
def BuiltFor
    (templates : List (Uuid × String))
    (scheduleId tenantId : Uuid)
    (occurrence : Time)
    (j : Job) :
    Prop :=
  ∃ raw t jobId now built,
    (scheduleId, raw) ∈ templates ∧
      P.template raw = some t ∧
        cronJob P.validateWebhookPayload t tenantId jobId
            now (occurrenceKey scheduleId occurrence) =
          .ok built ∧
        j = built.inserted

/-
  If the statement left another next run than it found, and
  did not recompute it, the job of the one it found existed.
-/
def Overwrite.Kept (w : Overwrite) : Prop :=
  w.recomputed = false →
    ∀ row row',
      w.before.schedules.find? w.scheduleId = some row →
        w.after.schedules.find? w.scheduleId = some row' →
          row'.nextRunAt ≠ row.nextRunAt →
            ∃ j ∈ w.before.jobs.rows,
              BuiltFor P w.templates row.id row.tenantId
                row.nextRunAt j

/- An occurrence has one job at most, and none is lost. -/
structure OccurrencesKept (s : State) : Prop where
  once :
    ∀ sched ∈ s.db.schedules.rows, ∀ occurrence,
      ∀ j ∈ s.db.jobs.rows, ∀ j' ∈ s.db.jobs.rows,
        j.tenantId = sched.tenantId →
          j'.tenantId = sched.tenantId →
            j.idempotencyKey =
                some (occurrenceKey sched.id occurrence) →
              j'.idempotencyKey =
                  some
                    (occurrenceKey sched.id occurrence) →
                j = j'
  kept : ∀ w ∈ s.history, w.Kept P

/-
  A statement that stores a next run without recomputing it
  finds the one that was read, or the one that it stores; and
  no tenant submits a job under a key that starts as those of
  the occurrences of one of its schedules do.
-/
def undisturbed (s : State) : Label → Bool
| .updateScheduleAfterRun i =>
    match s.fires[i]? with
    | some ⟨sched, .inserted _ next⟩ =>
        (s.db.schedules.find? sched.id).all
          (fun row =>
            row.nextRunAt = sched.nextRunAt ||
              row.nextRunAt = next)
    | _ => true
| .updateSchedule i =>
    match s.edits[i]? with
    | some ⟨req, sched, some _⟩ =>
        recomputes req sched ||
          (s.db.schedules.find? sched.id).all
            (fun row => row.nextRunAt = sched.nextRunAt)
    | _ => true
| .submit r =>
    r.idempotencyKey.all
      (fun key =>
        s.db.schedules.rows.all
          (fun row =>
            row.tenantId ≠ r.tenantId ||
              !reservedKey row.id key))
| _ => true

end

------------------------------------------------------------
-- What The Statements Change
------------------------------------------------------------

section

variable {P : Parsers}

theorem jobs_changeSchedule
    (id : Uuid)
    (change : Schedule → Schedule)
    (db : Db) :
    (changeSchedule id change db).jobs = db.jobs := by
  unfold changeSchedule
  split <;> rfl

theorem find?_changeSchedule
    (id : Uuid)
    (change : Schedule → Schedule)
    (hId : ∀ row, (change row).id = row.id)
    (db : Db)
    (k : Uuid) :
    (changeSchedule id change db).schedules.find? k =
      (db.schedules.find? k).map
        (fun row => if k = id then change row else row) := by
  unfold changeSchedule
  cases hFind : db.schedules.find? id with
  | none =>
      by_cases hKey : k = id
      · rw [hKey]
        simp [hFind]
      · simp [hKey]
  | some row =>
      have hRow : row.id = id := Table.key_of_find? hFind
      have hNew :
          Keyed.key (change row) = id := (hId row).trans hRow
      change (db.schedules.put (change row)).find? k = _
      rw [Table.find?_put, hNew]
      by_cases hKey : k = id
      · rw [hKey]
        simp [hFind]
      · simp [hKey]

theorem updateSchedule_eq_some
    {sched : Schedule}
    {db db' : Db}
    (hUpdate : updateSchedule sched db = some db') :
    db' =
      changeSchedule sched.id (rowAfterEdit sched) db := by
  unfold updateSchedule at hUpdate
  split at hUpdate
  · exact (Option.some.inj hUpdate).symm
  · cases hUpdate

section StoreJob

variable
    {j row : Job}
    {db : Db}

/-
  `InsertJob` under a new identifier finds a row of the same
  tenant and key, or adds the job as the only one.
-/
theorem storeJob_cases
    (hFresh : db.job? j.id = none) :
    (storeJob j db = db ∧
        ∃ key, j.idempotencyKey = some key ∧
          ∃ row ∈ db.jobs.rows,
            HoldsKey j.tenantId key row) ∨
      ((storeJob j db).schedules = db.schedules ∧
        (∀ row, row ∈ (storeJob j db).jobs.rows ↔
          row ∈ db.jobs.rows ∨ row = j.inserted) ∧
        KeyFree db j) := by
  cases hInsert : Storage.insertJob j db with
  | abort =>
      have hStore : storeJob j db = db := by
        unfold storeJob
        rw [hInsert]
      rcases insertJob_aborts hInsert hFresh with
        ⟨key, id, row, hKey, hRow, hHolds⟩
      exact .inl
        ⟨hStore, key, hKey, row, Table.mem_of_find? hRow,
          hHolds⟩
  | proceed writes locks =>
      rcases insertJob_proceeds hInsert with
        ⟨hWrites, _, hFree⟩
      have hStore :
          storeJob j db =
            { db with jobs := db.jobs.insert j.inserted } := by
        unfold storeJob
        rw [hInsert, hWrites]
        rfl
      rw [hStore]
      exact .inr
        ⟨rfl, fun _ => Table.mem_insert_iff hFresh, hFree⟩

theorem schedules_storeJob
    (hFresh : db.job? j.id = none) :
    (storeJob j db).schedules = db.schedules := by
  rcases storeJob_cases hFresh with ⟨hSame, _⟩ | hAdded
  · rw [hSame]
  · exact hAdded.1

theorem mem_storeJob
    (hFresh : db.job? j.id = none)
    (hRow : row ∈ db.jobs.rows) :
    row ∈ (storeJob j db).jobs.rows := by
  rcases storeJob_cases hFresh with
    ⟨hSame, _⟩ | ⟨_, hRows, _⟩
  · rw [hSame]
    exact hRow
  · exact (hRows row).mpr (.inl hRow)

theorem of_mem_storeJob
    (hFresh : db.job? j.id = none)
    (hRow : row ∈ (storeJob j db).jobs.rows) :
    row ∈ db.jobs.rows ∨ row = j.inserted := by
  rcases storeJob_cases hFresh with
    ⟨hSame, _⟩ | ⟨_, hRows, _⟩
  · rw [hSame] at hRow
    exact .inl hRow
  · exact (hRows row).mp hRow

/- Whoever put it there, a job has the key afterwards. -/
theorem exists_holdsKey_storeJob
    {key : String}
    (hFresh : db.job? j.id = none)
    (hKey : j.idempotencyKey = some key) :
    ∃ row ∈ (storeJob j db).jobs.rows,
      HoldsKey j.tenantId key row := by
  rcases storeJob_cases hFresh with
    ⟨hSame, key', hKey', hTaken⟩ | ⟨_, hRows, _⟩
  · rw [hSame]
    cases hKey.symm.trans hKey'
    exact hTaken
  · exact ⟨j.inserted, (hRows _).mpr (.inr rfl), rfl, hKey⟩

theorem oneJobPerKey_storeJob
    (hUnique : OneJobPerKey db)
    (hFresh : db.job? j.id = none) :
    OneJobPerKey (storeJob j db) := by
  rcases storeJob_cases hFresh with
    ⟨hSame, _⟩ | ⟨_, hRows, hFree⟩
  · rw [hSame]
    exact hUnique
  · refine hUnique.of_origins
      (fun id row hRow => (?_ : Origin db (some j) id row))
    have hId : row.id = id := Table.key_of_find? hRow
    rcases (hRows row).mp (Table.mem_of_find? hRow) with
      hOld | hNew
    · refine .kept row ?_ rfl
      rw [← hId]
      exact Table.find?_of_mem hOld
    · have hOwn : j.id = id := by
        rw [← hId, hNew]
        rfl
      rw [← hOwn]
      exact .inserted j rfl hNew rfl hFresh hFree

end StoreJob

theorem cronJob_eq_ok
    {validateWebhookPayload : String → Except String Unit}
    {t : Template}
    {tenantId jobId : Uuid}
    {now : Time}
    {key : String}
    {j : Job}
    (hJob :
      cronJob validateWebhookPayload t tenantId jobId now
          key =
        .ok j) :
    j =
      { t.job tenantId jobId now with
        idempotencyKey := some key } := by
  unfold cronJob at hJob
  cases hBuild :
      t.build validateWebhookPayload tenantId jobId now with
  | error message =>
      rw [hBuild] at hJob
      cases hJob
  | ok built =>
      rw [hBuild] at hJob
      cases hJob
      rw [(Template.build_eq_ok hBuild).1]

end

------------------------------------------------------------
-- The Invariant
------------------------------------------------------------

section

variable (P : Parsers)

/-
  What a leader knows of the row it was given. Its tenant and
  its template are the schedule's, though the template may be
  an earlier one, and once the job is inserted it exists.
-/
structure Sound (s : State) (f : Fire) : Prop where
  template :
    (f.sched.id, f.sched.jobTemplate) ∈ s.templates
  tenant :
    ∃ row, s.db.schedules.find? f.sched.id = some row ∧
      row.tenantId = f.sched.tenantId
  parsed :
    ∀ now next t, f.phase = .started now next t →
      P.template f.sched.jobTemplate = some t
  fired :
    ∀ now next, f.phase = .inserted now next →
      ∃ j ∈ s.db.jobs.rows,
        BuiltFor P s.templates f.sched.id f.sched.tenantId
          f.sched.nextRunAt j

/- A request stores its own edit of the row it read. -/
def Edited (e : Edit) : Prop :=
  ∀ saved, e.saves = some saved →
    ∃ now, editSchedule P e.req now e.sched = some saved

/-
  A key that is reserved for a schedule of the tenant is on a
  job built for an occurrence.
-/
def OwnKey
    (schedules : Table Schedule)
    (templates : List (Uuid × String))
    (j : Job) :
    Prop :=
  ∀ id row, schedules.find? id = some row →
    row.tenantId = j.tenantId →
      ∀ key, j.idempotencyKey = some key →
        reservedKey id key = true →
          ∃ scheduleId occurrence,
            BuiltFor P templates scheduleId j.tenantId
              occurrence j

/- What every state of an undisturbed run satisfies. -/
structure Inv (s : State) : Prop where
  stored :
    ∀ id row, s.db.schedules.find? id = some row →
      (id, row.jobTemplate) ∈ s.templates
  fires : ∀ f ∈ s.fires, Sound P s f
  edits : ∀ e ∈ s.edits, Edited P e
  keys :
    ∀ j ∈ s.db.jobs.rows,
      OwnKey P s.db.schedules s.templates j
  unique : OneJobPerKey s.db
  kept : ∀ w ∈ s.history, w.Kept P

/- No step takes back what a leader may rely on. -/
structure Grows (s s' : State) : Prop where
  templates : s.templates ⊆ s'.templates
  jobs : s.db.jobs.rows ⊆ s'.db.jobs.rows
  tenants :
    ∀ id row, s.db.schedules.find? id = some row →
      ∃ row', s'.db.schedules.find? id = some row' ∧
        row'.tenantId = row.tenantId

variable {P}
variable {s s' : State}

namespace BuiltFor

variable {templates templates' : List (Uuid × String)}
variable {scheduleId scheduleId' tenantId : Uuid}
variable {occurrence occurrence' : Time}
variable {j : Job}

theorem mono
    (hBuilt :
      BuiltFor P templates scheduleId tenantId occurrence j)
    (hSubset : templates ⊆ templates') :
    BuiltFor P templates' scheduleId tenantId occurrence
      j := by
  rcases hBuilt with
    ⟨raw, t, jobId, now, built, hRaw, hParse, hJob, hRow⟩
  exact ⟨raw, t, jobId, now, built, hSubset hRaw, hParse,
    hJob, hRow⟩

theorem idempotencyKey
    (hBuilt :
      BuiltFor P templates scheduleId tenantId occurrence
        j) :
    j.idempotencyKey =
      some (occurrenceKey scheduleId occurrence) := by
  rcases hBuilt with
    ⟨raw, t, jobId, now, built, _, _, hJob, hRow⟩
  rw [hRow, cronJob_eq_ok hJob]
  rfl

/- The key of a job tells what it was built for. -/
theorem of_idempotencyKey
    (hBuilt :
      BuiltFor P templates scheduleId tenantId occurrence j)
    (hKey :
      j.idempotencyKey =
        some (occurrenceKey scheduleId' occurrence')) :
    BuiltFor P templates scheduleId' tenantId occurrence'
      j := by
  have hSame :
      occurrenceKey scheduleId occurrence =
        occurrenceKey scheduleId' occurrence' := by
    rw [hBuilt.idempotencyKey] at hKey
    exact Option.some.inj hKey
  have hId := (occurrenceKey_inj hSame).1
  rcases hBuilt with
    ⟨raw, t, jobId, now, built, hRaw, hParse, hJob, hRow⟩
  rw [hSame] at hJob
  rw [hId] at hRaw
  exact ⟨raw, t, jobId, now, built, hRaw, hParse, hJob,
    hRow⟩

end BuiltFor

theorem Sound.mono
    {f : Fire}
    (hSound : Sound P s f)
    (hGrows : Grows s s') :
    Sound P s' f := by
  refine ⟨hGrows.templates hSound.template, ?_,
    hSound.parsed, ?_⟩
  · rcases hSound.tenant with ⟨row, hRow, hTenant⟩
    rcases hGrows.tenants _ row hRow with
      ⟨row', hRow', hSame⟩
    exact ⟨row', hRow', hSame.trans hTenant⟩
  · intro now next hPhase
    rcases hSound.fired now next hPhase with ⟨j, hj, hBuilt⟩
    exact ⟨j, hGrows.jobs hj, hBuilt.mono hGrows.templates⟩

theorem grows_storeJob
    {j : Job}
    (hFresh : s.db.job? j.id = none) :
    Grows s { s with db := storeJob j s.db } := by
  refine
    ⟨fun _ h => h, fun _ hRow => mem_storeJob hFresh hRow,
      ?_⟩
  intro id row hRow
  refine ⟨row, ?_, rfl⟩
  change (storeJob j s.db).schedules.find? id = some row
  rw [schedules_storeJob hFresh]
  exact hRow

namespace Inv

/- A step that leaves the database alone. -/
theorem move
    (hInv : Inv P s)
    {fires : List Fire}
    {edits : List Edit}
    {clock : Time}
    (hFires : ∀ f ∈ fires, f ∈ s.fires ∨ Sound P s f)
    (hEdits : ∀ e ∈ edits, e ∈ s.edits ∨ Edited P e) :
    Inv P
      { s with
        clock := clock
        fires := fires
        edits := edits } := by
  refine ⟨hInv.stored, ?_, ?_, hInv.keys, hInv.unique,
    hInv.kept⟩
  · intro f hf
    have hSound : Sound P s f := by
      rcases hFires f hf with hOld | hSound
      · exact hInv.fires f hOld
      · exact hSound
    exact hSound.mono
      ⟨fun _ h => h, fun _ h => h,
        fun _ row hRow => ⟨row, hRow, rfl⟩⟩
  · intro e he
    rcases hEdits e he with hOld | hEdited
    · exact hInv.edits e hOld
    · exact hEdited

/-
  A step that inserts a job. Leaders find every job that they
  found before.
-/
theorem storeJob
    (hInv : Inv P s)
    {j : Job}
    {fires : List Fire}
    (hFresh : s.db.job? j.id = none)
    (hOwn : OwnKey P s.db.schedules s.templates j.inserted)
    (hFires :
      ∀ f ∈ fires, f ∈ s.fires ∨
        (Sound P { s with db := storeJob j s.db } f)) :
    Inv P
      { s with
        db := Cron.storeJob j s.db
        fires := fires } := by
  refine
    ⟨?_, ?_, hInv.edits, ?_,
      oneJobPerKey_storeJob hInv.unique hFresh, hInv.kept⟩
  · intro id row hRow
    change
      (Cron.storeJob j s.db).schedules.find? id = _ at hRow
    rw [schedules_storeJob hFresh] at hRow
    exact hInv.stored id row hRow
  · intro f hf
    have hSound :
        Sound P { s with db := Cron.storeJob j s.db } f := by
      rcases hFires f hf with hOld | hSound
      · exact (hInv.fires f hOld).mono
          (grows_storeJob hFresh)
      · exact hSound
    exact ⟨hSound.template, hSound.tenant, hSound.parsed,
      hSound.fired⟩
  · intro row hRow
    change OwnKey P (Cron.storeJob j s.db).schedules _ row
    rw [schedules_storeJob hFresh]
    rcases of_mem_storeJob hFresh hRow with hOld | hNew
    · exact hInv.keys row hOld
    · rw [hNew]
      exact hOwn

/- A step that stores a schedule. -/
theorem changeSchedule
    (hInv : Inv P s)
    {id : Uuid}
    {change : Schedule → Schedule}
    {fires : List Fire}
    {edits : List Edit}
    {templates : List (Uuid × String)}
    {w : Overwrite}
    (hId : ∀ row, (change row).id = row.id)
    (hTenant : ∀ row, (change row).tenantId = row.tenantId)
    (hTemplates : s.templates ⊆ templates)
    (hTemplate :
      ∀ row, s.db.schedules.find? id = some row →
        (id, (change row).jobTemplate) ∈ templates)
    (hFires : fires ⊆ s.fires)
    (hEdits : edits ⊆ s.edits)
    (hKept : w.Kept P) :
    Inv P
      { s with
        db := Cron.changeSchedule id change s.db
        fires := fires
        edits := edits
        templates := templates
        history := w :: s.history } := by
  have hJobs := jobs_changeSchedule id change s.db
  have hFind := find?_changeSchedule id change hId s.db
  refine ⟨?_, ?_, ?_, ?_, ?_, ?_⟩
  · intro k row hRow
    rcases Option.map_eq_some_iff.mp
        ((hFind k).symm.trans hRow) with ⟨old, hOld, hNew⟩
    by_cases hKey : k = id
    · rw [if_pos hKey] at hNew
      rw [hKey] at hOld ⊢
      rw [← hNew]
      exact hTemplate old hOld
    · rw [if_neg hKey] at hNew
      rw [← hNew]
      exact hTemplates (hInv.stored k old hOld)
  · intro f hf
    refine (hInv.fires f (hFires hf)).mono
      ⟨hTemplates, ?_, ?_⟩
    · exact fun _ hRow => hJobs ▸ hRow
    · intro k row hRow
      refine ⟨if k = id then change row else row, ?_, ?_⟩
      · exact (hFind k).trans (by rw [hRow]; rfl)
      · split
        · exact hTenant row
        · rfl
  · exact fun e he => hInv.edits e (hEdits he)
  · intro j hj k row hRow hOwner key hKey hReserved
    rcases Option.map_eq_some_iff.mp
        ((hFind k).symm.trans hRow) with ⟨old, hOld, rfl⟩
    have hOwner : old.tenantId = j.tenantId := by
      split at hOwner
      · exact (hTenant old).symm.trans hOwner
      · exact hOwner
    rcases hInv.keys j (hJobs ▸ hj) k old hOld hOwner key
        hKey hReserved with
      ⟨scheduleId, occurrence, hBuilt⟩
    exact ⟨scheduleId, occurrence, hBuilt.mono hTemplates⟩
  · exact hInv.unique.of_jobs hJobs
  · intro w' hw'
    rcases List.mem_cons.mp hw' with hNew | hOld
    · rw [hNew]
      exact hKept
    · exact hInv.kept w' hOld

end Inv

end

------------------------------------------------------------
-- Undisturbed Runs
------------------------------------------------------------

section

variable {P : Parsers}
variable {s s' : State}

theorem Fire.start_eq_some
    {f f' : Fire}
    {now : Time}
    (hStart : f.start P now = some f') :
    ∃ next t,
      P.next f.sched.cron f.sched.timezone now =
          some next ∧
        P.template f.sched.jobTemplate = some t ∧
          f' = { f with phase := .started now next t } := by
  unfold Fire.start at hStart
  split at hStart
  · split at hStart
    · rename_i next t hNext hParse
      cases hStart
      exact ⟨next, t, hNext, hParse, rfl⟩
    · cases hStart
  · cases hStart

theorem Sound.start
    {f f' : Fire}
    {now : Time}
    (hSound : Sound P s f)
    (hStart : f.start P now = some f') :
    Sound P s f' := by
  rcases Fire.start_eq_some hStart with
    ⟨next, t, _, hParse, hNew⟩
  rw [hNew]
  refine ⟨hSound.template, hSound.tenant, ?_, ?_⟩
  · intro _ _ _ hPhase
    cases hPhase
    exact hParse
  · intro _ _ hPhase
    cases hPhase

section Insert

variable {sched : Schedule}
variable {now next : Time}
variable {t : Template}
variable {jobId : Uuid}
variable {j : Job}

/- What a leader inserts is built for its occurrence. -/
theorem Sound.builtFor
    (hSound : Sound P s ⟨sched, .started now next t⟩)
    (hJob : Fire.job P sched t jobId now = .ok j) :
    BuiltFor P s.templates sched.id sched.tenantId
      sched.nextRunAt j.inserted :=
  ⟨sched.jobTemplate, t, jobId, now, j, hSound.template,
    hSound.parsed now next t rfl, hJob, rfl⟩

theorem Sound.ownKey
    (hSound : Sound P s ⟨sched, .started now next t⟩)
    (hJob : Fire.job P sched t jobId now = .ok j) :
    OwnKey P s.db.schedules s.templates j.inserted := by
  intro _ _ _ _ _ _ _
  have hTenant : j.inserted.tenantId = sched.tenantId := by
    rw [cronJob_eq_ok hJob]
    rfl
  rw [hTenant]
  exact ⟨sched.id, sched.nextRunAt, hSound.builtFor hJob⟩

/-
  A leader whose insertion returns has the occurrence's job:
  its own one, or the one whose key it ran into.
-/
theorem Sound.inserted
    (hInv : Inv P s)
    (hSound : Sound P s ⟨sched, .started now next t⟩)
    (hJob : Fire.job P sched t jobId now = .ok j)
    (hFresh : s.db.job? j.id = none) :
    Sound P { s with db := storeJob j s.db }
      ⟨sched, .inserted now next⟩ := by
  have hGrown := hSound.mono (grows_storeJob hFresh)
  have hBuilt := hSound.builtFor hJob
  refine ⟨hGrown.template, hGrown.tenant, ?_, ?_⟩
  · intro _ _ _ hPhase
    cases hPhase
  intro _ _ _
  rcases exists_holdsKey_storeJob hFresh
      hBuilt.idempotencyKey with
    ⟨row, hRow, hTenant, hKey⟩
  rcases of_mem_storeJob hFresh hRow with hOld | hNew
  · have hTenantId : row.tenantId = sched.tenantId := by
      rw [hTenant, cronJob_eq_ok hJob]
      rfl
    rcases hSound.tenant with ⟨stored, hStored, hOwner⟩
    rcases hInv.keys row hOld _ stored hStored
        (hOwner.trans hTenantId.symm) _ hKey
        (reservedKey_occurrenceKey _ _) with
      ⟨scheduleId, occurrence, hFound⟩
    rw [hTenantId] at hFound
    exact ⟨row, hRow, hFound.of_idempotencyKey hKey⟩
  · rw [hNew] at hRow
    exact ⟨j.inserted, hRow, hBuilt⟩

end Insert

/-
  A leader that finds the next run it read, or its own, loses
  nothing.
-/
theorem kept_updateScheduleAfterRun
    {sched : Schedule}
    {now next : Time}
    (hSound : Sound P s ⟨sched, .inserted now next⟩)
    (hFound :
      ∀ row, s.db.schedules.find? sched.id = some row →
        row.nextRunAt = sched.nextRunAt ∨
          row.nextRunAt = next) :
    Overwrite.Kept P
      { scheduleId := sched.id
        recomputed := false
        templates := s.templates
        before := s.db
        after :=
          updateScheduleAfterRun sched.id now next
            s.db } := by
  intro _ row row' hRow hRow' hChanged
  change s.db.schedules.find? sched.id = some row at hRow
  have hNext : row'.nextRunAt = next := by
    change
      (changeSchedule sched.id (rowAfterRun now next)
          s.db).schedules.find? sched.id =
        some row' at hRow'
    rw [find?_changeSchedule _ (rowAfterRun now next)
        (fun _ => rfl),
      hRow, Option.map_some, if_pos rfl] at hRow'
    rw [← Option.some.inj hRow']
    rfl
  have hRead : row.nextRunAt = sched.nextRunAt := by
    rcases hFound row hRow with hRead | hOwn
    · exact hRead
    · exact absurd (hNext.trans hOwn.symm) hChanged
  have hId : row.id = sched.id := Table.key_of_find? hRow
  have hTenant : row.tenantId = sched.tenantId := by
    rcases hSound.tenant with ⟨row₀, hRow₀, hTenant⟩
    change
      s.db.schedules.find? sched.id = some row₀ at hRow₀
    rw [hRow] at hRow₀
    cases hRow₀
    exact hTenant
  change
    ∃ j ∈ s.db.jobs.rows,
      BuiltFor P s.templates row.id row.tenantId
        row.nextRunAt j
  rw [hRead, hId, hTenant]
  exact hSound.fired now next rfl

/- An edit that finds the next run it read stores it again. -/
theorem kept_updateSchedule
    {saved : Schedule}
    {recomputed : Bool}
    {db : Db}
    (hSave : updateSchedule saved s.db = some db)
    (hFound :
      recomputed = false →
        ∀ row, s.db.schedules.find? saved.id = some row →
          row.nextRunAt = saved.nextRunAt) :
    Overwrite.Kept P
      { scheduleId := saved.id
        recomputed := recomputed
        templates := s.templates
        before := s.db
        after := db } := by
  intro hRecomputed row row' hRow hRow' hChanged
  change s.db.schedules.find? saved.id = some row at hRow
  change db.schedules.find? saved.id = some row' at hRow'
  rw [updateSchedule_eq_some hSave,
    find?_changeSchedule _ (rowAfterEdit saved)
      (fun _ => rfl),
    hRow, Option.map_some, if_pos rfl] at hRow'
  cases hRow'
  exact absurd (hFound hRecomputed row hRow).symm hChanged

/- What a tenant submits under a key of its own. -/
theorem submitted_row
    {r : Submission}
    {now : Time}
    {j : Job}
    (hSubmit :
      submitJob P.validateWebhookPayload r.template
          r.tenantId r.jobId now r.runAt r.idempotencyKey
          r.traceParent =
        .ok j) :
    j.id = r.jobId ∧ j.idempotencyKey = r.idempotencyKey ∧
      j.tenantId = r.tenantId := by
  rcases submitJob_eq_ok hSubmit with
    ⟨built, hBuild, hJob | ⟨later, _, hJob⟩⟩
  all_goals
    rw [hJob, (Template.build_eq_ok hBuild).1]
    exact ⟨rfl, rfl, rfl⟩

/- A submission that goes through stores a new job. -/
theorem submit_eq_some
    {r : Submission}
    (hStep : s.submit P r = some s') :
    ∃ j, s.db.job? j.id = none ∧
      (j.idempotencyKey = r.idempotencyKey ∧
        j.tenantId = r.tenantId) ∧
        s' = { s with db := storeJob j s.db } := by
  unfold State.submit at hStep
  split at hStep
  · cases hStep
  rename_i j hSubmit
  split at hStep
  · cases hStep
  rename_i hFree
  rcases submitted_row hSubmit with ⟨hId, hKey⟩
  refine ⟨j, ?_, hKey, (Option.some.inj hStep).symm⟩
  rw [hId]
  exact Option.not_isSome_iff_eq_none.mp hFree

/-
  A firing that has started ends with an error or inserts its
  job.
-/
theorem insertJob_eq_some
    {i : Nat}
    {jobId : Uuid}
    (hStep : s.insertJob P i jobId = some s') :
    ∃ sched now next t,
      s.fires[i]? = some ⟨sched, .started now next t⟩ ∧
        (s' = { s with fires := s.fires.eraseIdx i } ∨
          ∃ j, Fire.job P sched t jobId now = .ok j ∧
            j.id = jobId ∧ s.db.job? jobId = none ∧
              s' =
                { s with
                  db := storeJob j s.db
                  fires :=
                    s.fires.set i
                      ⟨sched, .inserted now next⟩ }) := by
  unfold State.insertJob at hStep
  split at hStep
  · rename_i sched now next t hGet
    refine ⟨sched, now, next, t, hGet, ?_⟩
    split at hStep
    · exact .inl (Option.some.inj hStep).symm
    · rename_i j hJob
      split at hStep
      · cases hStep
      rename_i hFree
      have hId : j.id = jobId := by
        rw [cronJob_eq_ok hJob]
        rfl
      exact .inr
        ⟨j, hJob, hId,
          Option.not_isSome_iff_eq_none.mp hFree,
          (Option.some.inj hStep).symm⟩
  · cases hStep

end

------------------------------------------------------------
-- The Steps Of Each Party
------------------------------------------------------------

namespace Inv

variable {P : Parsers}
variable {s s' : State}

theorem getDueSchedules
    {scheduleId : Uuid}
    (hInv : Inv P s)
    (hStep : s.getDueSchedules scheduleId = some s') :
    Inv P s' := by
  unfold State.getDueSchedules at hStep
  split at hStep
  · cases hStep
  rename_i row hRow
  split at hStep
  · cases hStep
    have hId : row.id = scheduleId := Table.key_of_find? hRow
    have hRead : Sound P s ⟨row, .read⟩ := by
      rw [← hId] at hRow
      refine ⟨hInv.stored row.id row hRow,
        ⟨row, hRow, rfl⟩, ?_, ?_⟩
      · intro _ _ _ hPhase
        cases hPhase
      · intro _ _ hPhase
        cases hPhase
    refine hInv.move ?_ (fun _ he => .inl he)
    intro f hf
    rcases List.mem_cons.mp hf with hNew | hOld
    · rw [hNew]
      exact .inr hRead
    · exact .inl hOld
  · cases hStep

theorem start
    {i : Nat}
    (hInv : Inv P s)
    (hStep : s.start P i = some s') :
    Inv P s' := by
  unfold State.start at hStep
  split at hStep
  · cases hStep
  rename_i f hGet
  rcases Option.map_eq_some_iff.mp hStep with
    ⟨f', hStart, hEq⟩
  subst hEq
  have hSound := hInv.fires f (List.mem_of_getElem? hGet)
  refine hInv.move ?_ (fun _ he => .inl he)
  intro g hg
  rcases List.mem_or_eq_of_mem_set hg with hOld | hSet
  · exact .inl hOld
  · rw [hSet]
    exact .inr (hSound.start hStart)

theorem insertJob
    {i : Nat}
    {jobId : Uuid}
    (hInv : Inv P s)
    (hStep : s.insertJob P i jobId = some s') :
    Inv P s' := by
  rcases insertJob_eq_some hStep with
    ⟨sched, now, next, t, hGet,
      rfl | ⟨j, hJob, hId, hFree, rfl⟩⟩
  · exact hInv.move
      (fun f hf => .inl (List.mem_of_mem_eraseIdx hf))
      (fun _ he => .inl he)
  · have hSound := hInv.fires _ (List.mem_of_getElem? hGet)
    have hFresh : s.db.job? j.id = none := by
      rw [hId]
      exact hFree
    apply hInv.storeJob hFresh (hSound.ownKey hJob)
    intro f hf
    rcases List.mem_or_eq_of_mem_set hf with hOld | hSet
    · exact .inl hOld
    · rw [hSet]
      exact .inr (Sound.inserted hInv hSound hJob hFresh)

theorem updateScheduleAfterRun
    {i : Nat}
    (hInv : Inv P s)
    (hOk : undisturbed s (.updateScheduleAfterRun i) = true)
    (hStep : s.updateScheduleAfterRun i = some s') :
    Inv P s' := by
  unfold State.updateScheduleAfterRun at hStep
  split at hStep
  · rename_i sched now next hGet
    cases hStep
    have hSound := hInv.fires _ (List.mem_of_getElem? hGet)
    have hKept := kept_updateScheduleAfterRun hSound ?_
    · exact hInv.changeSchedule
        (fun _ => rfl) (fun _ => rfl) (fun _ h => h)
        (hInv.stored sched.id)
        (fun _ hf => List.mem_of_mem_eraseIdx hf)
        (fun _ he => he) hKept
    · intro row hRow
      simp only [undisturbed, hGet] at hOk
      rw [hRow, Option.all_some] at hOk
      simpa using hOk
  · cases hStep

theorem getSchedule
    {scheduleId tenantId : Uuid}
    {req : UpdateScheduleRequest}
    (hInv : Inv P s)
    (hStep :
      s.getSchedule scheduleId tenantId req = some s') :
    Inv P s' := by
  unfold State.getSchedule at hStep
  split at hStep
  · cases hStep
  split at hStep
  · cases hStep
    apply hInv.move (fun _ hf => .inl hf)
    intro e he
    rcases List.mem_cons.mp he with hNew | hOld
    · rw [hNew]
      exact .inr (fun _ hNone => by cases hNone)
    · exact .inl hOld
  · cases hStep

theorem edit
    {i : Nat}
    (hInv : Inv P s)
    (hStep : s.edit P i = some s') :
    Inv P s' := by
  unfold State.edit at hStep
  split at hStep
  · rename_i req sched hGet
    rcases Option.map_eq_some_iff.mp hStep with
      ⟨saved, hEdit, hEq⟩
    subst hEq
    apply hInv.move (fun _ hf => .inl hf)
    intro e he
    rcases List.mem_or_eq_of_mem_set he with hOld | hSet
    · exact .inl hOld
    · rw [hSet]
      right
      intro saved' hSaved
      cases hSaved
      exact ⟨s.clock, hEdit⟩
  · cases hStep

theorem updateSchedule
    {i : Nat}
    (hInv : Inv P s)
    (hOk : undisturbed s (.updateSchedule i) = true)
    (hStep : s.updateSchedule i = some s') :
    Inv P s' := by
  unfold State.updateSchedule at hStep
  split at hStep
  · rename_i req sched saved hGet
    rcases Option.map_eq_some_iff.mp hStep with
      ⟨db, hSave, hEq⟩
    subst hEq
    rcases hInv.edits _ (List.mem_of_getElem? hGet) saved
        rfl with ⟨now, hEdit⟩
    rcases editSchedule_cases hEdit with
      ⟨hId, _, _, _, hCases⟩
    have hFound :
        recomputes req sched = false →
          ∀ row, s.db.schedules.find? saved.id = some row →
            row.nextRunAt = saved.nextRunAt := by
      intro hRecompute row hRow
      simp only [undisturbed, hGet] at hOk
      rw [hRecompute, Bool.false_or, ← hId, hRow,
        Option.all_some] at hOk
      rcases hCases with ⟨hTrue, _⟩ | ⟨_, _, _, hNext⟩
      · rw [hRecompute] at hTrue
        cases hTrue
      · rw [hNext]
        simpa using hOk
    have hKept := kept_updateSchedule (P := P) hSave hFound
    rw [updateSchedule_eq_some hSave] at hKept ⊢
    exact hInv.changeSchedule
      (fun _ => rfl) (fun _ => rfl)
      (List.subset_cons_self _ _)
      (fun _ _ => List.mem_cons_self)
      (fun _ hf => hf)
      (fun _ he => List.mem_of_mem_eraseIdx he)
      hKept
  · cases hStep

theorem submit
    {r : Submission}
    (hInv : Inv P s)
    (hOk : undisturbed s (.submit r) = true)
    (hStep : s.submit P r = some s') :
    Inv P s' := by
  rcases submit_eq_some hStep with
    ⟨j, hFresh, ⟨hKey, hTenant⟩, rfl⟩
  refine hInv.storeJob hFresh ?_ (fun _ hf => .inl hf)
  intro id row hRow hOwner key hRowKey hReserved
  have hGiven : r.idempotencyKey = some key :=
    hKey.symm.trans hRowKey
  have hId : row.id = id := Table.key_of_find? hRow
  have hOwn : row.tenantId = r.tenantId :=
    hOwner.trans hTenant
  rw [undisturbed, hGiven, Option.all_some,
    List.all_eq_true] at hOk
  have hFree := hOk row (Table.mem_of_find? hRow)
  simp [hId, hOwn, hReserved] at hFree

/- One step of any party. -/
theorem step
    {label : Label}
    (hInv : Inv P s)
    (hOk : undisturbed s label = true)
    (hStep : Cron.step P label s = some s') :
    Inv P s' := by
  cases label with
  | getDueSchedules => exact hInv.getDueSchedules hStep
  | start => exact hInv.start hStep
  | insertJob => exact hInv.insertJob hStep
  | updateScheduleAfterRun =>
      exact hInv.updateScheduleAfterRun hOk hStep
  | crash i =>
      cases hStep
      exact hInv.move
        (fun f hf => .inl (List.mem_of_mem_eraseIdx hf))
        (fun _ he => .inl he)
  | getSchedule => exact hInv.getSchedule hStep
  | edit => exact hInv.edit hStep
  | updateSchedule => exact hInv.updateSchedule hOk hStep
  | cancel i =>
      cases hStep
      exact hInv.move (fun _ hf => .inl hf)
        (fun e he => .inl (List.mem_of_mem_eraseIdx he))
  | submit => exact hInv.submit hOk hStep
  | tick n =>
      cases hStep
      exact hInv.move (fun _ hf => .inl hf)
        (fun _ he => .inl he)

end Inv

variable {P : Parsers}
variable {s : State}

theorem inv_of_init
    (hInit : init s) :
    Inv P s := by
  rcases hInit with
    ⟨hJobs, hFires, hEdits, hHistory, hTemplates⟩
  refine ⟨?_, ?_, ?_, ?_, ?_, ?_⟩
  · intro id row hRow
    have hId : row.id = id := Table.key_of_find? hRow
    rw [hTemplates, ← hId]
    exact List.mem_map_of_mem (Table.mem_of_find? hRow)
  · intro f hf
    rw [hFires] at hf
    cases hf
  · intro e he
    rw [hEdits] at he
    cases he
  · intro j hj
    rw [hJobs] at hj
    cases hj
  · intro _ _ _ _ _ _ hRow
    unfold Db.job? at hRow
    rw [hJobs] at hRow
    cases hRow
  · intro w hw
    rw [hHistory] at hw
    cases hw

theorem Inv.occurrencesKept
    (hInv : Inv P s) :
    OccurrencesKept P s := by
  refine ⟨?_, hInv.kept⟩
  intro sched _ occurrence j hj j' hj' hTenant hTenant'
    hKey hKey'
  exact hInv.unique.eq_of_mem hj hj' ⟨hTenant, hKey⟩
    ⟨hTenant', hKey'⟩

------------------------------------------------------------
-- Lost Occurrences
------------------------------------------------------------

/-
  A computed check that a statement lost an occurrence: each
  job has another key, or a payload that no template of the
  schedule has.
-/
def Overwrite.loses (P : Parsers) (w : Overwrite) : Bool :=
  !w.recomputed &&
    (w.before.schedules.find? w.scheduleId).any
      (fun row =>
        (w.after.schedules.find? w.scheduleId).any
            (fun row' => row'.nextRunAt ≠ row.nextRunAt) &&
          w.before.jobs.rows.all
            (fun j =>
              j.idempotencyKey ≠
                  some (occurrenceKey row.id row.nextRunAt) ||
                w.templates.all
                  (fun entry =>
                    entry.1 ≠ row.id ||
                      (P.template entry.2).all
                        (fun t => t.payload ≠ j.payload))))

theorem Overwrite.not_kept_of_loses
    {w : Overwrite}
    (hLoses : w.loses P = true) :
    ¬w.Kept P := by
  intro hKept
  simp only [Overwrite.loses, Bool.and_eq_true,
    Bool.not_eq_true'] at hLoses
  rcases hLoses with ⟨hRecomputed, hRows⟩
  rcases (Option.any_eq_true _ _).mp hRows with
    ⟨row, hRow, hRest⟩
  rw [Bool.and_eq_true] at hRest
  rcases (Option.any_eq_true _ _).mp hRest.1 with
    ⟨row', hRow', hChanged⟩
  rcases hKept hRecomputed row row' hRow hRow'
      (of_decide_eq_true hChanged) with ⟨j, hj, hBuilt⟩
  have hOther := List.all_eq_true.mp hRest.2 j hj
  rw [hBuilt.idempotencyKey] at hOther
  simp only [ne_eq, not_true_eq_false, decide_false,
    Bool.false_or, List.all_eq_true] at hOther
  rcases hBuilt with
    ⟨raw, t, jobId, now, built, hRaw, hParse, hJob, hNew⟩
  have hPayload := hOther (row.id, raw) hRaw
  rw [hNew, cronJob_eq_ok hJob, hParse] at hPayload
  simp [Job.inserted, Template.job] at hPayload

/- A write that loses an occurrence breaks the property. -/
theorem not_kept_of_loses
    {w : Overwrite}
    (hw : w ∈ s.history)
    (hLoses : w.loses P = true) :
    ¬OccurrencesKept P s :=
  fun hKept => w.not_kept_of_loses hLoses (hKept.kept w hw)

namespace Sample

def minute : Time := 60 * second

/- Every expression means every minute. -/
def parsers : Parsers where
  next := fun _ _ now => some ((now / minute + 1) * minute)
  template := fun raw =>
    some
      { type := "webhook"
        payload := raw
        priority := none
        maxRetries := none
        backoffSeconds := none }
  validateWebhookPayload := fun _ => .ok ()

theorem next_parsers
    (cron timezone : String)
    (now next : Time)
    (hNext : parsers.next cron timezone now = some next) :
    now < next := by
  have hPos : (0 : Int) < minute := by decide
  cases hNext
  exact Int.lt_mul_of_ediv_lt hPos (Int.lt_succ _)

/- A schedule that is due at the first minute. -/
def start : State where
  db :=
    { jobs := Table.empty
      jobRuns := Table.empty
      deadLetter := Table.empty
      schedules :=
        Table.empty.insert
          { id := 3
            tenantId := 1
            name := "report"
            cron := "* * * * *"
            timezone := "UTC"
            jobTemplate := "a"
            enabled := true
            lastRunAt := none
            nextRunAt := minute }
      tenants := Table.empty }
  clock := minute
  fires := []
  edits := []
  templates := [(3, "a")]
  history := []

theorem init_start : (machine parsers).init start :=
  ⟨rfl, rfl, rfl, rfl, rfl⟩

/- A firing from its read to its last statement. -/
def fire (jobId : Uuid) : List Label :=
  [.getDueSchedules 3, .start 0, .insertJob 0 jobId,
    .updateScheduleAfterRun 0]

/- The request that only changes the template. -/
def changeTemplate : UpdateScheduleRequest where
  enabled := none
  cron := none
  timezone := none
  jobTemplate := some "b"

def submission (key : String) : Submission where
  template :=
    { type := "webhook"
      payload := "own"
      priority := none
      maxRetries := none
      backoffSeconds := none }
  tenantId := 1
  jobId := 9
  runAt := none
  idempotencyKey := some key
  traceParent := none

end Sample

/-
  Occurrences are neither doubled nor lost in any run that
  overwrites only the next run it has read.
-/
theorem occurrences_kept_of_undisturbed
    (P : Parsers)
    (s : State)
    (hReach :
      (machine P).ReachableWith
        (fun s label => undisturbed s label = true) s) :
    OccurrencesKept P s := by
  have hInv : Inv P s :=
    hReach.invariant
      (fun _ hInit => inv_of_init hInit)
      (fun _ _ _ _ hInv hOk hStep => hInv.step hOk hStep)
  exact hInv.occurrencesKept

/-
  Two leaders fire one occurrence, which gets one job. Later
  a job is submitted under a key of another schedule, and the
  template is changed.
-/
theorem occurrences_kept_two_leaders :
    ∃ s,
      (machine Sample.parsers).ReachableWith
          (fun s label => undisturbed s label = true) s ∧
        (s.db.jobs.rows.length = 2 ∧ s.history.length = 3) ∧
          OccurrencesKept Sample.parsers s := by
  rcases
    Machine.exists_reachableWith_of_run Sample.init_start
      undisturbed
      ([Label.getDueSchedules 3, .start 0] ++
        Sample.fire 7 ++
        [Label.insertJob 0 8, .updateScheduleAfterRun 0,
          .submit (Sample.submission "schedule:4:120"),
          .getSchedule 3 1 Sample.changeTemplate,
          .edit 0, .updateSchedule 0])
      (fun s =>
        s.db.jobs.rows.length = 2 ∧ s.history.length = 3)
      (by decide +kernel)
  with ⟨s, hReach, hRows⟩
  exact ⟨s, hReach, hRows,
    occurrences_kept_of_undisturbed _ s hReach⟩

/-
  A request reads the schedule before a leader fires it and
  stores the old next run afterwards. The occurrence is fired
  again a minute later, finds its job, and the occurrence in
  between is skipped.
-/
theorem edit_drops_occurrence :
    ∃ P : Parsers,
      (∀ cron timezone now next,
        P.next cron timezone now = some next → now < next) ∧
      ∃ s, (machine P).Reachable s ∧
        ((s.db.schedules.rows.map (·.nextRunAt) =
            [3 * Sample.minute]) ∧
          s.db.jobs.rows.map (·.idempotencyKey) =
            [some (occurrenceKey 3 Sample.minute)]) ∧
        ¬OccurrencesKept P s := by
  rcases
    Machine.exists_reachable_of_run Sample.init_start
      ([Label.getSchedule 3 1 Sample.changeTemplate] ++
        Sample.fire 7 ++
        [Label.edit 0, .updateSchedule 0, .tick 60000000] ++
        Sample.fire 8)
      (fun s =>
        (s.db.schedules.rows.map (·.nextRunAt) =
            [3 * Sample.minute] ∧
          s.db.jobs.rows.map (·.idempotencyKey) =
            [some (occurrenceKey 3 Sample.minute)]) ∧
        ∃ w ∈ s.history, w.loses Sample.parsers = true)
      (by decide +kernel)
  with ⟨s, hReach, hRows, w, hw, hLoses⟩
  exact ⟨Sample.parsers, Sample.next_parsers, s, hReach,
    hRows, not_kept_of_loses hw hLoses⟩

/- Undisturbed, except by what tenants submit. -/
def undisturbedButSubmissions
    (s : State) :
    Label → Bool
| .submit _ => true
| label => undisturbed s label

/- A tenant takes the key of an occurrence before it fires. -/
theorem submission_takes_occurrence :
    ∃ s,
      (machine Sample.parsers).ReachableWith
          (fun s label =>
            undisturbedButSubmissions s label = true) s ∧
        ¬OccurrencesKept Sample.parsers s := by
  rcases
    Machine.exists_reachableWith_of_run Sample.init_start
      undisturbedButSubmissions
      (.submit (Sample.submission "schedule:3:60") ::
        Sample.fire 7)
      (fun s =>
        ∃ w ∈ s.history, w.loses Sample.parsers = true)
      (by decide +kernel)
  with ⟨s, hReach, w, hw, hLoses⟩
  exact ⟨s, hReach, not_kept_of_loses hw hLoses⟩

/- Undisturbed, except by what leaders store. -/
def undisturbedButLeaders
    (s : State) :
    Label → Bool
| .updateScheduleAfterRun _ => true
| label => undisturbed s label

/-
  A slow leader ends after the next occurrence has fired, and
  stores the next run that it computed at its start.
-/
theorem slow_leader_overwrites_occurrence :
    ∃ s,
      (machine Sample.parsers).ReachableWith
          (fun s label =>
            undisturbedButLeaders s label = true) s ∧
        ¬OccurrencesKept Sample.parsers s := by
  rcases
    Machine.exists_reachableWith_of_run Sample.init_start
      undisturbedButLeaders
      ([Label.getDueSchedules 3, .start 0,
          .insertJob 0 6] ++
        Sample.fire 7 ++ [Label.tick 60000000] ++
        Sample.fire 8 ++
        [Label.updateScheduleAfterRun 0])
      (fun s =>
        ∃ w ∈ s.history, w.loses Sample.parsers = true)
      (by decide +kernel)
  with ⟨s, hReach, w, hw, hLoses⟩
  exact ⟨s, hReach, not_kept_of_loses hw hLoses⟩

end Cron

end Scheduler

end Sluice
