import Sluice.Storage.RowInvariant

/-
  The dead-letter table and the replay of dead jobs.

  `MoveToDeadLetter` copies the dead jobs that it sees
  without locking them, so a replay of the same job can
  commit before the copy does, or can clear the entry before
  it exists. Where no copy is pending when a replay clears
  the entry, and no copy is made before that replay commits,
  every entry describes the latest death of a dead job.

  Main declarations:
    * `latestDeath`
    * `DeadLettersOk`
    * `clearOfReplays`
    * `Consistent`
    * `dead_letters_ok_of_clear`
    * `replayed_job_keeps_dead_letter`
-/

------------------------------------------------------------
-- The Property
------------------------------------------------------------

namespace Sluice

namespace Storage

open Foundations ReadCommitted

/- A commit that moves the job to the state `dead`. -/
def dies (jobId : Uuid) (c : Entry) : Bool :=
  (c.after.job? jobId).any (fun j => j.state = .dead) &&
    !(c.before.job? jobId).any (fun j => j.state = .dead)

/- The row that the latest death of a job left. -/
def latestDeath
    (jobId : Uuid)
    (history : List Entry) :
    Option Job :=
  (history.find? (dies jobId)).bind
    (fun c => c.after.job? jobId)

/-
  A dead-letter row belongs to a dead job and records the
  error and the attempts of its latest death.
-/
def DeadLettersOk (s : Sys) : Prop :=
  ∀ jobId d, s.db.deadLetter? jobId = some d →
    ∃ j, s.db.job? jobId = some j ∧ j.state = .dead ∧
      latestDeath jobId s.history = some j ∧
        d.finalError = j.lastError ∧
          d.attemptCount = j.attempt

/-
  The step does not let a copy into the dead-letter table
  overlap with the replay of the same job: a copy starts only
  while every replay that has cleared but not committed has
  an entry to clear, and a replay clears only while no copy
  of its job is pending.
-/
def clearOfReplays (s : Sys) : Step → Bool
| .statement i _ =>
    match s.sessions[i]? with
    | none => true
    | some e =>
        match e.call, e.pc with
        | .moveToDeadLetter _, 0 =>
            s.sessions.all
              (fun f =>
                match f.call, f.pc with
                | .replayJob jobId _, 2 =>
                    (s.db.deadLetter? jobId).isSome
                | _, _ => true)
        | .replayJob jobId _, 1 =>
            s.sessions.all
              (fun f =>
                f.writes.all
                  (fun w =>
                    match w with
                    | .insertDeadLetter d =>
                        d.jobId ≠ jobId
                    | _ => true))
        | _, _ => true
| _ => true

------------------------------------------------------------
-- The Latest Death
------------------------------------------------------------

section

variable {ok : Sys → Step → Prop}
variable {s : Sys}

/- Only a replay changes a dead job. -/
theorem Call.replays_of_dead
    {call : Call}
    {start : Time}
    {old new : Job}
    (hChange : call.changes start old new)
    (hDead : old.state = .dead) :
    ∃ tenantId, call = .replayJob old.id tenantId ∧
      new.state = .pending := by
  cases call <;>
    simp [Call.changes, Job.stale, Job.forceFailable,
      Job.inFlight, Job.cancellable, hDead] at hChange
  case replayJob jobId tenantId =>
    rcases hChange with ⟨hId, _, hNew⟩
    subst hId hNew
    exact ⟨tenantId, rfl, rfl⟩

/- A dead row is the one its latest death left. -/
theorem latestDeath_of_dead
    (hReach : sluice.ReachableWith ok s) :
    ∀ jobId j, s.db.job? jobId = some j →
      j.state = .dead →
        latestDeath jobId s.history = some j := by
  refine Engine.commits_invariant
    (I := fun db history =>
      ∀ jobId j, db.job? jobId = some j →
        j.state = .dead →
          latestDeath jobId history = some j)
    ?_ ?_ hReach
  · intro db hDb jobId j hJob
    rw [hDb.job?] at hJob
    cases hJob
  · intro s l₁ e l₂ hPrev hInv _ hSplit _ jobId j hJob hDead
    have hMem : e ∈ s.sessions := self_mem_of_split hSplit
    have hAfter :
        (postgres.entry s.db e).after.job? jobId = some j :=
      hJob
    by_cases hWas :
        ∃ old, s.db.job? jobId = some old ∧
          old.state = .dead
    · -- A dead job that stays dead is not touched.
      rcases hWas with ⟨old, hOld, hOldDead⟩
      have hNot :
          dies jobId (postgres.entry s.db e) = false := by
        simp [dies, hOld, hOldDead]
      have hSame : j = old := by
        cases (lawful_entry hPrev hMem).jobs jobId with
        | kept hKept =>
            rw [Engine.entry_before, hOld, hAfter] at hKept
            exact Option.some.inj hKept
        | inserted _ _ hNone _ =>
            rw [Engine.entry_before, hOld] at hNone
            cases hNone
        | changed old' new hOld' hNew hChange =>
            cases hOld.symm.trans hOld'
            cases hAfter.symm.trans hNew
            rcases Call.replays_of_dead hChange hOldDead with
              ⟨_, _, hPending⟩
            rw [hPending] at hDead
            cases hDead
      subst hSame
      have hLatest := hInv jobId j hOld hDead
      unfold latestDeath at hLatest ⊢
      simp only [Engine.committed, List.find?_cons, hNot]
      exact hLatest
    · have hDies :
          dies jobId (postgres.entry s.db e) = true := by
        simp only [dies, hAfter, Engine.entry_before,
          Option.any_some, hDead, decide_true,
          Bool.true_and, Bool.not_eq_true']
        cases hOld : s.db.job? jobId with
        | none => rfl
        | some old =>
            have hAlive : old.state ≠ .dead :=
              fun h => hWas ⟨old, hOld, h⟩
            simp [hAlive]
      simp only [latestDeath, Engine.committed,
        List.find?_cons, hDies]
      exact hAfter

end

variable {db : Db}
variable {writes : List Write}
variable {d : DeadLetter}

/- An entry was there before, or it was inserted. -/
theorem deadLetter?_performAll
    {jobId : Uuid}
    (hEntry :
      (postgres.performAll db writes).deadLetter? jobId =
        some d) :
    db.deadLetter? jobId = some d ∨
      .insertDeadLetter d ∈ writes := by
  induction writes generalizing db with
  | nil => exact .inl hEntry
  | cons w writes ih =>
      rcases ih hEntry with hFirst | hLater
      · have hCases := Db.deadLetter?_perform db w jobId
        change (db.perform w).deadLetter? jobId = _ at hFirst
        rw [hFirst] at hCases
        cases w with
        | insertDeadLetter row =>
            simp only at hCases
            split at hCases
            · cases hCases
              exact .inr List.mem_cons_self
            · exact .inl hCases.symm
        | deleteDeadLetter gone =>
            simp only at hCases
            split at hCases
            · cases hCases
            · exact .inl hCases.symm
        | insertJob | updateJob | insertRun | updateRun =>
            exact .inl hCases.symm
      · exact .inr (List.mem_cons_of_mem _ hLater)

/- An entry that is deleted and not inserted is gone. -/
theorem deadLetter?_performAll_of_deleted
    {jobId : Uuid}
    (db : Db)
    (hDelete : .deleteDeadLetter jobId ∈ writes)
    (hInsert :
      ∀ d, .insertDeadLetter d ∈ writes →
        d.jobId ≠ jobId) :
    (postgres.performAll db writes).deadLetter? jobId =
      none := by
  induction writes generalizing db with
  | nil => cases hDelete
  | cons w writes ih =>
      have hRest :
          ∀ d, .insertDeadLetter d ∈ writes →
            d.jobId ≠ jobId :=
        fun d hd => hInsert d (List.mem_cons_of_mem _ hd)
      rcases List.mem_cons.mp hDelete with hFirst | hLater
      · subst hFirst
        cases hAfter :
            (postgres.performAll db
              (.deleteDeadLetter jobId ::
                writes)).deadLetter? jobId with
        | none => rfl
        | some d =>
            have hLast :
                (postgres.performAll
                  (db.perform (.deleteDeadLetter jobId))
                  writes).deadLetter? jobId =
                  some d :=
              hAfter
            rcases deadLetter?_performAll hLast with
              hKept | hNew
            · rw [Db.deadLetter?_perform] at hKept
              simp at hKept
            · have hId : d.jobId = jobId :=
                Table.key_of_find? hAfter
              exact absurd hId (hRest d hNew)
      · exact ih (db.perform w) hLater hRest

------------------------------------------------------------
-- Copies Of Dead Jobs
------------------------------------------------------------

/- An entry that describes a dead job as it is. -/
def Describes (db : Db) (d : DeadLetter) : Prop :=
  ∃ j, db.job? d.jobId = some j ∧ j.state = .dead ∧
    d.finalError = j.lastError ∧ d.attemptCount = j.attempt

/- The jobs that are moved are dead and have no entry. -/
theorem mem_unmovedDeadJobs
    {limit : Nat}
    {scan : Scan}
    {j : Job}
    (hMem : j ∈ unmovedDeadJobs limit scan db) :
    db.job? j.id = some j ∧ j.state = .dead ∧
      db.deadLetter? j.id = none := by
  have hFilter := List.mem_filter.mp
    (List.mem_of_mem_take hMem)
  have hRow : j ∈ db.jobs.rows :=
    (List.mem_insertionSort _).mp hFilter.1
  have hGuard := hFilter.2
  simp only [Bool.and_eq_true, decide_eq_true_eq,
    Option.isNone_iff_eq_none] at hGuard
  exact ⟨Table.find?_of_mem hRow, hGuard.1, hGuard.2⟩

/- A pending copy was made by a statement that saw its job. -/
theorem statement_copies
    {call : Call}
    {pc : Nat}
    {start : Time}
    {scan : Scan}
    {locked : RowKey → Bool}
    {locks : List RowKey}
    (hOutcome :
      call.statement pc start scan locked db =
        .proceed writes locks)
    (hCopy : .insertDeadLetter d ∈ writes) :
    (∃ limit, call = .moveToDeadLetter limit) ∧ pc = 0 ∧
      Describes db d ∧ db.deadLetter? d.jobId = none := by
  rcases first_justified hOutcome _ hCopy with
    ⟨limit, hCall⟩
  have hMove : call = .moveToDeadLetter limit := hCall
  subst hMove
  cases pc with
  | succ pc => cases hOutcome
  | zero =>
      cases hOutcome
      rcases List.mem_map.mp hCopy with ⟨j, hj, hEq⟩
      cases hEq
      rcases mem_unmovedDeadJobs hj with
        ⟨hJob, hDead, hNone⟩
      exact ⟨⟨limit, rfl⟩, rfl,
        ⟨j, hJob, hDead, rfl, rfl⟩, hNone⟩

/-
  A commit keeps an entry a description of its job, unless
  it is the job's replay.
-/
theorem Describes.commit
    {e : Sess}
    (hDescribes : Describes db d)
    (hLawful : Lawful (postgres.entry db e)) :
    Describes (postgres.performAll db e.writes) d ∨
      ∃ tenantId, e.call = .replayJob d.jobId tenantId := by
  rcases hDescribes with ⟨j, hJob, hDead, hFields⟩
  cases hLawful.jobs d.jobId with
  | kept hSame =>
      exact .inl ⟨j, hSame.trans hJob, hDead, hFields⟩
  | inserted _ _ hNone _ =>
      rw [Engine.entry_before, hJob] at hNone
      cases hNone
  | changed old new hOld _ hChange =>
      cases hJob.symm.trans hOld
      rcases Call.replays_of_dead hChange hDead with
        ⟨tenantId, hCall, _⟩
      refine .inr ⟨tenantId, ?_⟩
      rw [← Db.id_of_job? hJob]
      exact hCall

/-
  Committed and pending entries describe their jobs. A replay
  that has run its deletion is not overtaken by a copy, and
  deletes the entry if there is one.
-/
structure Consistent (s : Sys) : Prop where
  entries : ∀ jobId d,
    s.db.deadLetter? jobId = some d → Describes s.db d
  copies : ∀ e ∈ s.sessions, ∀ d,
    .insertDeadLetter d ∈ e.writes → Describes s.db d
  replays : ∀ e ∈ s.sessions, ∀ jobId tenantId,
    e.call = .replayJob jobId tenantId → e.pc = 2 →
      (∀ f ∈ s.sessions, ∀ d,
        .insertDeadLetter d ∈ f.writes →
          d.jobId ≠ jobId) ∧
        ((s.db.deadLetter? jobId).isSome = true →
          .deleteDeadLetter jobId ∈ e.writes)

------------------------------------------------------------
-- Steps Keep The Table Consistent
------------------------------------------------------------

section

variable {s : Sys}
variable {i : Nat}
variable {scan : Scan}
variable {e : Sess}

theorem entry_of_clear
    {limit : Nat}
    (hClear : clearOfReplays s (.statement i scan) = true)
    (hGet : s.sessions[i]? = some e)
    (hCall : e.call = .moveToDeadLetter limit)
    (hPc : e.pc = 0) :
    ∀ f ∈ s.sessions, ∀ jobId tenantId,
      f.call = .replayJob jobId tenantId → f.pc = 2 →
        (s.db.deadLetter? jobId).isSome = true := by
  intro f hf jobId tenantId hReplay hTwo
  simp only [clearOfReplays, hGet, hCall, hPc,
    List.all_eq_true] at hClear
  have hOne := hClear f hf
  rw [hReplay, hTwo] at hOne
  exact hOne

theorem no_copy_of_clear
    {jobId tenantId : Uuid}
    (hClear : clearOfReplays s (.statement i scan) = true)
    (hGet : s.sessions[i]? = some e)
    (hCall : e.call = .replayJob jobId tenantId)
    (hPc : e.pc = 1) :
    ∀ f ∈ s.sessions, ∀ d,
      .insertDeadLetter d ∈ f.writes → d.jobId ≠ jobId := by
  intro f hf d hCopy
  simp only [clearOfReplays, hGet, hCall, hPc,
    List.all_eq_true] at hClear
  have hOne := hClear f hf _ hCopy
  simpa using hOne

/- A replay makes no copies. -/
theorem not_copies_of_replay
    {db : Db}
    (hAll : AllJustified db e)
    {jobId tenantId : Uuid}
    (hCall : e.call = .replayJob jobId tenantId)
    (d : DeadLetter) :
    .insertDeadLetter d ∉ e.writes := by
  intro hCopy
  rcases hAll _ hCopy with ⟨limit, hMove⟩
  cases hCall.symm.trans hMove

/- One statement keeps the table consistent. -/
theorem Consistent.statement
    {l₁ l₂ : List Sess}
    {locked : RowKey → Bool}
    {writes : List Write}
    {locks : List RowKey}
    (hConsistent : Consistent s)
    (hClear :
      clearOfReplays s (.statement l₁.length scan) = true)
    (hSplit : s.sessions = l₁ ++ e :: l₂)
    (hSound : Sound s.db e)
    (hOutcome :
      e.call.statement e.pc e.start scan locked s.db =
        .proceed writes locks) :
    Consistent
      { s with
        sessions := l₁ ++ e.advance writes locks :: l₂ } := by
  have hGet := getElem?_of_split hSplit
  have hMem : e ∈ s.sessions := List.mem_of_getElem? hGet
  have hOld : ∀ f ∈ l₁ ++ l₂, f ∈ s.sessions :=
    fun f hf => mem_of_split hSplit hf
  constructor
  · exact hConsistent.entries
  · intro f hf d hCopy
    rcases mem_split_iff.mp hf with hMoved | hOther
    · subst hMoved
      rcases List.mem_append.mp hCopy with hBefore | hNew
      · exact hConsistent.copies e hMem d hBefore
      · exact (statement_copies hOutcome hNew).2.2.1
    · exact hConsistent.copies f (hOld f hOther) d hCopy
  · intro g hg jobId tenantId hCall hTwo
    rcases mem_split_iff.mp hg with hMoved | hOther
    · -- The replay that moves has just run its deletion.
      subst hMoved
      rw [Session.advance_call] at hCall
      rw [Session.advance_pc] at hTwo
      have hOne : e.pc = 1 := by omega
      refine ⟨?_, ?_⟩
      · intro f hf d hCopy
        rcases mem_split_iff.mp hf with
          hSelf | hOther'
        · subst hSelf
          exact absurd hCopy
            (not_copies_of_replay
              (hSound.advance hOutcome).justified hCall d)
        · exact no_copy_of_clear hClear hGet hCall hOne f
            (hOld f hOther') d hCopy
      · intro hEntry
        rw [hCall, hOne] at hOutcome
        simp only [Call.statement, replayDelete] at hOutcome
        split at hOutcome
        · rename_i hNone
          simp [hNone] at hEntry
        · cases hOutcome
          exact List.mem_append_right _ List.mem_cons_self
    · have hReplay := hConsistent.replays g (hOld g hOther)
        jobId tenantId hCall hTwo
      refine ⟨?_, hReplay.2⟩
      intro f hf d hCopy
      rcases mem_split_iff.mp hf with hMoved | hOther'
      · subst hMoved
        rcases List.mem_append.mp hCopy with hBefore | hNew
        · exact hReplay.1 e hMem d hBefore
        · -- A copy now would be of a job without an entry.
          intro hSame
          rcases statement_copies hOutcome hNew with
            ⟨⟨limit, hMove⟩, hZero, _, hNone⟩
          have hEntry := entry_of_clear hClear hGet hMove
            hZero g (hOld g hOther) jobId tenantId hCall hTwo
          rw [hSame] at hNone
          simp [hNone] at hEntry
      · exact hReplay.1 f (hOld f hOther') d hCopy

/- One commit keeps the table consistent. -/
theorem Consistent.commit
    {l₁ l₂ : List Sess}
    (hConsistent : Consistent s)
    (hSplit : s.sessions = l₁ ++ e :: l₂)
    (hPc : e.pc = e.call.length)
    (hSound : Sound s.db e)
    (hLawful : Lawful (postgres.entry s.db e)) :
    Consistent (postgres.committed s e (l₁ ++ l₂)) := by
  have hMem : e ∈ s.sessions := self_mem_of_split hSplit
  have hOld : ∀ f ∈ l₁ ++ l₂, f ∈ s.sessions :=
    fun f hf => mem_of_split hSplit hf
  have hReplay :
      ∀ jobId tenantId,
        e.call = .replayJob jobId tenantId → e.pc = 2 := by
    intro jobId tenantId hCall
    rw [hPc, hCall]
    rfl
  constructor
  · intro jobId d hEntry
    have hId : d.jobId = jobId := Table.key_of_find? hEntry
    rcases deadLetter?_performAll hEntry with hKept | hNew
    · rcases (hConsistent.entries jobId d hKept).commit
        hLawful with hDescribes | ⟨tenantId, hCall⟩
      · exact hDescribes
      · -- The replay deletes the entry that it leaves behind.
        rw [hId] at hCall
        have hDelete := (hConsistent.replays e hMem jobId
          tenantId hCall (hReplay _ _ hCall)).2
          (by simp [hKept])
        have hGone := deadLetter?_performAll_of_deleted s.db
          hDelete
          (fun d' hd' => absurd hd'
            (not_copies_of_replay hSound.justified hCall d'))
        cases hEntry.symm.trans hGone
    · rcases (hConsistent.copies e hMem d hNew).commit
        hLawful with hDescribes | ⟨tenantId, hCall⟩
      · exact hDescribes
      · exact absurd hNew
          (not_copies_of_replay hSound.justified hCall d)
  · intro f hf d hCopy
    rcases (hConsistent.copies f (hOld f hf) d hCopy).commit
      hLawful with hDescribes | ⟨tenantId, hCall⟩
    · exact hDescribes
    · exact absurd rfl
        ((hConsistent.replays e hMem d.jobId tenantId hCall
          (hReplay _ _ hCall)).1 f (hOld f hf) d hCopy)
  · intro g hg jobId tenantId hCall hTwo
    have hBefore := hConsistent.replays g (hOld g hg) jobId
      tenantId hCall hTwo
    refine ⟨fun f hf => hBefore.1 f (hOld f hf), ?_⟩
    intro hEntry
    rcases Option.isSome_iff_exists.mp hEntry with ⟨d, hSome⟩
    rcases deadLetter?_performAll hSome with hKept | hNew
    · exact hBefore.2 (by simp [hKept])
    · have hId : d.jobId = jobId := Table.key_of_find? hSome
      exact absurd hId (hBefore.1 e hMem d hNew)

end

------------------------------------------------------------
-- Whole Runs
------------------------------------------------------------

variable {s : Sys}

theorem consistent_of_clear
    (hReach :
      sluice.ReachableWith
        (fun s label => clearOfReplays s label = true) s) :
    Consistent s := by
  refine Engine.reachableWith_invariant ?_ ?_ ?_ ?_ ?_ ?_
    hReach
  · intro db clock hDb
    constructor
    · intro jobId d hEntry
      rw [hDb.deadLetter?] at hEntry
      cases hEntry
    · intro e he
      cases he
    · intro e he
      cases he
  · intro s call _ hInv _ _
    constructor
    · exact hInv.entries
    · intro e he d hCopy
      rcases List.mem_cons.mp he with hNew | hOld
      · subst hNew
        cases hCopy
      · exact hInv.copies e hOld d hCopy
    · intro e he jobId tenantId hCall hTwo
      rcases List.mem_cons.mp he with hNew | hOld
      · subst hNew
        cases hTwo
      · have hReplay := hInv.replays e hOld jobId tenantId
          hCall hTwo
        refine ⟨?_, hReplay.2⟩
        intro f hf d hCopy
        rcases List.mem_cons.mp hf with hOpened | hOther
        · subst hOpened
          cases hCopy
        · exact hReplay.1 f hOther d hCopy
  · intro s l₁ e l₂ scan writes locks hPrev hInv hClear
      hSplit _ hOutcome _
    have hSound := sessions_sound hPrev e
      (self_mem_of_split hSplit)
    have hView := statement_view hSound.shaped scan
      (lockedBy (l₁ ++ l₂)) s.db
    exact hInv.statement hClear hSplit hSound
      (hView.symm.trans hOutcome)
  · intro s l₁ e l₂ _ hInv hSplit
    have hOld : ∀ f ∈ l₁ ++ l₂, f ∈ s.sessions :=
      fun f hf => mem_of_split hSplit hf
    constructor
    · exact hInv.entries
    · exact fun f hf => hInv.copies f (hOld f hf)
    · intro g hg jobId tenantId hCall hTwo
      have hReplay := hInv.replays g (hOld g hg) jobId
        tenantId hCall hTwo
      exact ⟨fun f hf => hReplay.1 f (hOld f hf), hReplay.2⟩
  · intro s l₁ e l₂ hPrev hInv _ hSplit hPc
    have hMem : e ∈ s.sessions := self_mem_of_split hSplit
    exact hInv.commit hSplit hPc
      (sessions_sound hPrev e hMem)
      (lawful_entry hPrev hMem)
  · intro s n _ hInv
    exact ⟨hInv.entries, hInv.copies, hInv.replays⟩

/-
  In every run that keeps copies clear of replays, every
  dead-letter row describes the latest death of a dead job.
-/
theorem dead_letters_ok_of_clear
    (hReach :
      sluice.ReachableWith
        (fun s label => clearOfReplays s label = true) s) :
    DeadLettersOk s := by
  intro jobId d hEntry
  have hId : d.jobId = jobId := Table.key_of_find? hEntry
  rcases (consistent_of_clear hReach).entries jobId d hEntry
    with ⟨j, hJob, hDead, hError, hAttempt⟩
  rw [hId] at hJob
  exact ⟨j, hJob, hDead,
    latestDeath_of_dead hReach jobId j hJob hDead, hError,
    hAttempt⟩

/-
  A job that dies, is recorded and replayed, and then dies
  again has the second death on record.
-/
theorem dead_letters_ok_second_death :
    ∃ s,
      sluice.ReachableWith
          (fun s label => clearOfReplays s label = true) s ∧
        (s.db.deadLetter? 7).map DeadLetter.attemptCount =
            some 2 ∧
          DeadLettersOk s := by
  rcases
    Machine.exists_reachableWith_of_run Sample.init_start
      clearOfReplays
      ((Call.insertJob (Sample.job 7)).whole ++
        (Call.forceFail 7).whole ++
          (Call.moveToDeadLetter 100).whole ++
            (Call.replayJob 7 1).whole ++
              ((Call.tryClaim
                  (Sample.claim 7 1)).whole ++
                (Call.failJob 7 1 1 "timeout" (some 0)
                  0).whole ++
                  (Call.promoteReadyFailed 10).whole ++
                    (Call.tryClaim
                      (Sample.claim 7 2)).whole ++
                      (Call.failJob 7 2 2 "timeout"
                        none 0).whole ++
                        (Call.moveToDeadLetter
                          100).whole))
      (fun s =>
        (s.db.deadLetter? 7).map
            DeadLetter.attemptCount =
          some 2)
      (by decide +kernel)
  with ⟨s, hReach, hTwo⟩
  exact ⟨s, hReach, hTwo,
    dead_letters_ok_of_clear hReach⟩

/-
  A copy that is pending while its job is replayed commits
  afterwards: the job is pending again and keeps an entry.
-/
theorem replayed_job_keeps_dead_letter :
    ∃ s, sluice.Reachable s ∧
      (s.db.job? 7).map Job.state = some .pending ∧
        (s.db.deadLetter? 7).isSome = true ∧
          s.sessions.length = 0 ∧ ¬DeadLettersOk s := by
  rcases
    Machine.exists_reachable_of_run Sample.init_start
      ((Call.insertJob (Sample.job 7)).whole ++
        (Call.forceFail 7).whole ++
          [Label.begin (.moveToDeadLetter 100),
            .statement 0 id] ++
            (Call.replayJob 7 1).whole ++
              [Label.commit 0])
      (fun s =>
        (s.db.job? 7).map Job.state = some .pending ∧
          (s.db.deadLetter? 7).isSome = true ∧
            s.sessions.length = 0)
      (by decide +kernel)
  with ⟨s, hReach, hPending, hEntry, hIdle⟩
  refine ⟨s, hReach, hPending, hEntry, hIdle, ?_⟩
  intro hOk
  rcases Option.isSome_iff_exists.mp hEntry with ⟨d, hSome⟩
  rcases hOk 7 d hSome with ⟨j, hJob, hDead, _⟩
  rw [hJob, Option.map_some, hDead] at hPending
  cases hPending

end Storage

end Sluice
