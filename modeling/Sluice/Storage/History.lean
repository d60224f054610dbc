import Sluice.Storage.Commits

/-
  The history of commits as moves of rows.

  Main declarations:
    * `Moves` and `RunMoves`
    * `Lawful`
    * `history_lawful`
-/

------------------------------------------------------------
-- Moves
------------------------------------------------------------

namespace Sluice

namespace Storage

open Foundations ReadCommitted

abbrev Entry := Commit Db Call

/- How one commit moves one jobs row. -/
inductive Moves (c : Entry) (id : Uuid) : Prop
| kept :
    c.after.job? id = c.before.job? id → Moves c id
| inserted (j : Job) :
    c.call = .insertJob j →
      c.before.job? id = none →
        c.after.job? id = some j.inserted → Moves c id
| changed (old new : Job) :
    c.before.job? id = some old →
      c.after.job? id = some new →
        c.call.changes c.start old new → Moves c id

/- How one commit moves one run. -/
inductive RunMoves (c : Entry) (id : Uuid) : Prop
| kept :
    c.after.run? id = c.before.run? id → RunMoves c id
| opened :
    c.call.newRun? = some id →
      c.before.run? id = none → RunMoves c id
| closed (old new : RunRow) :
    c.before.run? id = some old →
      c.after.run? id = some new →
        c.call.closes c.start old new → RunMoves c id

/-
  A claim moves nothing, or it claims a pending job and opens
  a new run for it.
-/
def ClaimOpens (c : Entry) (a : ClaimArgs) : Prop :=
  c.after = c.before ∨
    ∃ old, c.before.job? a.jobId = some old ∧
      old.state = .pending ∧
        c.after.job? a.jobId = some (old.claim a) ∧
          c.before.run? a.runId = none ∧
            c.after.run? a.runId =
              some (RunRow.opened a (old.claim a))

/- What holds of every commit. -/
structure Lawful (c : Entry) : Prop where
  jobs : ∀ id, Moves c id
  runs : ∀ id, RunMoves c id
  claims : ∀ a, c.call.claimArgs? = some a → ClaimOpens c a

------------------------------------------------------------
-- Commits Are Lawful
------------------------------------------------------------

variable {ok : Sys → Step → Prop}
variable {s : Sys}

/- Every run was opened by the call of some commit. -/
theorem runs_known
    (hReach : sluice.ReachableWith ok s) :
    ∀ id r, s.db.run? id = some r →
      ∃ c ∈ s.history, c.call.newRun? = some id := by
  refine Engine.commits_invariant
    (I := fun db history =>
      ∀ id r, db.run? id = some r →
        ∃ c ∈ history, c.call.newRun? = some id)
    ?_ ?_ hReach
  · intro db hDb id r hRun
    rw [hDb.run?] at hRun
    cases hRun
  · intro s l₁ e l₂ hPrev hInv _ hSplit _ id r hRun
    have hSound := sessions_sound hPrev e
      (self_mem_of_split hSplit)
    have hOld :
        ∀ old, s.db.run? id = some old →
          ∃ c ∈ (postgres.committed s e
            (l₁ ++ l₂)).history,
              c.call.newRun? = some id := by
      intro old hFound
      rcases hInv id old hFound with ⟨c, hc, hNew⟩
      exact ⟨c, List.mem_cons_of_mem _ hc, hNew⟩
    rcases run?_performAll s.db e.writes id with
      hSame | ⟨row, hRow, hWrite⟩
    · exact hOld r (hSame.symm.trans hRun)
    · have hId : row.id = id := Db.id_of_run? hRow
      rcases hWrite with hUpdate | ⟨hInsert, _⟩
      · rcases (hSound.justified _ hUpdate).2 with
          ⟨old, hFound, _⟩
        rw [hId] at hFound
        exact hOld old hFound
      · have hNew : e.call.newRun? = some row.id :=
          hSound.justified _ hInsert
        rw [hId] at hNew
        exact ⟨_, List.mem_cons_self, hNew⟩

theorem newRun?_of_claim
    {call : Call}
    {a : ClaimArgs}
    (hClaim : call.claimArgs? = some a) :
    call.newRun? = some a.runId := by
  unfold Call.newRun?
  rw [hClaim]
  rfl

variable {e : Sess}
variable {db : Db}

/- A claim in progress names a run that does not exist yet. -/
theorem run?_of_claim
    (hReach : sluice.ReachableWith ok s)
    (he : e ∈ s.sessions)
    {runId : Uuid}
    (hNew : e.call.newRun? = some runId) :
    s.db.run? runId = none := by
  cases hRun : s.db.run? runId with
  | none => rfl
  | some r =>
      rcases runs_known hReach runId r hRun with
        ⟨c, hc, hSame⟩
      have hNodup := Engine.nonces_nodup
        Call.newRun? Call.newRun_fresh hReach
      have hDisjoint := (List.nodup_append.mp hNodup).2.2
      exact absurd rfl
        (hDisjoint runId
          (List.mem_filterMap.mpr ⟨e, he, hNew⟩) runId
          (List.mem_filterMap.mpr ⟨c, hc, hSame⟩))

/- The commit of a session moves each jobs row lawfully. -/
theorem moves_committed
    (hSound : Sound db e)
    (id : Uuid) :
    Moves (postgres.entry db e) id := by
  rcases job?_performAll db e.writes id with
    hSame | ⟨row, hRow, hWrite⟩
  · exact .kept hSame
  · have hId : row.id = id := Db.id_of_job? hRow
    rcases hWrite with hUpdate | ⟨hInsert, hNone⟩
    · rcases (hSound.justified _ hUpdate).2 with
        ⟨old, hOld, hChange⟩
      rw [hId] at hOld
      exact .changed old row hOld hRow hChange
    · rcases (hSound.justified _ hInsert).1 with
        ⟨j, hCall, hEq⟩
      subst hEq
      exact .inserted j hCall hNone hRow

theorem runMoves_committed
    (hSound : Sound db e)
    (id : Uuid) :
    RunMoves (postgres.entry db e) id := by
  rcases run?_performAll db e.writes id with
    hSame | ⟨row, hRow, hWrite⟩
  · exact .kept hSame
  · have hId : row.id = id := Db.id_of_run? hRow
    rcases hWrite with hUpdate | ⟨hInsert, hNone⟩
    · rcases (hSound.justified _ hUpdate).2 with
        ⟨old, hOld, hCloses⟩
      rw [hId] at hOld
      exact .closed old row hOld hRow hCloses
    · have hNew : e.call.newRun? = some row.id :=
        hSound.justified _ hInsert
      rw [hId] at hNew
      exact .opened hNew hNone

theorem claimOpens_committed
    (hSound : Sound db e)
    {a : ClaimArgs}
    (hClaim : e.call.claimArgs? = some a)
    (hFresh : db.run? a.runId = none) :
    ClaimOpens (postgres.entry db e) a := by
  rcases hSound.claimWrites a hClaim with
    hNone | ⟨old, hOld, hPending, _, hWrites⟩
  · left
    rw [Engine.entry_after, hNone]
    rfl
  · have hAfter :
        postgres.performAll db e.writes =
          (db.perform (.updateJob (old.claim a))).perform
            (.insertRun (RunRow.opened a (old.claim a))) := by
      rw [hWrites]
      rfl
    have hId : a.jobId = (old.claim a).id :=
      (Db.id_of_job? hOld).symm
    refine .inr ⟨old, hOld, hPending, ?_, hFresh, ?_⟩
    · simp only [Engine.entry_after, hAfter,
        Db.job?_perform, if_pos hId, hOld,
        Option.map_some]
    · simp only [Engine.entry_after, hAfter,
        Db.run?_perform, hFresh, and_true]
      exact if_pos rfl

/- The commit of a session in progress is lawful. -/
theorem lawful_entry
    (hReach : sluice.ReachableWith ok s)
    (he : e ∈ s.sessions) :
    Lawful (postgres.entry s.db e) where
  jobs := moves_committed (sessions_sound hReach e he)
  runs := runMoves_committed (sessions_sound hReach e he)
  claims := fun _ hClaim =>
    claimOpens_committed (sessions_sound hReach e he) hClaim
      (run?_of_claim hReach he (newRun?_of_claim hClaim))

theorem history_lawful
    (hReach : sluice.ReachableWith ok s) :
    ∀ c ∈ s.history, Lawful c := by
  refine Engine.history_invariant ?_ hReach
  intro s e hPrev he _
  exact lawful_entry hPrev he

end Storage

end Sluice
