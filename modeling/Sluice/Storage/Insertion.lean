import Sluice.Storage.Statements

/-
  What an insertion of a job does.

  A job is inserted unless its identifier is taken or another
  row holds the idempotency key of its tenant. The columns it
  was submitted with stay as they are while it is stored.

  Key definitions include:
    * `Job.submission`
    * `HoldsKey` and `KeyFree`
    * `Origin`
    * `OneJobPerKey`

  Key theorems include:
    * `insertJob_proceeds` and `insertJob_aborts`
    * `OneJobPerKey.eq_of_mem`
    * `OneJobPerKey.of_origins`
-/

------------------------------------------------------------
-- The Columns Of A Submission
------------------------------------------------------------

namespace Sluice

/- A job without the columns that change after submission. -/
def Job.submission (j : Job) : Job :=
  { j with
    state := .pending
    runAt := 0
    claimedAt := none
    claimedBy := none
    claimToken := none
    deadline := none
    attempt := 0
    lastError := none
    completedAt := none }

section

variable {j j' : Job}

theorem Job.tenantId_of_submission
    (hSame : j.submission = j'.submission) :
    j.tenantId = j'.tenantId := by
  have hColumn := congrArg Job.tenantId hSame
  exact hColumn

theorem Job.idempotencyKey_of_submission
    (hSame : j.submission = j'.submission) :
    j.idempotencyKey = j'.idempotencyKey := by
  have hColumn := congrArg Job.idempotencyKey hSame
  exact hColumn

end

------------------------------------------------------------
-- Insertion
------------------------------------------------------------

namespace Storage

open Foundations ReadCommitted

/- Whether a row holds an idempotency key of a tenant. -/
def HoldsKey
    (tenantId : Uuid)
    (key : String)
    (j : Job) :
    Prop :=
  j.tenantId = tenantId ∧ j.idempotencyKey = some key

/- No row holds the idempotency key of a job. -/
def KeyFree (db : Db) (j : Job) : Prop :=
  ∀ key, j.idempotencyKey = some key →
    ∀ id row, db.job? id = some row →
      ¬HoldsKey j.tenantId key row

section

variable {db db' : Db}
variable {j : Job}

/- What an insertion does. -/
theorem insertJob_proceeds
    {writes : List Write}
    {locks : List RowKey}
    (hInsert : insertJob j db = .proceed writes locks) :
    writes = [.insertJob j.inserted] ∧
      db.job? j.id = none ∧ KeyFree db j := by
  unfold insertJob at hInsert
  split at hInsert
  · cases hInsert
  rename_i hId
  rw [Bool.not_eq_true, Option.isSome_eq_false_iff,
    Option.isNone_iff_eq_none] at hId
  split at hInsert
  · rename_i hKey
    cases hInsert
    refine ⟨rfl, hId, ?_⟩
    intro key hSome
    rw [hKey] at hSome
    cases hSome
  · rename_i key hKey
    split at hInsert
    · cases hInsert
    · rename_i hFree
      cases hInsert
      refine ⟨rfl, hId, ?_⟩
      intro key' hSome id row hRow hHolds
      rw [hKey] at hSome
      cases hSome
      refine hFree (List.any_eq_true.mpr
        ⟨row, Table.mem_of_find? hRow, ?_⟩)
      simp [hHolds.1, hHolds.2]

/- A new identifier is refused for its key alone. -/
theorem insertJob_aborts
    (hInsert : insertJob j db = .abort)
    (hNew : db.job? j.id = none) :
    ∃ key id row, j.idempotencyKey = some key ∧
      db.job? id = some row ∧
        HoldsKey j.tenantId key row := by
  unfold insertJob at hInsert
  rw [hNew] at hInsert
  split at hInsert
  · rename_i hSome
    cases hSome
  split at hInsert
  · cases hInsert
  · rename_i key hKey
    split at hInsert
    · rename_i hTaken
      rcases List.any_eq_true.mp hTaken with
        ⟨row, hRow, hHolds⟩
      simp only [Bool.and_eq_true, decide_eq_true_eq]
        at hHolds
      exact ⟨key, row.id, row, hKey,
        Table.find?_of_mem hRow, hHolds⟩
    · cases hInsert

end

------------------------------------------------------------
-- The Unique Index
------------------------------------------------------------

variable {db db' : Db}

/-
  Where a row comes from: it was there before, perhaps in
  another version, or it has just been inserted.
-/
inductive Origin
    (db : Db)
    (inserts : Option Job)
    (id : Uuid)
    (j : Job) :
    Prop
| kept (old : Job) :
    db.job? id = some old →
      j.submission = old.submission → Origin db inserts id j
| inserted (new : Job) :
    inserts = some new → j = new.inserted →
      new.id = id → db.job? id = none → KeyFree db new →
        Origin db inserts id j

/- At most one row holds a key of a tenant. -/
def OneJobPerKey (db : Db) : Prop :=
  ∀ tenantId key id id' j j',
    db.job? id = some j → db.job? id' = some j' →
      HoldsKey tenantId key j → HoldsKey tenantId key j' →
        id = id'

theorem OneJobPerKey.of_jobs
    (hUnique : OneJobPerKey db)
    (hJobs : db'.jobs = db.jobs) :
    OneJobPerKey db' := by
  unfold OneJobPerKey Db.job?
  rw [hJobs]
  exact hUnique

theorem OneJobPerKey.eq_of_mem
    {tenantId : Uuid}
    {key : String}
    {j j' : Job}
    (hUnique : OneJobPerKey db)
    (hMem : j ∈ db.jobs.rows)
    (hMem' : j' ∈ db.jobs.rows)
    (hHolds : HoldsKey tenantId key j)
    (hHolds' : HoldsKey tenantId key j') :
    j = j' := by
  have hJob : db.job? j.id = some j :=
    Table.find?_of_mem hMem
  have hJob' : db.job? j'.id = some j' :=
    Table.find?_of_mem hMem'
  have hId : j.id = j'.id :=
    hUnique tenantId key _ _ j j' hJob hJob' hHolds hHolds'
  rw [hId, hJob'] at hJob
  exact (Option.some.inj hJob).symm

theorem HoldsKey.of_submission
    {tenantId : Uuid}
    {key : String}
    {j old : Job}
    (hHolds : HoldsKey tenantId key j)
    (hSame : j.submission = old.submission) :
    HoldsKey tenantId key old :=
  ⟨(Job.tenantId_of_submission hSame).symm.trans hHolds.1,
    (Job.idempotencyKey_of_submission hSame).symm.trans
      hHolds.2⟩

/- No other identifier gets a row than that of a new job. -/
theorem job?_eq_none_of_origins
    {inserts : Option Job}
    {id : Uuid}
    (hOrigins :
      ∀ id j, db'.job? id = some j →
        Origin db inserts id j)
    (hOther : ∀ new, inserts = some new → new.id ≠ id)
    (hNone : db.job? id = none) :
    db'.job? id = none := by
  cases hAfter : db'.job? id with
  | none => rfl
  | some row =>
      cases hOrigins id row hAfter with
      | kept old hOld _ =>
          rw [hNone] at hOld
          cases hOld
      | inserted new hInserts _ hId _ _ =>
          exact absurd hId (hOther new hInserts)

/- Rows with these origins share no key. -/
theorem OneJobPerKey.of_origins
    {inserts : Option Job}
    (hUnique : OneJobPerKey db)
    (hOrigins :
      ∀ id j, db'.job? id = some j →
        Origin db inserts id j) :
    OneJobPerKey db' := by
  intro tenantId key id id' j j' hJob hJob' hHolds hHolds'
  -- A new row holds no key that an old row holds.
  have hNever :
      ∀ {id id' : Uuid} {new old : Job},
        db.job? id' = some old →
          HoldsKey tenantId key old →
            HoldsKey tenantId key new.inserted →
              KeyFree db new → id = id' := by
    intro id id' new old hOld hOldHolds hNew hFree
    have hTaken := hFree key hNew.2 id' old hOld
    rw [show new.tenantId = tenantId from hNew.1] at hTaken
    exact absurd hOldHolds hTaken
  cases hOrigins id j hJob with
  | kept old hOld hSame =>
      cases hOrigins id' j' hJob' with
      | kept old' hOld' hSame' =>
          exact hUnique tenantId key id id' old old' hOld
            hOld' (hHolds.of_submission hSame)
            (hHolds'.of_submission hSame')
      | inserted new _ hEq _ _ hFree =>
          subst hEq
          exact (hNever hOld (hHolds.of_submission hSame)
            hHolds' hFree).symm
  | inserted new hInserts hEq hId _ hFree =>
      subst hEq
      cases hOrigins id' j' hJob' with
      | kept old' hOld' hSame' =>
          exact hNever hOld' (hHolds'.of_submission hSame')
            hHolds hFree
      | inserted new' hInserts' _ hId' _ _ =>
          cases hInserts.symm.trans hInserts'
          exact hId.symm.trans hId'

end Storage

end Sluice
