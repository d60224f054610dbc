import Sluice.Scheduler.Reconcile
import Sluice.Storage.Submissions

/-
  A pass of the reconciler over a table that changes.

  Between two of its queries any statements may run: jobs are
  inserted, claimed, finished, cancelled, released and
  deleted. None of them changes what a page is ordered by,
  and a new job has an identifier that was never used. So a
  job keeps its place in the order for as long as it exists.

  Key definitions include:
    * `Watched` and `watched`
    * `Changes`
    * `pagesOf`

  Key theorems include:
    * `Changes.same_key`
    * `pages_neither_skip_nor_repeat`
-/

------------------------------------------------------------
-- Changes Between Queries
------------------------------------------------------------

namespace Sluice

namespace Scheduler

open Foundations Storage Queue

/-
  A database that others write to. `born` keeps the cursor of
  every job that was ever stored.
-/
structure Watched where
  db : Db
  born : Uuid → Option PendingCursor

namespace Watched

/-
  A new job has been validated, and its identifier comes from
  `uuid.New`.
-/
def admits (s : Watched) (st : Statement) : Bool :=
  st.inserts?.all
    (fun j =>
      (s.born j.id).isNone &&
        (decide (priorityHigh ≤ j.priority) &&
          decide (j.priority ≤ priorityLow)))

/- The jobs that were stored after a statement. -/
def register
    (s : Watched)
    (st : Statement) :
    Uuid → Option PendingCursor :=
  match st.inserts? with
  | none => s.born
  | some j =>
      Function.update s.born j.id (some (pendingKey j))

def step (st : Statement) (s : Watched) : Option Watched :=
  if s.admits st then
    (st.step s.db).map
      (fun db => { db := db, born := s.register st })
  else none

end Watched

def watched : Machine Watched Statement where
  init s := s.db.initial ∧ s.born = fun _ => none
  step := Watched.step

/- The database at the queries of a pass. -/
structure Changes (states : Nat → Watched) : Prop where
  start : watched.Reachable (states 0)
  next : ∀ n, ∃ changes,
    watched.run changes (states n) = some (states (n + 1))

/- What the queries see; `now` is the scheduler's clock. -/
def viewsOf
    (states : Nat → Watched)
    (now : Nat → Time)
    (n : Nat) :
    View where
  db := (states n).db
  now := now n

/- The pages that a pass reads, with their cursors. -/
def pagesOf
    (view : Nat → View) :
    List (PendingCursor × List Job) :=
  Paging.pages pendingKey pendingReconcileMaxPerPass
    batchSize_pos
    (fun n => pendingSince (view n) pendingReconcileAge) 0
    .zero 0

------------------------------------------------------------
-- A Job Keeps Its Place
------------------------------------------------------------

/- Stored jobs have their first cursor and a priority. -/
def Watched.Known (s : Watched) : Prop :=
  ∀ id j, s.db.job? id = some j →
    s.born id = some (pendingKey j) ∧
      priorityHigh ≤ j.priority

section

variable {s s' : Watched}
variable {st : Statement}

theorem Watched.step_eq_some
    (hStep : Watched.step st s = some s') :
    s.admits st = true ∧ st.step s.db = some s'.db ∧
      s'.born = s.register st := by
  unfold Watched.step at hStep
  split at hStep
  · rename_i hAdmits
    rcases Option.map_eq_some_iff.mp hStep with
      ⟨db, hDb, rfl⟩
    exact ⟨hAdmits, hDb, rfl⟩
  · cases hStep

/- A cursor that is known stays known. -/
theorem Watched.born_step
    {id : Uuid}
    {k : PendingCursor}
    (hStep : Watched.step st s = some s')
    (hBorn : s.born id = some k) :
    s'.born id = some k := by
  rcases Watched.step_eq_some hStep with
    ⟨hAdmits, _, hRegister⟩
  rw [hRegister]
  unfold Watched.register
  cases hNew : st.inserts? with
  | none => exact hBorn
  | some j =>
      have hOther : id ≠ j.id := by
        rintro rfl
        rw [Watched.admits, hNew] at hAdmits
        simp [hBorn] at hAdmits
      simpa [Function.update_of_ne hOther] using hBorn

theorem Watched.born_run
    {changes : List Statement}
    {id : Uuid}
    {k : PendingCursor}
    (hRun : watched.run changes s = some s')
    (hBorn : s.born id = some k) :
    s'.born id = some k := by
  induction changes generalizing s with
  | nil =>
      cases hRun
      exact hBorn
  | cons st changes ih =>
      rw [Machine.run_cons] at hRun
      rcases Option.bind_eq_some_iff.mp hRun with
        ⟨mid, hMid, hRest⟩
      exact ih hRest (Watched.born_step hMid hBorn)

theorem Watched.Known.step
    (hKnown : s.Known)
    (hStep : Watched.step st s = some s') :
    s'.Known := by
  rcases Watched.step_eq_some hStep with
    ⟨hAdmits, hDb, hRegister⟩
  intro id j hJob
  cases Statement.step_job hDb hJob with
  | kept old hOld hSame =>
    rcases hKnown id old hOld with ⟨hBorn, hValid⟩
    have hKey : pendingKey j = pendingKey old :=
      (congrArg pendingKey hSame :)
    have hPriority : j.priority = old.priority :=
      (congrArg Job.priority hSame :)
    rw [hKey, hPriority]
    exact ⟨Watched.born_step hStep hBorn, hValid⟩
  | inserted new hNew hRow hId =>
    rw [Watched.admits, hNew] at hAdmits
    simp only [Option.all_some, Bool.and_eq_true,
      decide_eq_true_eq] at hAdmits
    rw [hRegister, hRow]
    refine ⟨?_, hAdmits.2.1⟩
    unfold Watched.register
    rw [hNew, ← hId]
    exact Function.update_self _ _ _

theorem Watched.known_of_reachable
    (hReach : watched.Reachable s) :
    s.Known := by
  refine hReach.invariant ?_ ?_
  · intro s hInit id j hJob
    rw [hInit.1.job?] at hJob
    cases hJob
  · intro s st s' _ hKnown _ hStep
    exact hKnown.step hStep

end

section

variable {states : Nat → Watched}

theorem Changes.reachable
    (hChanges : Changes states)
    (n : Nat) :
    watched.Reachable (states n) := by
  induction n with
  | zero => exact hChanges.start
  | succ n ih =>
      rcases hChanges.next n with ⟨changes, hRun⟩
      exact ih.of_run hRun

theorem Changes.born
    (hChanges : Changes states)
    {n m : Nat}
    {id : Uuid}
    {k : PendingCursor}
    (hLe : n ≤ m)
    (hBorn : (states n).born id = some k) :
    (states m).born id = some k := by
  induction m, hLe using Nat.le_induction with
  | base => exact hBorn
  | succ m _ ih =>
      rcases hChanges.next m with ⟨changes, hRun⟩
      exact Watched.born_run hRun ih

/- A job has the same key at every query. -/
theorem Changes.same_key
    (hChanges : Changes states)
    {n m : Nat}
    {a b : Job}
    (ha : a ∈ (states n).db.jobs.rows)
    (hb : b ∈ (states m).db.jobs.rows)
    (hId : a.id = b.id) :
    pendingKey a = pendingKey b := by
  have hFindA : (states n).db.job? a.id = some a :=
    Table.find?_of_mem ha
  have hFindB : (states m).db.job? a.id = some b := by
    rw [hId]
    exact Table.find?_of_mem hb
  have hA := (Watched.known_of_reachable
    (hChanges.reachable n) a.id a hFindA).1
  have hB := (Watched.known_of_reachable
    (hChanges.reachable m) a.id b hFindB).1
  have hA' := hChanges.born (Nat.le_max_left n m) hA
  have hB' := hChanges.born (Nat.le_max_right n m) hB
  exact Option.some.inj (hA'.symm.trans hB')

------------------------------------------------------------
-- The Pass
------------------------------------------------------------

theorem visited_eq_pages (view : Nat → View) :
    visited view = (pagesOf view).flatMap Prod.snd :=
  Paging.sweep_eq_pages

/- A page that is not empty moves the cursor forward. -/
theorem pagesOf_advance
    {view : Nat → View}
    {p : PendingCursor × List Job}
    (hp : p ∈ pagesOf view)
    (hSome : p.2 ≠ []) :
    p.1 < Paging.nextCursor pendingKey p.2 p.1 := by
  rcases Paging.nextCursor_mem pendingKey p.1
    (List.length_pos_iff.mpr hSome) with ⟨j, hj, hNext⟩
  rw [hNext]
  exact Paging.after_lt_of_mem_pages hp hj

variable {now : Nat → Time}

/- No two visited rows are versions of one job. -/
theorem Changes.visited_nodup
    (hChanges : Changes states)
    (now : Nat → Time) :
    ((visited (viewsOf states now)).map Job.id).Nodup := by
  have hSorted :
      (visited (viewsOf states now)).Pairwise
        (fun a b => pendingKey a < pendingKey b) :=
    Paging.sweep_sorted (fun _ => pendingKeys_nodup _ _)
  apply List.pairwise_map.mpr
  refine hSorted.imp_of_mem ?_
  intro a b ha hb hLess hId
  rcases (Paging.mem_of_mem_sweep ha).1 with ⟨n, hn⟩
  rcases (Paging.mem_of_mem_sweep hb).1 with ⟨m, hm⟩
  have hSame := hChanges.same_key
    (List.mem_of_mem_filter hn) (List.mem_of_mem_filter hm)
    hId
  rw [hSame] at hLess
  exact lt_irrefl _ hLess

/- Every stored job comes after the first cursor. -/
theorem Changes.after_zero
    (hChanges : Changes states)
    {n : Nat}
    {j : Job}
    (hj : j ∈ (states n).db.jobs.rows) :
    PendingCursor.zero < pendingKey j := by
  have hValid := (Watched.known_of_reachable
    (hChanges.reachable n) j.id j
    (Table.find?_of_mem hj)).2
  refine Prod.Lex.toLex_lt_toLex.mpr (.inl ?_)
  change 0 < j.priority
  unfold priorityHigh at hValid
  omega

/-
  A job that every query can find is visited, if it does not
  come after the last job visited.
-/
theorem Changes.visited_of_le_last
    (hChanges : Changes states)
    {id : Uuid}
    {last : Job}
    (hLast :
      (visited (viewsOf states now)).getLast? = some last)
    (hStays :
      ∀ m < (pagesOf (viewsOf states now)).length,
        ∃ j ∈ pendingSince (viewsOf states now m)
            pendingReconcileAge,
          j.id = id ∧ pendingKey j ≤ pendingKey last) :
    ∃ j ∈ visited (viewsOf states now), j.id = id := by
  have hMem := List.mem_of_getLast? hLast
  have hPages :
      0 < (pagesOf (viewsOf states now)).length := by
    rw [visited_eq_pages] at hMem
    rcases List.mem_flatMap.mp hMem with ⟨p, hp, _⟩
    exact List.length_pos_of_mem hp
  rcases hStays 0 hPages with ⟨j, hj, rfl, hLe⟩
  have hRow := List.mem_of_mem_filter hj
  have hFound :
      (∃ b ∈ visited (viewsOf states now),
          pendingKey b = pendingKey j) ∨ _ :=
    Paging.key_mem_sweep_or_capped
      (fun _ => pendingKeys_nodup _ _)
      (fun m _ hm => by
        rw [Nat.zero_add] at hm
        rcases hStays m hm with ⟨j', hj', hId, _⟩
        exact ⟨j', hj',
          hChanges.same_key (List.mem_of_mem_filter hj')
            hRow hId⟩)
      (hChanges.after_zero hRow)
  rcases hFound with ⟨b, hb, hSame⟩ | ⟨_, hBefore⟩
  · refine ⟨b, hb, ?_⟩
    exact congrArg (fun k => (ofLex (ofLex k).2).2) hSame
  · exact absurd hLe (not_le.mpr (hBefore last hMem))

/-
  Whatever happens between the queries of a pass: it visits
  no job twice, its cursor only goes forward, it visits at
  most 5000 jobs, and it skips no job that it could have
  found at each query.
-/
theorem pages_neither_skip_nor_repeat
    (hChanges : Changes states)
    (now : Nat → Time) :
    (∀ r, reconcilePending (viewsOf states now) r =
        enqueueAll (visited (viewsOf states now)) r) ∧
      visited (viewsOf states now) =
        (pagesOf (viewsOf states now)).flatMap Prod.snd ∧
      ((visited (viewsOf states now)).map Job.id).Nodup ∧
      ((pagesOf (viewsOf states now)).map
        Prod.fst).Pairwise (· < ·) ∧
      (∀ p ∈ pagesOf (viewsOf states now), p.2 ≠ [] →
        p.1 < Paging.nextCursor pendingKey p.2 p.1) ∧
      (visited (viewsOf states now)).length ≤
        pendingReconcileMaxPerPass ∧
      ∀ id last,
        (visited (viewsOf states now)).getLast? = some last →
          (∀ m < (pagesOf (viewsOf states now)).length,
            ∃ j ∈ pendingSince (viewsOf states now m)
                pendingReconcileAge,
              j.id = id ∧ pendingKey j ≤ pendingKey last) →
            ∃ j ∈ visited (viewsOf states now),
              j.id = id := by
  refine ⟨fun r => reconcilePending_eq _ r,
    visited_eq_pages _, hChanges.visited_nodup now,
    Paging.pages_sorted.1, fun p hp => pagesOf_advance hp, ?_,
    fun id last hLast hStays =>
      hChanges.visited_of_le_last hLast hStays⟩
  have hLength :
      0 + (visited (viewsOf states now)).length ≤
        pendingReconcileMaxPerPass :=
    Paging.sweep_length_le (by decide) (Nat.dvd_zero _)
      (Nat.zero_le _)
  omega

end

namespace Sample

/- The first `n` jobs, inserted one after the other. -/
def stored (n : Nat) : Watched where
  db := (view n).db
  born := fun id =>
    if 0 < id ∧ id ≤ n then
      some (pendingKey (Storage.Sample.job id))
    else none

/- Insert the next job, in one statement. -/
def insert (n : Nat) : Statement :=
  .call (.insertJob (job n)) 0 0 (fun k => k) (fun _ => false)

theorem jobs_insert (n : Nat) :
    (jobs n).insert (job n) = jobs (n + 1) := by
  have hNew :
      Keyed.key (job n) ∉ (jobs n).rows.map Keyed.key := by
    change n + 1 ∉ (jobs n).rows.map Job.id
    simp [jobs, job, Storage.Sample.job]
  have hRows :
      (jobs n).rows ++ [job n] = (jobs (n + 1)).rows := by
    simp [jobs, List.range_succ]
  unfold Table.insert
  rw [dif_neg hNew]
  congr

theorem born_insert (n : Nat) :
    Function.update (stored n).born (job n).id
        (some (pendingKey (job n))) =
      (stored (n + 1)).born := by
  funext id
  change Function.update _ (n + 1) _ id = _
  rcases Nat.lt_trichotomy id (n + 1) with hLt | rfl | hGt
  · rw [Function.update_of_ne (Nat.ne_of_lt hLt)]
    simp only [stored, Nat.lt_succ_iff.mp hLt,
      Nat.le_of_lt hLt]
  · rw [Function.update_self]
    exact (if_pos ⟨Nat.succ_pos n, Nat.le_refl _⟩).symm
  · rw [Function.update_of_ne (Nat.ne_of_gt hGt)]
    simp [stored, Nat.not_le.mpr hGt,
      Nat.not_le.mpr (Nat.lt_of_succ_lt hGt)]

theorem step_insert (n : Nat) :
    watched.step (insert n) (stored n) =
      some (stored (n + 1)) := by
  have hNone : (stored n).db.job? (job n).id = none := by
    refine Table.find?_eq_none_iff.mpr ?_
    intro j hMem hSame
    rcases List.mem_map.mp hMem with ⟨i, hi, rfl⟩
    have hEq : i + 1 = n + 1 := hSame
    have hLt := List.mem_range.mp hi
    omega
  have hBorn : (stored n).born (job n).id = none := by
    refine if_neg ?_
    rintro ⟨_, hLe⟩
    exact Nat.not_succ_le_self n hLe
  have hOutcome :
      insertJob (job n) (stored n).db =
        .proceed [.insertJob (job n)] [.job (job n).id] := by
    unfold insertJob
    rw [hNone]
    rfl
  have hStep :
      (insert n).step (stored n).db =
        some { (stored n).db with jobs := jobs (n + 1) } := by
    change (stored n).db.apply
      (insertJob (job n) (stored n).db) = _
    rw [hOutcome, ← jobs_insert n]
    rfl
  have hAdmits : (stored n).admits (insert n) = true := by
    simp only [Watched.admits, insert, Statement.inserts?,
      Option.all_some, hBorn]
    rfl
  change (stored n).step (insert n) = _
  unfold Watched.step
  rw [if_pos hAdmits, hStep]
  change some (Watched.mk _ (Function.update _ _ _)) = _
  rw [born_insert]
  rfl

theorem reachable_stored (n : Nat) :
    watched.Reachable (stored n) := by
  induction n with
  | zero =>
      refine .start ⟨⟨rfl, rfl, rfl⟩, ?_⟩
      funext id
      exact if_neg (fun h => Nat.not_lt_zero _ (h.1.trans_le h.2))
  | succ n ih => exact .next _ ih trivial (step_insert n)

/- A job comes in behind the first page. -/
def growing (n : Nat) : Watched :=
  if n = 0 then stored 501 else stored 502

/- A pass that reads two pages. -/
theorem visited_of_two
    {view : Nat → View}
    {rows rows' : List Job}
    (hFirst :
      Paging.page pendingKey
          (pendingSince (view 0) pendingReconcileAge) .zero
          pendingReconcileBatchSize =
        rows)
    (hFull : rows.length = 500)
    (hSecond :
      Paging.page pendingKey
          (pendingSince (view 1) pendingReconcileAge)
          (Paging.nextCursor pendingKey rows .zero)
          pendingReconcileBatchSize =
        rows')
    (hShort : rows'.length < 500) :
    visited view = rows ++ rows' := by
  subst hFirst hSecond
  unfold visited visitedFrom
  rw [Paging.sweep_of_full (by decide)
    (fun hLess => Nat.ne_of_lt hLess hFull)]
  refine congrArg _ (Paging.sweep_of_short ?_ hShort)
  rw [hFull]
  decide

theorem visited_growing :
    visited (viewsOf growing (fun _ => 60 * second)) =
      (List.range 500).map job ++ [job 500, job 501] := by
  refine visited_of_two ?_ (by simp) ?_ (by decide)
  · change
      Paging.page pendingKey
          (pendingSince (view 501) pendingReconcileAge) _ _ =
        _
    decide +kernel
  · change
      Paging.page pendingKey
          (pendingSince (view 502) pendingReconcileAge) _ _ =
        _
    decide +kernel

end Sample

/- The second page has the job that came in behind the first. -/
theorem pages_neither_skip_nor_repeat_sample :
    Changes Sample.growing ∧
      visited (viewsOf Sample.growing (fun _ => 60 * second)) =
          (List.range 500).map Sample.job ++
            [Sample.job 500, Sample.job 501] ∧
        ((visited
          (viewsOf Sample.growing
            (fun _ => 60 * second))).map Job.id).Nodup := by
  have hChanges : Changes Sample.growing := by
    refine ⟨Sample.reachable_stored 501, ?_⟩
    intro n
    cases n with
    | zero =>
        refine ⟨[Sample.insert 501], ?_⟩
        change watched.run _ (Sample.stored 501) = _
        rw [Machine.run_cons, Sample.step_insert]
        rfl
    | succ n => exact ⟨[], rfl⟩
  have hPass := pages_neither_skip_nor_repeat hChanges
    (fun _ => 60 * second)
  exact ⟨hChanges, Sample.visited_growing, hPass.2.2.1⟩

end Scheduler

end Sluice
