import Sluice.Storage.Partitions

/-
  The partition maintainer of the scheduler.

  For each of the months ahead `ensurePartitions` adds that
  many months to the present date and asks for the partition
  of the month it lands in. A month too short for the day of
  the present date is passed over: its partition is not asked
  for, and that of the next month twice.

  Key definitions include:
    * `ensurePartitions`
    * `HasMonth`

  Key theorems include:
    * `hasMonth_ensureLoop_iff`
    * `lookahead_complete_iff`
    * `february_skipped`
-/

------------------------------------------------------------
-- The Loop
------------------------------------------------------------

namespace Sluice

namespace Scheduler

open Foundations Gregorian Storage

def partitionLookaheadMonths : Nat := 3

/- The date of an instant in UTC. -/
def today (now : Time) : Date :=
  dateOf (now / dayLength)

/- `now.AddDate(0, i, 0)`. -/
def target (now : Time) (i : Nat) : Date :=
  addDate (today now) 0 i 0

/-
  One turn of the loop, on the catalog and on whether every
  statement so far has succeeded. An error is only logged.
-/
def ensureTurn
    (z : Zone)
    (now : Time)
    (before : List Partition × Bool)
    (i : Nat) :
    List Partition × Bool :=
  match
    ensureJobRunsPartition z (target now i).year
      (target now i).monthOfYear before.1
  with
  | some catalog => (catalog, before.2)
  | none => (before.1, false)

def ensureLoop
    (z : Zone)
    (now : Time)
    (turns : List Nat)
    (before : List Partition × Bool) :
    List Partition × Bool :=
  turns.foldl (ensureTurn z now) before

/-
  The catalog after a pass, and whether all of its statements
  succeeded.
-/
def ensurePartitions
    (z : Zone)
    (now : Time)
    (catalog : List Partition) :
    List Partition × Bool :=
  ensureLoop z now
    (List.range' 1 partitionLookaheadMonths) (catalog, true)

/- The table of a month that is counted through exists. -/
def HasMonth (catalog : List Partition) (k : Int) : Prop :=
  ∃ p ∈ catalog, p.name = monthName k

instance (catalog : List Partition) (k : Int) :
    Decidable (HasMonth catalog k) :=
  inferInstanceAs
    (Decidable (∃ p ∈ catalog, p.name = monthName k))

------------------------------------------------------------
-- What a Pass Leaves
------------------------------------------------------------

variable {z : Zone}
variable {now : Time}
variable {before : List Partition × Bool}

/- A turn that succeeds adds the month it lands in. -/
theorem hasMonth_ensureTurn_iff
    {i : Nat}
    (hAll : (ensureTurn z now before i).2 = true)
    (k : Int) :
    HasMonth (ensureTurn z now before i).1 k ↔
      HasMonth before.1 k ∨ k = (target now i).month := by
  unfold ensureTurn at hAll ⊢
  split at hAll
  · rename_i catalog hEnsure
    have hName :
        partitionName (target now i).year
            (target now i).monthOfYear =
          monthName (target now i).month := rfl
    unfold ensureJobRunsPartition at hEnsure
    rcases createPartition_cases hEnsure with
      ⟨hSame, q, hq, hThere⟩ | ⟨q, hNew, hAdded⟩
    · rw [hSame]
      constructor
      · exact Or.inl
      · rintro (hHas | rfl)
        · exact hHas
        · exact ⟨q, hq, hThere.trans hName⟩
    · rw [hAdded]
      constructor
      · rintro ⟨p, hp, hIs⟩
        rcases List.mem_append.mp hp with hOld | hLast
        · exact Or.inl ⟨p, hOld, hIs⟩
        · rw [List.mem_singleton] at hLast
          rw [hLast, hNew, hName] at hIs
          exact Or.inr (monthName_injective hIs).symm
      · rintro (⟨p, hp, hIs⟩ | rfl)
        · exact ⟨p, List.mem_append_left _ hp, hIs⟩
        · exact
            ⟨q, List.mem_append_right _ List.mem_cons_self,
              hNew.trans hName⟩
  · cases hAll

/- A failed turn is not forgotten. -/
theorem all_of_all_ensureLoop
    {turns : List Nat}
    (hAll : (ensureLoop z now turns before).2 = true) :
    before.2 = true := by
  unfold ensureLoop at hAll
  induction turns generalizing before with
  | nil => exact hAll
  | cons i turns ih =>
      rw [List.foldl_cons] at hAll
      have hTurn := ih hAll
      unfold ensureTurn at hTurn
      split at hTurn
      · exact hTurn
      · cases hTurn

theorem hasMonth_ensureLoop_iff
    {turns : List Nat}
    (hAll : (ensureLoop z now turns before).2 = true)
    (k : Int) :
    HasMonth (ensureLoop z now turns before).1 k ↔
      HasMonth before.1 k ∨
        ∃ i ∈ turns, k = (target now i).month := by
  induction turns generalizing before with
  | nil =>
      constructor
      · exact Or.inl
      · rintro (hHas | ⟨i, hi, -⟩)
        · exact hHas
        · cases hi
  | cons i turns ih =>
      have hRest :
          ensureLoop z now (i :: turns) before =
            ensureLoop z now turns
              (ensureTurn z now before i) := rfl
      rw [hRest] at hAll ⊢
      rw [ih hAll,
        hasMonth_ensureTurn_iff (all_of_all_ensureLoop hAll),
        List.exists_mem_cons_iff, or_assoc]

/-
  A turn leads to the month meant, or to the next one, which
  is then long enough to be reached by a turn of its own.
-/
theorem month_target_cases (now : Time) (i : Nat) :
    ((today now).day ≤ daysIn ((today now).month + i) ∧
        (target now i).month = (today now).month + i) ∨
      (daysIn ((today now).month + i) < (today now).day ∧
        (today now).day ≤
          daysIn ((today now).month + i + 1) ∧
        (target now i).month = (today now).month + i + 1) := by
  have hMonth := month_addDate (today now) i
  split at hMonth
  · rename_i hLong
    exact Or.inl ⟨hLong, hMonth⟩
  · rename_i hShort
    have hDay := (today now).le_daysIn
    have hMost := (daysIn_bounds (today now).month).2
    have hNext :=
      daysIn_succ_of_short
        (k := (today now).month + i) (by omega)
    exact Or.inr ⟨by omega, by omega, hMonth⟩

/-
  After a pass whose statements all succeeded, the months
  ahead have their partitions if and only if each of them has
  the day of the present date, or had its partition before.
-/
theorem lookahead_complete_iff
    {z : Zone}
    {now : Time}
    {catalog : List Partition}
    (hAll : (ensurePartitions z now catalog).2 = true) :
    (∀ i : Nat, 1 ≤ i → i ≤ partitionLookaheadMonths →
      HasMonth (ensurePartitions z now catalog).1
        ((today now).month + i)) ↔
      ∀ i : Nat, 1 ≤ i → i ≤ partitionLookaheadMonths →
        (today now).day ≤ daysIn ((today now).month + i) ∨
          HasMonth catalog ((today now).month + i) := by
  unfold ensurePartitions at hAll ⊢
  have hTurns :
      ∀ i, i ∈ List.range' 1 partitionLookaheadMonths ↔
        1 ≤ i ∧ i ≤ partitionLookaheadMonths := by
    intro i
    rw [List.mem_range'_1]
    omega
  constructor
  · intro hHas i hFirst hLast
    rcases (hasMonth_ensureLoop_iff hAll _).mp
        (hHas i hFirst hLast) with hBefore | ⟨j, -, hLands⟩
    · exact Or.inr hBefore
    · left
      rcases month_target_cases now j with
        ⟨hLong, hSame⟩ | ⟨-, hNext, hOver⟩
      · rw [hLands, hSame]
        exact hLong
      · rw [hLands, hOver]
        exact hNext
  · intro hMonths i hFirst hLast
    rw [hasMonth_ensureLoop_iff hAll]
    rcases hMonths i hFirst hLast with hLong | hBefore
    · right
      refine ⟨i, (hTurns i).mpr ⟨hFirst, hLast⟩, ?_⟩
      rcases month_target_cases now i with
        ⟨-, hSame⟩ | ⟨hShort, -, -⟩
      · exact hSame.symm
      · omega
    · exact Or.inl hBefore

namespace Sample

/- A session in UTC. -/
def utc : Zone where
  offset := 0
  refuses := fun _ => false

/- Noon of the 15th of November 2026. -/
def midNovember : Time := 1794744000000000

/- Noon of the 31st of December 2026. -/
def endOfYear : Time := 1798718400000000

end Sample

/- In the middle of a month nothing is passed over. -/
theorem lookahead_complete_mid_november :
    (ensurePartitions Sample.utc Sample.midNovember []).2 =
        true ∧
      ∀ i : Nat, 1 ≤ i → i ≤ partitionLookaheadMonths →
        HasMonth
          (ensurePartitions Sample.utc Sample.midNovember []).1
          ((today Sample.midNovember).month + i) := by
  have hAll :
      (ensurePartitions Sample.utc Sample.midNovember []).2 =
        true := by
    decide +kernel
  refine ⟨hAll, (lookahead_complete_iff hAll).mpr ?_⟩
  intro i hFirst hLast
  left
  have hDay : (today Sample.midNovember).day = 15 := by
    decide +kernel
  have hDays :=
    (daysIn_bounds ((today Sample.midNovember).month + i)).1
  omega

/-
  On the last of December every statement succeeds, and there
  is no partition for the February that follows.
-/
theorem february_skipped :
    (ensurePartitions Sample.utc Sample.endOfYear []).2 =
        true ∧
      2 ≤ partitionLookaheadMonths ∧
      monthName ((today Sample.endOfYear).month + 2) =
        "job_runs_2027_02" ∧
      ¬ HasMonth
        (ensurePartitions Sample.utc Sample.endOfYear []).1
        ((today Sample.endOfYear).month + 2) := by
  decide +kernel

end Scheduler

end Sluice
