import Sluice.Foundations.Decimal
import Sluice.Foundations.Gregorian
import Sluice.Job.Basic

/-
  The monthly partitions of table `job_runs`.

  `EnsureJobRunsPartition` writes the range of a partition as
  two dates, which Postgres reads as midnights in the time
  zone of the session. `DropJobRunsPartitionsBefore` takes
  the end of the range from the name of the table instead,
  and as a midnight in UTC. So the two agree only in a session
  that runs in UTC. West of it, rows are dropped that are not
  yet past the cutoff; east of it, a partition is kept for
  some hours too long.

  Key definitions include:
    * `partitionName` and `monthlyPartition`
    * `dateLiteral` and `readDate`
    * `ensureJobRunsPartition`
    * `dropJobRunsPartitionsBefore`
    * `KeepsRecent` and `CutoffSafe`

  Key theorems include:
    * `monthlyPartition_eq_some_iff`
    * `readDate_dateLiteral`
    * `mem_ensureAll`
    * `keepsRecent_iff`
    * `drops_past_partitions_iff`
    * `recent_run_dropped`
-/

------------------------------------------------------------
-- Names
------------------------------------------------------------

namespace Sluice

namespace Storage

open Foundations Gregorian Decimal

def jobRunsStem : List Char :=
  ['j', 'o', 'b', '_', 'r', 'u', 'n', 's', '_']

/- `job_runs_%04d_%02d`. -/
def partitionName (year month : Int) : String :=
  String.ofList
    (jobRunsStem ++
      (signedPadded 4 year ++ '_' :: signedPadded 2 month))

/- The partition of the runs that no other table holds. -/
def defaultName : String := "job_runs_default"

/- The name for a month that is counted through. -/
def monthName (k : Int) : String :=
  partitionName (k / 12) (k % 12 + 1)

/-
  The submatches of `^job_runs_(\d{4})_(\d{2})$`, as numbers.
-/
def monthlyPartition (name : String) : Option (Nat × Nat) :=
  match name.toList.dropPrefix? jobRunsStem with
  | some [y₁, y₂, y₃, y₄, '_', m₁, m₂] =>
      match
        number? [y₁, y₂, y₃, y₄], number? [m₁, m₂]
      with
      | some year, some month => some (year, month)
      | _, _ => none
  | _ => none

------------------------------------------------------------
-- Date Literals
------------------------------------------------------------

/- `Format("2006-01-02")` of a date after year zero. -/
def dateLiteral (d : Date) : String :=
  String.ofList
    (padded 4 d.year.toNat ++ '-' ::
      (padded 2 d.monthOfYear.toNat ++ '-' ::
        padded 2 d.day.toNat))

/- The date of these numbers; there is no year zero. -/
def dateOfParts (year month day : Nat) : Option Date :=
  let k : Int := 12 * year + month - 1
  if hDay : 1 ≤ (day : Int) ∧ (day : Int) ≤ daysIn k then
    if 1 ≤ year ∧ 1 ≤ month ∧ month ≤ 12 then
      some ⟨k, day, hDay.1, hDay.2⟩
    else none
  else none

/-
  A bound `YYYY-MM-DD`, as Postgres reads it; years of more
  than four digits are written out.
-/
def readDate (literal : String) : Option Date :=
  match literal.toList.reverse with
  | d₂ :: d₁ :: '-' :: m₂ :: m₁ :: '-' :: year =>
      match
        number? year.reverse, number? [m₁, m₂],
          number? [d₁, d₂]
      with
      | some year, some month, some day =>
          dateOfParts year month day
      | _, _, _ => none
  | _ => none

/- `24 * time.Hour`. -/
def dayLength : Time := 86400000000

/-
  Midnight in a time zone that is ahead of UTC by `offset`.
-/
def midnight (offset : Time) (d : Date) : Time :=
  d.number * dayLength - offset

/- The first day of a month that is counted through. -/
def firstOf (k : Int) : Date where
  month := k
  day := 1
  one_le := Int.le_refl 1
  le_daysIn := by
    have hDays := (daysIn_bounds k).1
    omega

------------------------------------------------------------
-- Partitions
------------------------------------------------------------

/-
  A table attached to `job_runs`. It holds the runs that
  started in its range, or as the default partition those
  that no other table holds.
-/
structure Partition where
  name : String
  range : Option (Time × Time)
deriving DecidableEq, Repr

/- Whether a run that started then may be in the table. -/
def Partition.holds (p : Partition) (t : Time) : Prop :=
  ∀ range, p.range = some range →
    range.1 ≤ t ∧ t < range.2

/-
  The time zone of the session, and the tables that Postgres
  refuses to create, say because the default partition holds
  rows of theirs.
-/
structure Zone where
  offset : Time
  refuses : Partition → Bool

/- The two ranges have an instant in common. -/
def Partition.overlaps (p q : Partition) : Bool :=
  match p.range, q.range with
  | some (lo, hi), some (lo', hi') =>
      decide (lo < hi') && decide (lo' < hi)
  | _, _ => false

/-
  `CREATE TABLE IF NOT EXISTS ... PARTITION OF job_runs FOR
  VALUES FROM (...) TO (...)`; `none` is an error.
-/
def createPartition
    (z : Zone)
    (name lower upper : String)
    (catalog : List Partition) :
    Option (List Partition) :=
  if catalog.any (fun p => p.name = name) then some catalog
  else
    match readDate lower, readDate upper with
    | some lo, some hi =>
        let p : Partition :=
          { name := name
            range :=
              some
                (midnight z.offset lo, midnight z.offset hi) }
        if catalog.any p.overlaps || z.refuses p then none
        else some (catalog ++ [p])
    | _, _ => none

def ensureJobRunsPartition
    (z : Zone)
    (year month : Int)
    (catalog : List Partition) :
    Option (List Partition) :=
  let k := 12 * year + (month - 1)
  createPartition z (partitionName year month)
    (dateLiteral (firstOf k)) (dateLiteral (firstOf (k + 1)))
    catalog

/- Calls of it, some of which may fail. -/
def ensureAll
    (z : Zone)
    (months : List (Int × Int))
    (catalog : List Partition) :
    List Partition :=
  months.foldl
    (fun catalog month =>
      (ensureJobRunsPartition z month.1 month.2
        catalog).getD catalog)
    catalog

/- The end of a partition, as its name is understood. -/
def endOf (year month : Nat) : Time :=
  midnight 0 (firstOf (12 * year + month))

/- The names of the tables that have expired. -/
def expiredPartitions
    (cutoff : Time)
    (catalog : List Partition) :
    List String :=
  (catalog.map Partition.name).filter
    (fun name =>
      (monthlyPartition name).any
        (fun found =>
          decide (endOf found.1 found.2 ≤ cutoff)))

/- Drop tables up to the first one that cannot be dropped. -/
def dropAll
    (fails : String → Bool) : List String → List String
| [] => []
| name :: names =>
    if fails name then []
    else name :: dropAll fails names

/- The names of the tables dropped. -/
def dropJobRunsPartitionsBefore
    (fails : String → Bool)
    (cutoff : Time)
    (catalog : List Partition) :
    List String :=
  dropAll fails (expiredPartitions cutoff catalog)

------------------------------------------------------------
-- Reading Names
------------------------------------------------------------

/- A number that is not negative has no sign. -/
theorem signedPadded_natCast (width n : Nat) :
    signedPadded width (n : Int) = padded width n := by
  unfold signedPadded
  rw [if_neg (by omega)]
  rfl

theorem eq_of_length_two
    {text : List Char}
    (hLength : text.length = 2) :
    ∃ a b, text = [a, b] := by
  match text, hLength with
  | [a, b], _ => exact ⟨a, b, rfl⟩

theorem eq_of_length_four
    {text : List Char}
    (hLength : text.length = 4) :
    ∃ a b c d, text = [a, b, c, d] := by
  match text, hLength with
  | [a, b, c, d], _ => exact ⟨a, b, c, d, rfl⟩

/-
  The pattern matches the names that are printed for a year
  of four digits and a number of two digits, and reads these
  back.
-/
theorem monthlyPartition_eq_some_iff
    {name : String}
    {year month : Nat} :
    monthlyPartition name = some (year, month) ↔
      year < 10000 ∧ month < 100 ∧
        name = partitionName year month := by
  constructor
  · intro hMatch
    unfold monthlyPartition at hMatch
    split at hMatch
    · rename_i y₁ y₂ y₃ y₄ m₁ m₂ hAfter
      split at hMatch
      · rename_i y m hYear hMonth
        cases hMatch
        rcases padded_of_number? hYear with ⟨hYears, hYearLt⟩
        rcases padded_of_number? hMonth with
          ⟨hMonths, hMonthLt⟩
        simp only [List.length_cons, List.length_nil]
          at hYears hMonths
        refine
          ⟨by simpa using hYearLt, by simpa using hMonthLt, ?_⟩
        unfold partitionName
        rw [signedPadded_natCast, signedPadded_natCast,
          hYears, hMonths]
        rcases List.dropPrefix?_eq_some_iff.mp hAfter with
          ⟨start, hText, hStart⟩
        rw [← String.ofList_toList (s := name), hText,
          eq_of_beq hStart]
        rfl
      · cases hMatch
    · cases hMatch
  · rintro ⟨hYear, hMonth, rfl⟩
    have hYears : (padded 4 year).length = 4 :=
      length_padded hYear
    have hMonths : (padded 2 month).length = 2 :=
      length_padded hMonth
    rcases eq_of_length_four hYears with
      ⟨y₁, y₂, y₃, y₄, hYearText⟩
    rcases eq_of_length_two hMonths with
      ⟨m₁, m₂, hMonthText⟩
    have hReadYear := number?_padded 4 year
    have hReadMonth := number?_padded 2 month
    rw [hYearText] at hReadYear
    rw [hMonthText] at hReadMonth
    have hAfter :
        (partitionName year month).toList.dropPrefix?
            jobRunsStem =
          some [y₁, y₂, y₃, y₄, '_', m₁, m₂] := by
      refine List.dropPrefix?_eq_some_iff.mpr
        ⟨jobRunsStem, ?_, beq_self_eq_true _⟩
      unfold partitionName
      rw [String.toList_ofList, signedPadded_natCast,
        signedPadded_natCast, hYearText, hMonthText]
      rfl
    unfold monthlyPartition
    rw [hAfter]
    simp only [hReadYear, hReadMonth]

example :
    monthlyPartition "job_runs_2026_13" = some (2026, 13) := by
  decide

theorem monthlyPartition_default :
    monthlyPartition defaultName = none := by
  decide

/- The two numbers can be told apart in a name. -/
theorem partitionName_injective
    {year month year' month' : Int}
    (hSame :
      partitionName year month =
        partitionName year' month') :
    year = year' ∧ month = month' := by
  have hClear :
      ∀ (width : Nat) (n : Int),
        '_' ∉ signedPadded width n := by
    intro width n hMem
    exact forall_mem_signedPadded (· ≠ '_')
      (by decide) (by decide) width n '_' hMem rfl
  unfold partitionName at hSame
  have hTexts := List.append_cancel_left
    (String.ofList_injective hSame)
  rcases (List.append_cons_inj_of_notMem (hClear 4 year)
    (hClear 2 month)).mp hTexts with ⟨hYears, -, hMonths⟩
  exact
    ⟨signedPadded_injective hYears,
      signedPadded_injective hMonths⟩

theorem monthName_injective
    {k k' : Int}
    (hSame : monthName k = monthName k') :
    k = k' := by
  rcases partitionName_injective hSame with ⟨hYear, hMonth⟩
  omega

/- Dates of the common era are read back as written. -/
theorem readDate_dateLiteral
    {d : Date}
    (hEra : 1 ≤ d.year) :
    readDate (dateLiteral d) = some d := by
  have hDays := (daysIn_bounds d.month).2
  have hFirst := d.one_le
  have hLast := d.le_daysIn
  have hMonths :
      1 ≤ d.monthOfYear ∧ d.monthOfYear ≤ 12 := by
    unfold Date.monthOfYear
    omega
  have hMonthLt : d.monthOfYear.toNat < 10 ^ 2 := by omega
  have hDayLt : d.day.toNat < 10 ^ 2 := by omega
  rcases eq_of_length_two (length_padded hMonthLt) with
    ⟨m₁, m₂, hMonthText⟩
  rcases eq_of_length_two (length_padded hDayLt) with
    ⟨d₁, d₂, hDayText⟩
  have hReadYear := number?_padded 4 d.year.toNat
  have hReadMonth := number?_padded 2 d.monthOfYear.toNat
  have hReadDay := number?_padded 2 d.day.toNat
  rw [hMonthText] at hReadMonth
  rw [hDayText] at hReadDay
  have hText :
      (dateLiteral d).toList.reverse =
        d₂ :: d₁ :: '-' :: m₂ :: m₁ :: '-' ::
          (padded 4 d.year.toNat).reverse := by
    unfold dateLiteral
    rw [String.toList_ofList, hMonthText, hDayText]
    simp
  unfold readDate
  rw [hText]
  simp only [List.reverse_reverse, hReadYear, hReadMonth,
    hReadDay]
  -- The numbers are those of the date.
  have hMonth :
      12 * (d.year.toNat : Int) +
          (d.monthOfYear.toNat : Int) - 1 = d.month := by
    rw [Int.toNat_of_nonneg (by omega),
      Int.toNat_of_nonneg (by omega)]
    unfold Date.year Date.monthOfYear
    omega
  have hDay : (d.day.toNat : Int) = d.day :=
    Int.toNat_of_nonneg (by omega)
  unfold dateOfParts
  simp only [hMonth, hDay]
  rw [dif_pos ⟨hFirst, hLast⟩, if_pos (by omega)]

------------------------------------------------------------
-- Creating Partitions
------------------------------------------------------------

/- The partition of a month in a session of this offset. -/
def monthly
    (offset : Time)
    (year month : Int) :
    Partition where
  name := partitionName year month
  range :=
    some
      (midnight offset (firstOf (12 * year + (month - 1))),
        midnight offset (firstOf (12 * year + month)))

variable {z : Zone}
variable {month : Int × Int}
variable {catalog : List Partition}
variable {cutoff offset : Time}

/-
  What a successful call leaves: the table was there, or it
  is attached now.
-/
theorem createPartition_cases
    {name lower upper : String}
    {catalog catalog' : List Partition}
    (hCreate :
      createPartition z name lower upper catalog =
        some catalog') :
    (catalog' = catalog ∧ ∃ p ∈ catalog, p.name = name) ∨
      ∃ p, p.name = name ∧ catalog' = catalog ++ [p] := by
  unfold createPartition at hCreate
  split at hCreate
  · rename_i hThere
    rw [List.any_eq_true] at hThere
    rcases hThere with ⟨p, hp, hName⟩
    exact
      Or.inl
        ⟨(Option.some.inj hCreate).symm, p, hp,
          of_decide_eq_true hName⟩
  · split at hCreate
    · dsimp only at hCreate
      split at hCreate
      · cases hCreate
      · exact
          Or.inr ⟨_, rfl, (Option.some.inj hCreate).symm⟩
    · cases hCreate

/- A month of the years 1 to 9998. -/
def MonthOk (month : Int × Int) : Prop :=
  1 ≤ month.1 ∧ month.1 ≤ 9998 ∧
    1 ≤ month.2 ∧ month.2 ≤ 12

theorem readDate_firstOf
    {k : Int}
    (hEra : 12 ≤ k) :
    readDate (dateLiteral (firstOf k)) = some (firstOf k) := by
  apply readDate_dateLiteral
  change 1 ≤ k / 12
  omega

/-
  In the years that can be written, a call is about the
  partition of its month.
-/
theorem ensureJobRunsPartition_eq
    (hOk : MonthOk month) :
    ensureJobRunsPartition z month.1 month.2 catalog =
      let p := monthly z.offset month.1 month.2
      if catalog.any (fun q => q.name = p.name) then
        some catalog
      else if catalog.any p.overlaps || z.refuses p then none
      else some (catalog ++ [p]) := by
  rcases hOk with ⟨hEra, -, hFirst, -⟩
  have hNext :
      12 * month.1 + (month.2 - 1) + 1 =
        12 * month.1 + month.2 := by omega
  have hLower :=
    readDate_firstOf
      (k := 12 * month.1 + (month.2 - 1)) (by omega)
  have hUpper :=
    readDate_firstOf (k := 12 * month.1 + month.2) (by omega)
  unfold ensureJobRunsPartition createPartition
  simp only [hNext, hLower, hUpper]
  rfl

theorem ensure_cases
    {catalog catalog' : List Partition}
    (hOk : MonthOk month)
    (hEnsure :
      ensureJobRunsPartition z month.1 month.2 catalog =
        some catalog') :
    catalog' = catalog ∨
      catalog' =
        catalog ++ [monthly z.offset month.1 month.2] := by
  rw [ensureJobRunsPartition_eq hOk] at hEnsure
  dsimp only at hEnsure
  split at hEnsure
  · exact Or.inl (Option.some.inj hEnsure).symm
  · split at hEnsure
    · cases hEnsure
    · exact Or.inr (Option.some.inj hEnsure).symm

/- Calls attach monthly partitions and nothing else. -/
theorem mem_ensureAll
    {months : List (Int × Int)}
    (hOk : ∀ month ∈ months, MonthOk month)
    {p : Partition}
    (hMem : p ∈ ensureAll z months catalog) :
    p ∈ catalog ∨
      ∃ month, MonthOk month ∧
        p = monthly z.offset month.1 month.2 := by
  unfold ensureAll at hMem
  induction months generalizing catalog with
  | nil => exact Or.inl hMem
  | cons month months ih =>
      rw [List.foldl_cons] at hMem
      have hHead := hOk month List.mem_cons_self
      have hTail :
          ∀ month ∈ months, MonthOk month :=
        fun m hm => hOk m (List.mem_cons_of_mem _ hm)
      rcases ih hTail hMem with hBefore | hLater
      · cases hEnsure :
            ensureJobRunsPartition z month.1 month.2
              catalog with
        | none =>
            rw [hEnsure] at hBefore
            exact Or.inl hBefore
        | some catalog' =>
            rw [hEnsure, Option.getD_some] at hBefore
            rcases ensure_cases hHead hEnsure with
              hSame | hAdded
            · rw [hSame] at hBefore
              exact Or.inl hBefore
            · rw [hAdded, List.mem_append,
                List.mem_singleton] at hBefore
              rcases hBefore with hOld | hNew
              · exact Or.inl hOld
              · exact Or.inr ⟨month, hHead, hNew⟩
      · exact Or.inr hLater

/- They keep what is attached. -/
theorem mem_ensureAll_of_mem
    {months : List (Int × Int)}
    (hOk : ∀ month ∈ months, MonthOk month)
    {p : Partition}
    (hMem : p ∈ catalog) :
    p ∈ ensureAll z months catalog := by
  unfold ensureAll
  induction months generalizing catalog with
  | nil => exact hMem
  | cons month months ih =>
      rw [List.foldl_cons]
      apply ih (fun m hm => hOk m (List.mem_cons_of_mem _ hm))
      cases hEnsure :
          ensureJobRunsPartition z month.1 month.2
            catalog with
      | none => exact hMem
      | some catalog' =>
          rw [Option.getD_some]
          rcases ensure_cases (hOk month List.mem_cons_self)
              hEnsure with
            rfl | rfl
          · exact hMem
          · exact List.mem_append_left _ hMem

------------------------------------------------------------
-- Dropping Partitions
------------------------------------------------------------

theorem dropAll_subset
    {fails : String → Bool}
    {names : List String}
    {name : String}
    (hMem : name ∈ dropAll fails names) :
    name ∈ names := by
  induction names with
  | nil => exact hMem
  | cons first names ih =>
      rw [dropAll] at hMem
      split at hMem
      · cases hMem
      · rcases List.mem_cons.mp hMem with hFirst | hRest
        · rw [hFirst]
          exact List.mem_cons_self
        · exact List.mem_cons_of_mem _ (ih hRest)

theorem dropAll_of_no_failure
    (names : List String) :
    dropAll (fun _ => false) names = names := by
  induction names with
  | nil => rfl
  | cons first names ih =>
      rw [dropAll, if_neg (by decide), ih]

theorem mem_expiredPartitions_iff
    {name : String} :
    name ∈ expiredPartitions cutoff catalog ↔
      (∃ p ∈ catalog, p.name = name) ∧
        ∃ year month : Nat,
          monthlyPartition name = some (year, month) ∧
            endOf year month ≤ cutoff := by
  unfold expiredPartitions
  rw [List.mem_filter, List.mem_map, Option.any_eq_true]
  simp only [decide_eq_true_eq, Prod.exists]

/- The name of a month is read back as that month. -/
theorem monthlyPartition_monthly
    (offset : Time)
    (hOk : MonthOk month) :
    monthlyPartition (monthly offset month.1 month.2).name =
      some (month.1.toNat, month.2.toNat) := by
  rcases hOk with ⟨hEra, hFour, hFirst, hLast⟩
  refine monthlyPartition_eq_some_iff.mpr
    ⟨by omega, by omega, ?_⟩
  rw [Int.toNat_of_nonneg (by omega),
    Int.toNat_of_nonneg (by omega)]
  rfl

/-
  A monthly partition is taken for expired as soon as its
  month has ended in UTC, wherever its range ends.
-/
theorem monthly_mem_expired_iff
    (hOk : MonthOk month)
    (hMem : monthly offset month.1 month.2 ∈ catalog) :
    (monthly offset month.1 month.2).name ∈
        expiredPartitions cutoff catalog ↔
      midnight 0 (firstOf (12 * month.1 + month.2)) ≤
        cutoff := by
  have hRead := monthlyPartition_monthly offset hOk
  have hEnd :
      endOf month.1.toNat month.2.toNat =
        midnight 0 (firstOf (12 * month.1 + month.2)) := by
    rcases hOk with ⟨hEra, -, hFirst, -⟩
    unfold endOf
    rw [Int.toNat_of_nonneg (by omega),
      Int.toNat_of_nonneg (by omega)]
  rw [mem_expiredPartitions_iff, hRead]
  constructor
  · rintro ⟨-, year, month', hSame, hPast⟩
    cases hSame
    rw [← hEnd]
    exact hPast
  · intro hPast
    rw [← hEnd] at hPast
    exact ⟨⟨_, hMem, rfl⟩, _, _, rfl, hPast⟩

/- Its own range may end at another time. -/
theorem monthly_ends_iff
    {month : Int × Int} :
    (∃ lower upper,
      (monthly offset month.1 month.2).range =
          some (lower, upper) ∧
        upper ≤ cutoff) ↔
      midnight offset (firstOf (12 * month.1 + month.2)) ≤
        cutoff := by
  constructor
  · rintro ⟨lower, upper, hRange, hPast⟩
    cases hRange
    exact hPast
  · intro hPast
    exact ⟨_, _, rfl, hPast⟩

/-
  The names that `EnsureJobRunsPartition` makes when it is
  called for these numbers of a month.
-/
def Producible
    (isMonth : Int → Prop)
    (name : String) :
    Prop :=
  ∃ year month,
    isMonth month ∧ name = partitionName year month

/-
  What retention promises about the tables that calls of
  `EnsureJobRunsPartition` have attached beside others: one
  of the former is dropped exactly when its range ends at or
  before the cutoff, no run that a dropped table holds started
  later, and the others stay.
-/
structure KeepsRecent
    (z : Zone)
    (months : List (Int × Int))
    (others : List Partition)
    (cutoff : Time) :
    Prop where
  exact_of_no_failure :
    ∀ p ∈ ensureAll z months others, p ∉ others →
      (p.name ∈
          dropJobRunsPartitionsBefore (fun _ => false) cutoff
            (ensureAll z months others) ↔
        ∃ lower upper,
          p.range = some (lower, upper) ∧ upper ≤ cutoff)
  runs_past :
    ∀ fails, ∀ p ∈ ensureAll z months others,
      p.name ∈
          dropJobRunsPartitionsBefore fails cutoff
            (ensureAll z months others) →
        ∀ t, p.holds t → t < cutoff
  others_kept :
    ∀ fails, ∀ p ∈ others,
      p.name ∉
        dropJobRunsPartitionsBefore fails cutoff
          (ensureAll z months others)
  default_kept :
    ∀ fails,
      defaultName ∉
        dropJobRunsPartitionsBefore fails cutoff
          (ensureAll z months others)

/- The end of a range lies the offset before that of UTC. -/
theorem midnight_eq (offset : Time) (d : Date) :
    midnight offset d = midnight 0 d - offset := by
  unfold midnight
  rw [sub_zero]

/-
  What one cutoff needs: it does not lie between the end of
  an attached month in UTC and the end of its range, and no
  other table has the name of an expired month.
-/
structure CutoffSafe
    (z : Zone)
    (months : List (Int × Int))
    (others : List Partition)
    (cutoff : Time) :
    Prop where
  months :
    ∀ month, MonthOk month →
      monthly z.offset month.1 month.2 ∈
          ensureAll z months others →
        monthly z.offset month.1 month.2 ∉ others →
          (midnight 0 (firstOf (12 * month.1 + month.2)) ≤
              cutoff ↔
            midnight z.offset
                (firstOf (12 * month.1 + month.2)) ≤
              cutoff)
  others :
    ∀ p ∈ others, ∀ year month,
      monthlyPartition p.name = some (year, month) →
        cutoff < endOf year month

section

variable
    {months : List (Int × Int)}
    {others : List Partition}

theorem KeepsRecent.cutoffSafe
    (hKeeps : KeepsRecent z months others cutoff)
    (hOk : ∀ month ∈ months, MonthOk month) :
    CutoffSafe z months others cutoff := by
  constructor
  · intro month hMonth hMem hNew
    have hExact := hKeeps.exact_of_no_failure _ hMem hNew
    unfold dropJobRunsPartitionsBefore at hExact
    rw [dropAll_of_no_failure,
      monthly_mem_expired_iff hMonth hMem,
      monthly_ends_iff] at hExact
    exact hExact
  · intro p hp year month hRead
    by_contra hPast
    apply hKeeps.others_kept (fun _ => false) p hp
    unfold dropJobRunsPartitionsBefore
    rw [dropAll_of_no_failure]
    exact mem_expiredPartitions_iff.mpr
      ⟨⟨p, mem_ensureAll_of_mem hOk hp, rfl⟩, year, month,
        hRead, not_lt.mp hPast⟩

/- No other table is dropped, whatever fails. -/
theorem CutoffSafe.others_kept
    (hSafe : CutoffSafe z months others cutoff)
    (fails : String → Bool)
    {p : Partition}
    (hp : p ∈ others) :
    p.name ∉
      dropJobRunsPartitionsBefore fails cutoff
        (ensureAll z months others) := by
  intro hDropped
  rcases mem_expiredPartitions_iff.mp
      (dropAll_subset hDropped) with
    ⟨-, year, month, hRead, hPast⟩
  exact absurd hPast
    (not_le.mpr (hSafe.others p hp year month hRead))

theorem CutoffSafe.keepsRecent
    (hSafe : CutoffSafe z months others cutoff)
    (hOk : ∀ month ∈ months, MonthOk month) :
    KeepsRecent z months others cutoff := by
  refine
    ⟨?_, ?_, fun fails _ => hSafe.others_kept fails, ?_⟩
  · intro p hp hNew
    rcases mem_ensureAll hOk hp with
      hOther | ⟨month, hMonth, rfl⟩
    · exact absurd hOther hNew
    · unfold dropJobRunsPartitionsBefore
      rw [dropAll_of_no_failure,
        monthly_mem_expired_iff hMonth hp, monthly_ends_iff]
      exact hSafe.months month hMonth hp hNew
  · intro fails p hp hDropped t hHolds
    rcases mem_ensureAll hOk hp with
      hOther | ⟨month, hMonth, rfl⟩
    · exact absurd hDropped (hSafe.others_kept fails hOther)
    · have hPast :=
        (monthly_mem_expired_iff hMonth hp).mp
          (dropAll_subset hDropped)
      have hNew :=
        fun hOther => hSafe.others_kept fails hOther hDropped
      exact lt_of_lt_of_le (hHolds _ rfl).2
        ((hSafe.months month hMonth hp hNew).mp hPast)
  · intro fails hDropped
    rcases mem_expiredPartitions_iff.mp
        (dropAll_subset hDropped) with
      ⟨-, year, month, hRead, -⟩
    rw [monthlyPartition_default] at hRead
    cases hRead

theorem keepsRecent_iff
    (hOk : ∀ month ∈ months, MonthOk month) :
    KeepsRecent z months others cutoff ↔
      CutoffSafe z months others cutoff :=
  ⟨fun hKeeps => hKeeps.cutoffSafe hOk,
    fun hSafe => hSafe.keepsRecent hOk⟩

end

/- One call on an empty catalog. -/
theorem ensureAll_single
    (hOk : MonthOk month) :
    ensureAll ⟨offset, fun _ => false⟩ [month] [] =
      [monthly offset month.1 month.2] := by
  unfold ensureAll
  rw [List.foldl_cons, List.foldl_nil,
    ensureJobRunsPartition_eq hOk]
  rfl

/-
  One month tells the offset, with a cutoff at each of the two
  times at which it is taken to end.
-/
theorem utc_of_keepsRecent
    (hOk : MonthOk month)
    (hKeeps :
      ∀ cutoff,
        KeepsRecent ⟨offset, fun _ => false⟩ [month] []
          cutoff) :
    offset = 0 := by
  have hMem :
      monthly offset month.1 month.2 ∈
        ensureAll ⟨offset, fun _ => false⟩ [month] [] := by
    rw [ensureAll_single hOk]
    exact List.mem_cons_self
  have hSafe :=
    fun cutoff =>
      (keepsRecent_iff (List.forall_mem_singleton.mpr hOk)).mp
        (hKeeps cutoff)
  have hExact :=
    fun cutoff =>
      (hSafe cutoff).months month hOk hMem List.not_mem_nil
  have hEast := (hExact _).mp (le_refl _)
  have hWest := (hExact _).mpr (le_refl _)
  rw [midnight_eq offset] at hEast hWest
  exact
    le_antisymm ((le_sub_self_iff _).mp hWest)
      ((sub_le_self_iff _).mp hEast)

/-
  In a session at a fixed offset from UTC, beside other tables
  of a kind, retention keeps its promise for every set of
  months and every cutoff if and only if the session is in UTC
  and the pattern matches none of the other names: two digits
  may stand for no month. For one set of months and tables it
  keeps its promise exactly with the cutoffs that are safe.
-/
theorem drops_past_partitions_iff
    (isMonth : Int → Prop)
    (Other : Partition → Prop)
    (offset : Time) :
    ((∀ refuses months others cutoff,
      (∀ month ∈ months, MonthOk month) →
      (∀ p ∈ others,
        Other p ∧ ¬ Producible isMonth p.name) →
      KeepsRecent ⟨offset, refuses⟩ months others cutoff) ↔
      offset = 0 ∧
        ∀ p, Other p → ∀ year month : Nat,
          year < 10000 → month < 100 →
            p.name = partitionName year month →
              isMonth month) ∧
      ∀ refuses months others cutoff,
        (∀ month ∈ months, MonthOk month) →
          (KeepsRecent ⟨offset, refuses⟩ months others
              cutoff ↔
            CutoffSafe ⟨offset, refuses⟩ months others
              cutoff) := by
  refine ⟨?_, fun _ _ _ _ hOk => keepsRecent_iff hOk⟩
  constructor
  · intro hKeeps
    constructor
    · have hOk : MonthOk (2000, 1) := by
        unfold MonthOk
        decide
      apply utc_of_keepsRecent hOk
      intro cutoff
      apply hKeeps
      · exact List.forall_mem_singleton.mpr hOk
      · intro p hp
        cases hp
    · intro p hp year month hYear hMonth hName
      by_contra hNo
      have hForeign : ¬ Producible isMonth p.name := by
        rintro ⟨year', month', hIs, hName'⟩
        rw [hName] at hName'
        rw [← (partitionName_injective hName').2] at hIs
        exact hNo hIs
      have hNone :
          ∀ m ∈ ([] : List (Int × Int)), MonthOk m :=
        fun m hm => by cases hm
      have hSafe :=
        (keepsRecent_iff hNone).mp
          (hKeeps (fun _ => false) [] [p] (endOf year month)
            hNone
            (List.forall_mem_singleton.mpr ⟨hp, hForeign⟩))
      exact lt_irrefl _
        (hSafe.others p List.mem_cons_self year month
          (monthlyPartition_eq_some_iff.mpr
            ⟨hYear, hMonth, hName⟩))
  · rintro ⟨rfl, hNames⟩ refuses months others cutoff
    intro hOk hOthers
    refine (keepsRecent_iff hOk).mpr ⟨?_, ?_⟩
    · intro month _ _ _
      exact Iff.rfl
    · intro p hp year month hRead
      rcases monthlyPartition_eq_some_iff.mp hRead with
        ⟨hYear, hMonth, hName⟩
      rcases hOthers p hp with ⟨hOther, hForeign⟩
      exact absurd
        ⟨year, month,
          hNames p hOther year month hYear hMonth hName,
          hName⟩
        hForeign

/-
  Five hours west of UTC the partition of January 2026 lasts
  until five in the morning of the first of February in UTC.
  With a cutoff at midnight it is dropped, together with the
  runs that started after that.
-/
theorem recent_run_dropped :
    ∃ p ∈
        ensureAll ⟨-18000000000, fun _ => false⟩ [(2026, 1)]
          [],
      p.name = "job_runs_2026_01" ∧
        p.name ∈
          dropJobRunsPartitionsBefore (fun _ => false)
            1769904000000000
            (ensureAll ⟨-18000000000, fun _ => false⟩
              [(2026, 1)] []) ∧
        p.holds 1769907600000000 := by
  have hOk : MonthOk (2026, 1) := by
    unfold MonthOk
    decide
  rw [ensureAll_single hOk]
  refine ⟨_, List.mem_cons_self, by decide, by decide, ?_⟩
  intro range hRange
  cases hRange
  decide

end Storage

end Sluice
