import Mathlib.Data.List.Perm.Lattice
import Sluice.Foundations.Selection

/-
  Taking a backlog in sorted batches.

  A batch is a sorted list of the first pending elements, at
  most `limit` of them; elements that are equal in the order
  may come in any order. Batches are taken one after another
  until one is short, or until a number of batches has been
  taken.

  A loop over batches without an order sees only how many
  elements each batch has taken off a backlog. So rows can
  be deleted from a table batch by batch, whatever rows each
  batch meets first.

  Key definitions include:
    * `FirstBatch`
    * `Drained`
    * `drain`
    * `Deletes`

  Key theorems include:
    * `FirstBatch.of_sort`
    * `Drained.complete`
    * `drain_complete`
    * `Deletes.drain`
-/

------------------------------------------------------------
-- Batches
------------------------------------------------------------

namespace Foundations

variable {α : Type}
variable {le : α → α → Prop}
variable {limit : Nat}
variable {pending batch rest : List α}

/- `batch` holds the first pending elements, `rest` the others. -/
structure FirstBatch
    (le : α → α → Prop)
    (limit : Nat)
    (pending batch rest : List α) :
    Prop where
  perm : (batch ++ rest).Perm pending
  sorted : batch.Pairwise le
  before : ∀ a ∈ batch, ∀ b ∈ rest, le a b
  length : batch.length = min limit pending.length

namespace FirstBatch

theorem subset
    (hFirst : FirstBatch le limit pending batch rest) :
    batch ⊆ pending := by
  intro a ha
  exact hFirst.perm.subset (List.mem_append_left _ ha)

/- A short batch is a whole backlog. -/
theorem rest_of_short
    (hFirst : FirstBatch le limit pending batch rest)
    (hShort : batch.length < limit) :
    rest = [] := by
  have hLength := hFirst.length
  have hParts := hFirst.perm.length_eq
  rw [List.length_append] at hParts
  exact List.length_eq_zero_iff.mp (by omega)

/- A full batch leaves that much less. -/
theorem length_rest
    (hFirst : FirstBatch le limit pending batch rest)
    (hFull : ¬batch.length < limit) :
    limit + rest.length = pending.length := by
  have hLength := hFirst.length
  have hParts := hFirst.perm.length_eq
  rw [List.length_append] at hParts
  omega

/-
  Sort, take the first ones, shuffle them and sort them
  again: the result is a first batch.
-/
theorem of_sort
    [DecidableRel le]
    [Std.Total le]
    [IsTrans α le]
    {shuffled : List α}
    (hShuffled :
      shuffled.Perm
        ((pending.insertionSort le).take limit)) :
    FirstBatch le limit pending
      (shuffled.insertionSort le)
      ((pending.insertionSort le).drop limit) := by
  have hBatch :
      (shuffled.insertionSort le).Perm
        ((pending.insertionSort le).take limit) :=
    (List.perm_insertionSort le shuffled).trans hShuffled
  have hSorted :
      (pending.insertionSort le).Pairwise le :=
    List.pairwise_insertionSort le pending
  constructor
  · have hWhole := hBatch.append_right
      ((pending.insertionSort le).drop limit)
    rw [List.take_append_drop] at hWhole
    exact hWhole.trans (List.perm_insertionSort le pending)
  · exact List.pairwise_insertionSort le shuffled
  · intro a ha b hb
    rw [← List.take_append_drop limit
      (pending.insertionSort le)] at hSorted
    exact (List.pairwise_append.mp hSorted).2.2 a
      (hBatch.subset ha) b hb
  · rw [hBatch.length_eq, List.length_take,
      List.length_insertionSort]

/-
  Without duplicates, the rest is what is pending and not in
  the batch, in whatever order the pending elements stand.
-/
theorem rest_filter
    [DecidableEq α]
    {pending' : List α}
    (hFirst : FirstBatch le limit pending batch rest)
    (hPending : pending.Perm pending')
    (hNodup : pending'.Nodup) :
    FirstBatch le limit pending' batch
      (pending'.filter (fun a => decide (a ∉ batch))) := by
  have hParts := hFirst.perm.trans hPending
  have hSplit := hParts.nodup_iff.mpr hNodup
  rcases List.nodup_append.mp hSplit with
    ⟨_, hRest, hApart⟩
  have hSame :
      (pending'.filter
        (fun a => decide (a ∉ batch))).Perm rest := by
    refine (List.perm_ext_iff_of_nodup
      (hNodup.filter _) hRest).mpr ?_
    intro a
    rw [List.mem_filter, decide_eq_true_eq,
      ← hParts.mem_iff, List.mem_append]
    constructor
    · rintro ⟨hIn | hIn, hOut⟩
      · exact absurd hIn hOut
      · exact hIn
    · intro hIn
      exact ⟨.inr hIn, fun hBatch => hApart a hBatch a hIn rfl⟩
  constructor
  · exact (hSame.append_left batch).trans hParts
  · exact hFirst.sorted
  · intro a ha b hb
    exact hFirst.before a ha b (hSame.subset hb)
  · rw [← hPending.length_eq]
    exact hFirst.length

end FirstBatch

------------------------------------------------------------
-- Batch After Batch
------------------------------------------------------------

/-
  Taking at most `n` batches from a backlog, up to the first
  short one, yields `out` and leaves `left`.
-/
inductive Drained
    (le : α → α → Prop)
    (limit : Nat) :
    Nat → List α → List α → List α → Prop
| stopped {pending : List α} :
    Drained le limit 0 pending [] pending
| last {n : Nat} {pending batch rest : List α} :
    FirstBatch le limit pending batch rest →
      batch.length < limit →
        Drained le limit (n + 1) pending batch rest
| more {n : Nat} {pending batch rest out left : List α} :
    FirstBatch le limit pending batch rest →
      ¬batch.length < limit →
        Drained le limit n rest out left →
          Drained le limit (n + 1) pending (batch ++ out)
            left

namespace Drained

variable {n : Nat}
variable {out left : List α}

theorem subset
    (hDrained : Drained le limit n pending out left) :
    out ⊆ pending := by
  induction hDrained with
  | stopped => exact List.nil_subset _
  | last hFirst _ => exact hFirst.subset
  | more hFirst _ _ ih =>
      refine List.append_subset.mpr ⟨hFirst.subset, ?_⟩
      intro a ha
      exact hFirst.perm.subset
        (List.mem_append_right _ (ih ha))

/-
  A backlog that fits into the batches is taken whole, and
  in order across the batches.
-/
theorem complete
    (hDrained : Drained le limit n pending out left)
    (hFits : pending.length ≤ limit * n) :
    left = [] ∧ out.Perm pending ∧ out.Pairwise le := by
  induction hDrained with
  | @stopped pending =>
      have hNone : pending = [] :=
        List.length_eq_zero_iff.mp (by omega)
      subst hNone
      exact ⟨rfl, .refl _, .nil⟩
  | last hFirst hShort =>
      have hRest := hFirst.rest_of_short hShort
      subst hRest
      have hPerm := hFirst.perm
      rw [List.append_nil] at hPerm
      exact ⟨rfl, hPerm, hFirst.sorted⟩
  | @more n pending batch rest out left hFirst hFull _ ih =>
      have hLess := hFirst.length_rest hFull
      have hFitsRest : rest.length ≤ limit * n := by
        rw [Nat.mul_succ] at hFits
        omega
      rcases ih hFitsRest with ⟨hLeft, hPerm, hSorted⟩
      refine ⟨hLeft, ?_, ?_⟩
      · exact (hPerm.append_left batch).trans hFirst.perm
      · -- What comes later was left over by this batch.
        refine List.pairwise_append.mpr
          ⟨hFirst.sorted, hSorted, ?_⟩
        intro a ha b hb
        exact hFirst.before a ha b (hPerm.subset hb)

end Drained

------------------------------------------------------------
-- Until A Batch Is Short
------------------------------------------------------------

/-
  Repeat a batch operation, which is told its round and
  counts what it has taken, until the count is short.
-/
def drain
    {S : Type}
    (batch : Nat → S → S × Nat)
    (limit : Nat) :
    Nat → Nat → S → Option S
| 0, _, _ => none
| fuel + 1, k, s =>
    if (batch k s).2 < limit then some (batch k s).1
    else drain batch limit fuel (k + 1) (batch k s).1

section

variable {S : Type}
variable {batch : Nat → S → S × Nat}
variable {limit k n fuel : Nat}
variable {s s' : S}

theorem drain_of_short
    (hShort : (batch k s).2 < limit)
    (hFuel : n < fuel) :
    drain batch limit fuel k s = some (batch k s).1 := by
  cases fuel with
  | zero => omega
  | succ fuel => rw [drain, if_pos hShort]

theorem drain_of_full
    (hFull : ¬(batch k s).2 < limit)
    (hRest :
      ∀ fuel, n < fuel →
        drain batch limit fuel (k + 1) (batch k s).1 =
          some s')
    (hFuel : n + 1 < fuel) :
    drain batch limit fuel k s = some s' := by
  cases fuel with
  | zero => omega
  | succ fuel =>
      rw [drain, if_neg hFull]
      exact hRest fuel (by omega)

/-
  If every batch takes what fits of the backlog, whatever it
  may choose, the loop ends with no backlog. The induction
  is on the number of full batches.
-/
theorem drain_complete
    (batch : Nat → S → S × Nat)
    (backlog : S → Nat)
    {I : S → Prop}
    (hInv : ∀ k s, I s → I (batch k s).1)
    (hCount :
      ∀ k s, (batch k s).2 = min limit (backlog s))
    (hTaken :
      ∀ k s,
        backlog (batch k s).1 + (batch k s).2 = backlog s)
    (n k : Nat)
    (hBacklog : backlog s < limit * (n + 1))
    (hStart : I s) :
    ∃ s', I s' ∧ backlog s' = 0 ∧
      ∀ fuel, n < fuel →
        drain batch limit fuel k s = some s' := by
  induction n generalizing k s with
  | zero =>
      have hCount := hCount k s
      have hTaken := hTaken k s
      have hShort : (batch k s).2 < limit := by omega
      exact ⟨_, hInv k s hStart, by omega,
        fun fuel hFuel => drain_of_short hShort hFuel⟩
  | succ n ih =>
      have hCount := hCount k s
      have hTaken := hTaken k s
      by_cases hShort : (batch k s).2 < limit
      · exact ⟨_, hInv k s hStart, by omega,
          fun fuel hFuel => drain_of_short hShort hFuel⟩
      · have hLess :
            backlog (batch k s).1 < limit * (n + 1) := by
          rw [Nat.mul_succ] at hBacklog
          omega
        rcases ih (k + 1) hLess (hInv k s hStart) with
          ⟨s', hEnd, hNone, hDrain⟩
        exact ⟨s', hEnd, hNone,
          fun fuel hFuel =>
            drain_of_full hShort hDrain hFuel⟩

end

------------------------------------------------------------
-- Deleting In Batches
------------------------------------------------------------

section

variable {S R K : Type}
variable [Keyed R K] [DecidableEq K]
variable {table : S → Table R}
variable {without : List K → S → S}

/- Deleting keys from a table of the state, and with them
   whatever else. -/
structure Deletes
    (table : S → Table R)
    (without : List K → S → S) :
    Prop where
  rows : ∀ gone s,
    table (without gone s) =
      (table s).retain (fun r => Keyed.key r ∉ gone)
  append : ∀ gone more s,
    without more (without gone s) = without (gone ++ more) s
  nil : ∀ s, without [] s = s

/- The keys of a batch of rows of a kind. -/
def batchKeys
    (p : R → Bool)
    (limit : Nat)
    (rows : List R) :
    List K :=
  ((rows.filter p).take limit).map Keyed.key

/- What is deleted by deleting keys of rows of a kind. -/
def DeletedOnly
    (table : S → Table R)
    (without : List K → S → S)
    (p : R → Bool)
    (s s' : S) :
    Prop :=
  ∃ gone, s' = without gone s ∧
    ∀ key ∈ gone, ∃ r ∈ (table s).rows,
      Keyed.key r = key ∧ p r = true

/- A batch meets only rows that were there from the start. -/
theorem Deletes.deletedOnly_batch
    (hDeletes : Deletes table without)
    {p : R → Bool}
    (limit : Nat)
    {met : List R}
    {s s' : S}
    (hMet : met.Perm (table s').rows)
    (hBefore : DeletedOnly table without p s s') :
    DeletedOnly table without p s
      (without (batchKeys p limit met) s') := by
  rcases hBefore with ⟨gone, rfl, hGone⟩
  refine ⟨_, hDeletes.append gone _ s, ?_⟩
  intro key hKey
  rcases List.mem_append.mp hKey with hBefore | hNow
  · exact hGone key hBefore
  · rcases List.mem_map.mp hNow with ⟨r, hr, rfl⟩
    have hFilter :=
      List.mem_filter.mp (List.mem_of_mem_take hr)
    have hRow := hMet.mem_iff.mp hFilter.1
    rw [hDeletes.rows] at hRow
    exact ⟨r, (List.mem_filter.mp hRow).1, rfl, hFilter.2⟩

/- When no row of the kind is left, all their keys went. -/
theorem Deletes.mem_gone
    (hDeletes : Deletes table without)
    {p : R → Bool}
    {gone : List K}
    {s : S}
    (hNone : (table (without gone s)).count p = 0)
    {r : R}
    (hr : r ∈ (table s).rows)
    (hp : p r = true) :
    Keyed.key r ∈ gone := by
  by_contra hKept
  have hEmpty := List.length_eq_zero_iff.mp hNone
  rw [hDeletes.rows] at hEmpty
  refine List.filter_eq_nil_iff.mp hEmpty r ?_ hp
  exact List.mem_filter.mpr ⟨hr, decide_eq_true hKept⟩

/-
  Rows of a kind are deleted in batches, which meet the rows
  of the table in any order: in the end the keys of exactly
  these rows have been deleted.
-/
theorem Deletes.drain
    (hDeletes : Deletes table without)
    (p : R → Bool)
    {limit : Nat}
    (hLimit : 0 < limit)
    (met : Nat → S → List R)
    (hMet : ∀ k s, (met k s).Perm (table s).rows)
    (s : S) :
    ∃ gone,
      (∀ key, key ∈ gone ↔
        ∃ r ∈ (table s).rows,
          Keyed.key r = key ∧ p r = true) ∧
        ∃ bound, ∀ fuel, bound < fuel →
          Foundations.drain
              (fun k s =>
                (without (batchKeys p limit (met k s)) s,
                  (batchKeys p limit (met k s)).length))
              limit fuel 0 s =
            some (without gone s) := by
  have hCount : ∀ k s',
      (batchKeys p limit (met k s')).length =
        min limit ((table s').count p) := by
    intro k s'
    rw [batchKeys, List.length_map]
    exact Table.length_batch p limit (hMet k s')
  have hTaken : ∀ k s',
      (table (without (batchKeys p limit (met k s'))
          s')).count p +
          (batchKeys p limit (met k s')).length =
        (table s').count p := by
    intro k s'
    rw [hDeletes.rows, batchKeys, List.length_map]
    exact Table.count_retain_batch p limit (hMet k s')
  have hBacklog :
      (table s).count p <
        limit * ((table s).count p + 1) := by
    have hLe := Nat.le_mul_of_pos_left
      ((table s).count p + 1) hLimit
    omega
  have hStart : DeletedOnly table without p s s :=
    ⟨[], (hDeletes.nil s).symm,
      fun key hKey => absurd hKey List.not_mem_nil⟩
  rcases drain_complete
    (fun k s =>
      (without (batchKeys p limit (met k s)) s,
        (batchKeys p limit (met k s)).length))
    (fun s => (table s).count p)
    (fun k s' hBefore =>
      hDeletes.deletedOnly_batch limit (hMet k s') hBefore)
    hCount hTaken ((table s).count p) 0 hBacklog hStart with
    ⟨s', ⟨gone, rfl, hGone⟩, hNone, hDrain⟩
  refine ⟨gone, ?_, _, hDrain⟩
  intro key
  constructor
  · exact hGone key
  · rintro ⟨r, hr, rfl, hp⟩
    exact hDeletes.mem_gone hNone hr hp

end

end Foundations
