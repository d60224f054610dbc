import Mathlib.Data.List.Nodup
import Mathlib.Data.List.Perm.Subperm

/-
  Tables of rows with a primary key. Key uniqueness is a
  field of the table, so no operation can break it.

  Key definitions include:
    * `Keyed`
    * `Table`
    * `Table.find?`
    * `Table.put`
    * `Table.insert`
    * `Table.delete`
    * `Table.retain`

  Key theorems include:
    * `Table.find?_eq_some_iff`
    * `Table.find?_put`
    * `Table.find?_insert`
    * `Table.find?_delete`
    * `Table.find?_retain`
    * `Table.filter_eq_singleton`
    * `Table.countP_le_of_keys`
-/

------------------------------------------------------------
-- Tables
------------------------------------------------------------

namespace Foundations

/- Rows of type `R` are identified by keys of type `K`. -/
class Keyed (R : Type) (K : outParam Type) where
  key : R → K

/- A table in scan order, without two rows of one key. -/
structure Table
    (R : Type)
    {K : Type}
    [Keyed R K] where
  rows : List R
  keys_nodup : (rows.map Keyed.key).Nodup

namespace Table

variable {R K : Type}
variable [Keyed R K] [DecidableEq K]

/- The table without rows. -/
def empty : Table R where
  rows := []
  keys_nodup := List.nodup_nil

/- The row of a key. -/
def find?
    (t : Table R)
    (k : K) :
    Option R :=
  t.rows.find? (fun r => Keyed.key r = k)

/- Replacing one row keeps the list of keys. -/
theorem map_key_replace
    (rows : List R)
    (new : R) :
    (rows.map
        (fun r =>
          if Keyed.key r = Keyed.key new then new
          else r)).map Keyed.key =
      rows.map Keyed.key := by
  rw [List.map_map]
  apply List.map_congr_left
  intro r _
  by_cases hKey : Keyed.key r = Keyed.key new
  · simp [hKey]
  · simp [hKey]

/- Replace the row that has the key of `new`, if any. -/
def put
    (t : Table R)
    (new : R) :
    Table R where
  rows :=
    t.rows.map
      (fun r =>
        if Keyed.key r = Keyed.key new then new else r)
  keys_nodup := by
    rw [map_key_replace]
    exact t.keys_nodup

/- Add a row; a row that has the same key stays as it is. -/
def insert
    (t : Table R)
    (new : R) :
    Table R :=
  if hMem : Keyed.key new ∈ t.rows.map Keyed.key then t
  else
    { rows := t.rows ++ [new]
      keys_nodup := by
        rw [List.map_append, List.map_singleton]
        refine List.nodup_append.mpr
          ⟨t.keys_nodup, List.nodup_singleton _, ?_⟩
        intro k hk k' hk' hEq
        rw [List.mem_singleton] at hk'
        subst hEq
        subst hk'
        exact hMem hk }

/- Remove the row of a key. -/
def delete
    (t : Table R)
    (k : K) :
    Table R where
  rows := t.rows.filter (fun r => Keyed.key r ≠ k)
  keys_nodup :=
    t.keys_nodup.sublist
      (List.filter_sublist.map Keyed.key)

/- Remove the rows that do not meet a condition. -/
def retain
    (t : Table R)
    (p : R → Bool) :
    Table R where
  rows := t.rows.filter p
  keys_nodup :=
    t.keys_nodup.sublist
      (List.filter_sublist.map Keyed.key)

------------------------------------------------------------
-- Lookup
------------------------------------------------------------

/- Within a table a key determines its row. -/
omit [DecidableEq K] in
theorem eq_of_key_eq
    (t : Table R)
    {r r' : R}
    (hr : r ∈ t.rows)
    (hr' : r' ∈ t.rows)
    (hKey : Keyed.key r = Keyed.key r') :
    r = r' :=
  List.inj_on_of_nodup_map t.keys_nodup hr hr' hKey

variable {t : Table R}
variable {k : K}
variable {r : R}
variable {p : R → Bool}

theorem find?_eq_some_iff
    {r : R} :
    t.find? k = some r ↔
      r ∈ t.rows ∧ Keyed.key r = k := by
  constructor
  · intro hFind
    refine ⟨List.mem_of_find?_eq_some hFind, ?_⟩
    simpa using List.find?_some hFind
  · rintro ⟨hMem, hKey⟩
    cases hFind : t.find? k with
    | none =>
        have hNone := List.find?_eq_none.mp hFind r hMem
        simp [hKey] at hNone
    | some r' =>
        have hMem' := List.mem_of_find?_eq_some hFind
        have hKey' : Keyed.key r' = k := by
          simpa using List.find?_some hFind
        rw [t.eq_of_key_eq hMem hMem'
          (hKey.trans hKey'.symm)]

theorem find?_eq_none_iff
    {k : K} :
    t.find? k = none ↔
      ∀ r ∈ t.rows, Keyed.key r ≠ k := by
  simp [find?, List.find?_eq_none]

theorem key_of_find?
    (hFind : t.find? k = some r) :
    Keyed.key r = k :=
  (find?_eq_some_iff.mp hFind).2

theorem mem_of_find?
    (hFind : t.find? k = some r) :
    r ∈ t.rows :=
  (find?_eq_some_iff.mp hFind).1

theorem find?_of_mem
    (hMem : r ∈ t.rows) :
    t.find? (Keyed.key r) = some r :=
  find?_eq_some_iff.mpr ⟨hMem, rfl⟩

------------------------------------------------------------
-- Lookup After An Update
------------------------------------------------------------

theorem mem_put_iff
    {new r : R} :
    r ∈ (t.put new).rows ↔
      (r ∈ t.rows ∧ Keyed.key r ≠ Keyed.key new) ∨
        (r = new ∧ ∃ old ∈ t.rows,
          Keyed.key old = Keyed.key new) := by
  simp only [put, List.mem_map]
  constructor
  · rintro ⟨old, hOld, hEq⟩
    by_cases hKey : Keyed.key old = Keyed.key new
    · rw [if_pos hKey] at hEq
      exact .inr ⟨hEq.symm, old, hOld, hKey⟩
    · rw [if_neg hKey] at hEq
      subst hEq
      exact .inl ⟨hOld, hKey⟩
  · rintro (⟨hMem, hKey⟩ | ⟨rfl, old, hOld, hKey⟩)
    · exact ⟨r, hMem, if_neg hKey⟩
    · exact ⟨old, hOld, if_pos hKey⟩

/-
  Replacing rows of the table one by one replaces each of
  them in place.
-/
theorem rows_foldl_put
    [DecidableEq R]
    (t : Table R)
    (f : R → R)
    (hKey : ∀ r, Keyed.key (f r) = Keyed.key r)
    {batch : List R}
    (hMem : ∀ r ∈ batch, r ∈ t.rows)
    (hNodup : (batch.map Keyed.key).Nodup) :
    (batch.foldl (fun t r => t.put (f r)) t).rows =
      t.rows.map
        (fun r => if r ∈ batch then f r else r) := by
  induction batch generalizing t with
  | nil => simp
  | cons b batch ih =>
      rcases List.nodup_cons.mp hNodup with ⟨hApart, hRest⟩
      have hNe :
          ∀ r ∈ batch, Keyed.key r ≠ Keyed.key b :=
        fun r hr hEq => hApart
          (List.mem_map.mpr ⟨r, hr, hEq⟩)
      have hStill : ∀ r ∈ batch, r ∈ (t.put (f b)).rows := by
        intro r hr
        refine mem_put_iff.mpr (.inl
          ⟨hMem r (List.mem_cons_of_mem _ hr), ?_⟩)
        rw [hKey]
        exact hNe r hr
      rw [List.foldl_cons, ih _ hStill hRest]
      simp only [put, List.map_map]
      apply List.map_congr_left
      intro r hr
      simp only [Function.comp_apply, hKey, List.mem_cons]
      by_cases hSame : Keyed.key r = Keyed.key b
      · -- The row of this key is `b`, replaced once.
        have hRow : r = b := t.eq_of_key_eq hr
          (hMem b List.mem_cons_self) hSame
        subst hRow
        have hOnce : f r ∉ batch :=
          fun hIn => hNe _ hIn (hKey r)
        simp [hOnce]
      · have hOther : r ≠ b := fun hEq => hSame (by rw [hEq])
        simp [hSame, hOther]

theorem find?_put
    (t : Table R)
    (new : R)
    (k : K) :
    (t.put new).find? k =
      if k = Keyed.key new then
        (t.find? k).map (fun _ => new)
      else t.find? k := by
  by_cases hKey : k = Keyed.key new
  · rw [if_pos hKey]
    cases hFind : t.find? k with
    | none =>
        refine find?_eq_none_iff.mpr ?_
        intro r hMem
        rcases mem_put_iff.mp hMem with
          ⟨_, hNe⟩ | ⟨rfl, old, hOld, hOldKey⟩
        · rw [hKey]
          exact hNe
        · exact absurd (hOldKey.trans hKey.symm)
            (find?_eq_none_iff.mp hFind old hOld)
    | some old =>
        rcases find?_eq_some_iff.mp hFind with
          ⟨hOld, hOldKey⟩
        refine find?_eq_some_iff.mpr
          ⟨mem_put_iff.mpr (.inr ⟨rfl, old, hOld, ?_⟩),
            hKey.symm⟩
        exact hOldKey.trans hKey
  · rw [if_neg hKey]
    apply Option.ext
    intro r
    rw [find?_eq_some_iff, find?_eq_some_iff,
      mem_put_iff]
    constructor
    · rintro ⟨⟨hMem, _⟩ | ⟨rfl, _⟩, hRow⟩
      · exact ⟨hMem, hRow⟩
      · exact absurd hRow.symm hKey
    · rintro ⟨hMem, hRow⟩
      refine ⟨.inl ⟨hMem, ?_⟩, hRow⟩
      rw [hRow]
      exact hKey

theorem find?_insert
    (t : Table R)
    (new : R)
    (k : K) :
    (t.insert new).find? k =
      if k = Keyed.key new ∧ t.find? k = none then
        some new
      else t.find? k := by
  by_cases hMem : Keyed.key new ∈ t.rows.map Keyed.key
  · have hSame : t.insert new = t := by
      rw [insert, dif_pos hMem]
    rw [hSame, if_neg]
    rintro ⟨rfl, hNone⟩
    rcases List.mem_map.mp hMem with ⟨r, hr, hKey⟩
    exact find?_eq_none_iff.mp hNone r hr hKey
  · have hRows : (t.insert new).rows = t.rows ++ [new] := by
      rw [insert, dif_neg hMem]
    have hAbsent : t.find? (Keyed.key new) = none := by
      refine find?_eq_none_iff.mpr ?_
      intro r hr hKey
      exact hMem (List.mem_map.mpr ⟨r, hr, hKey⟩)
    by_cases hKey : k = Keyed.key new
    · subst hKey
      rw [if_pos ⟨rfl, hAbsent⟩]
      refine find?_eq_some_iff.mpr ⟨?_, rfl⟩
      rw [hRows]
      exact List.mem_append_right _ List.mem_cons_self
    · rw [if_neg (fun h => hKey h.1)]
      apply Option.ext
      intro r
      rw [find?_eq_some_iff, find?_eq_some_iff, hRows,
        List.mem_append, List.mem_singleton]
      constructor
      · rintro ⟨hr | rfl, hRow⟩
        · exact ⟨hr, hRow⟩
        · exact absurd hRow.symm hKey
      · rintro ⟨hr, hRow⟩
        exact ⟨.inl hr, hRow⟩

/- A row present before an insertion is still there. -/
theorem mem_insert_iff
    {new r : R}
    (hFresh : t.find? (Keyed.key new) = none) :
    r ∈ (t.insert new).rows ↔ r ∈ t.rows ∨ r = new := by
  have hKey :
      Keyed.key new ∉ t.rows.map Keyed.key := by
    intro hMem
    rcases List.mem_map.mp hMem with ⟨row, hRow, hEq⟩
    exact find?_eq_none_iff.mp hFresh row hRow hEq
  rw [insert, dif_neg hKey, List.mem_append,
    List.mem_singleton]

theorem find?_delete
    (t : Table R)
    (k' k : K) :
    (t.delete k').find? k =
      if k = k' then none else t.find? k := by
  by_cases hKey : k = k'
  · rw [if_pos hKey]
    refine find?_eq_none_iff.mpr ?_
    intro r hr
    rw [hKey]
    simpa using (List.mem_filter.mp hr).2
  · rw [if_neg hKey]
    apply Option.ext
    intro r
    rw [find?_eq_some_iff, find?_eq_some_iff, delete,
      List.mem_filter]
    constructor
    · rintro ⟨⟨hr, _⟩, hRow⟩
      exact ⟨hr, hRow⟩
    · rintro ⟨hr, hRow⟩
      refine ⟨⟨hr, ?_⟩, hRow⟩
      rw [hRow]
      simpa using hKey

/- There is nothing to delete. -/
theorem delete_of_absent
    (hNone : t.find? k = none) :
    t.delete k = t := by
  have hRows : (t.delete k).rows = t.rows := by
    unfold delete
    apply List.filter_eq_self.mpr
    intro r hr
    simpa using find?_eq_none_iff.mp hNone r hr
  cases hTable : t.delete k with
  | mk rows keys_nodup =>
      rw [hTable] at hRows
      subst hRows
      rfl

theorem find?_retain
    (t : Table R)
    (p : R → Bool)
    (k : K) :
    (t.retain p).find? k = (t.find? k).filter p := by
  apply Option.ext
  intro r
  rw [find?_eq_some_iff, Option.filter_eq_some_iff,
    find?_eq_some_iff, retain, List.mem_filter]
  constructor
  · rintro ⟨⟨hr, hp⟩, hRow⟩
    exact ⟨⟨hr, hRow⟩, hp⟩
  · rintro ⟨⟨hr, hRow⟩, hp⟩
    exact ⟨⟨hr, hp⟩, hRow⟩

------------------------------------------------------------
-- Selecting And Counting Rows
------------------------------------------------------------

/- A condition that no row meets selects nothing. -/
theorem filter_eq_nil
    (hNone :
      ∀ k r, t.find? k = some r → p r = false) :
    t.rows.filter p = [] := by
  apply List.filter_eq_nil_iff.mpr
  intro r hr hp
  rw [hNone _ r (find?_of_mem hr)] at hp
  cases hp

/- A condition that only one key meets selects its row. -/
theorem filter_eq_singleton
    (hRow : t.find? k = some r)
    (hMeets : p r = true)
    (hOnly :
      ∀ k' r', t.find? k' = some r' → p r' = true →
        k' = k) :
    t.rows.filter p = [r] := by
  have hAll : ∀ r' ∈ t.rows.filter p, r' = r := by
    intro r' hr'
    have hFilter := List.mem_filter.mp hr'
    have hKey := hOnly _ r' (find?_of_mem hFilter.1)
      hFilter.2
    refine t.eq_of_key_eq hFilter.1 (mem_of_find? hRow) ?_
    rw [hKey, key_of_find? hRow]
  have hNodup : (t.rows.filter p).Nodup :=
    (List.Nodup.of_map _ t.keys_nodup).filter _
  have hMem : r ∈ t.rows.filter p :=
    List.mem_filter.mpr ⟨mem_of_find? hRow, hMeets⟩
  cases hList : t.rows.filter p with
  | nil =>
      rw [hList] at hMem
      cases hMem
  | cons first rest =>
      rw [hList] at hAll hNodup
      have hFirst : first = r :=
        hAll first List.mem_cons_self
      have hRest : rest = [] := by
        apply List.eq_nil_iff_forall_not_mem.mpr
        intro r' hr'
        have hSame := hAll r' (List.mem_cons_of_mem _ hr')
        rw [hSame, ← hFirst] at hr'
        exact (List.nodup_cons.mp hNodup).1 hr'
      rw [hFirst, hRest]

/-
  When every row with a property has one of the given keys,
  or the key of a row that had the property before, then the
  number of such rows grows by at most the given keys. Rows
  are counted by their keys, which do not repeat.
-/
omit [DecidableEq K] in
theorem countP_le_of_keys
    {t t' : Table R}
    (extra : List K)
    (hKeys :
      ∀ r' ∈ t'.rows, p r' = true →
        Keyed.key r' ∈ extra ∨
          ∃ r ∈ t.rows, p r = true ∧
            Keyed.key r = Keyed.key r') :
    t'.rows.countP p ≤
      extra.length + t.rows.countP p := by
  have hNodup :
      ((t'.rows.filter p).map Keyed.key).Nodup :=
    t'.keys_nodup.sublist
      (List.filter_sublist.map Keyed.key)
  have hSubset :
      (t'.rows.filter p).map Keyed.key ⊆
        extra ++ (t.rows.filter p).map Keyed.key := by
    intro k hk
    rcases List.mem_map.mp hk with ⟨r', hRow, hKey⟩
    subst hKey
    have hFilter := List.mem_filter.mp hRow
    rcases hKeys r' hFilter.1 hFilter.2 with
      hExtra | ⟨r, hr, hp, hSame⟩
    · exact List.mem_append_left _ hExtra
    · apply List.mem_append_right _
      exact List.mem_map.mpr
        ⟨r, List.mem_filter.mpr ⟨hr, hp⟩, hSame⟩
  have hLength :=
    (List.subperm_of_subset hNodup hSubset).length_le
  simpa [List.countP_eq_length_filter] using hLength

end Table

end Foundations
