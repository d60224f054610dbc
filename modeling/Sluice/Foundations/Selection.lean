import Mathlib.Data.List.Sort
import Sluice.Foundations.Table

/-
  Queries that select some rows of a table, and tables that
  agree on the rows that a query can see.

  Key definitions include:
    * `Table.select`
    * `Table.AgreeOn`

  Key theorems include:
    * `Table.AgreeOn.select_eq`
    * `Table.AgreeOn.count_eq`
    * `Table.AgreeOn.find?_filter`
    * `Table.length_batch`
    * `Table.count_retain_batch`
    * `Table.rows_foldl_insert`
-/

------------------------------------------------------------
-- Selections
------------------------------------------------------------

namespace Foundations

namespace Table

variable {R K : Type}
variable [Keyed R K]
variable {α : Type}
variable [LinearOrder α]

/- `SELECT .. WHERE p ORDER BY rank`. -/
def select
    (p : R → Bool)
    (rank : R → α)
    (t : Table R) :
    List R :=
  (t.rows.filter p).insertionSort
    (fun a b => rank a ≤ rank b)

/- `SELECT COUNT(*) .. WHERE p`. -/
def count (p : R → Bool) (t : Table R) : Nat :=
  (t.rows.filter p).length

/- The tables have the same rows of a kind. -/
def AgreeOn (P : R → Prop) (t t' : Table R) : Prop :=
  ∀ r, P r → (r ∈ t.rows ↔ r ∈ t'.rows)

namespace AgreeOn

section

variable {P : R → Prop}
variable {p : R → Bool}
variable {t t' t'' : Table R}

theorem refl
    (P : R → Prop)
    (t : Table R) :
    AgreeOn P t t :=
  fun _ _ => Iff.rfl

theorem trans
    (hAgree : AgreeOn P t t')
    (hAgree' : AgreeOn P t' t'') :
    AgreeOn P t t'' :=
  fun r hr => (hAgree r hr).trans (hAgree' r hr)

theorem perm_filter
    (hAgree : AgreeOn P t t')
    (hOnly : ∀ r, p r = true → P r) :
    (t.rows.filter p).Perm (t'.rows.filter p) := by
  have hNodup :
      ∀ u : Table R, (u.rows.filter p).Nodup :=
    fun u => (List.Nodup.of_map _ u.keys_nodup).filter p
  apply (List.perm_ext_iff_of_nodup (hNodup t)
    (hNodup t')).mpr
  intro r
  rw [List.mem_filter, List.mem_filter]
  constructor
  · intro hMem
    exact ⟨(hAgree r (hOnly r hMem.2)).mp hMem.1, hMem.2⟩
  · intro hMem
    exact ⟨(hAgree r (hOnly r hMem.2)).mpr hMem.1, hMem.2⟩

theorem count_eq
    (hAgree : AgreeOn P t t')
    (hOnly : ∀ r, p r = true → P r) :
    t.count p = t'.count p :=
  (hAgree.perm_filter hOnly).length_eq

theorem any_eq
    (hAgree : AgreeOn P t t')
    (hOnly : ∀ r, p r = true → P r) :
    t.rows.any p = t'.rows.any p := by
  apply Bool.eq_iff_iff.mpr
  rw [List.any_eq_true, List.any_eq_true]
  constructor
  · rintro ⟨r, hMem, hMeets⟩
    exact ⟨r, (hAgree r (hOnly r hMeets)).mp hMem, hMeets⟩
  · rintro ⟨r, hMem, hMeets⟩
    exact ⟨r, (hAgree r (hOnly r hMeets)).mpr hMem, hMeets⟩

/- Rows that differ in their keys must differ in their rank. -/
theorem select_eq
    {rank : R → α}
    (hAgree : AgreeOn P t t')
    (hOnly : ∀ r, p r = true → P r)
    (hRank :
      ∀ r r', rank r = rank r' →
        Keyed.key r = Keyed.key r') :
    t.select p rank = t'.select p rank := by
  have hTotal : Std.Total (fun a b : R => rank a ≤ rank b) :=
    ⟨fun a b => le_total (rank a) (rank b)⟩
  have hTrans : IsTrans R (fun a b => rank a ≤ rank b) :=
    ⟨fun _ _ _ => le_trans⟩
  have hMem :
      ∀ (u : Table R) r, r ∈ u.select p rank →
        r ∈ u.rows ∧ p r = true :=
    fun u r hr =>
      List.mem_filter.mp ((List.mem_insertionSort _).mp hr)
  apply List.Perm.eq_of_pairwise ?_
    (List.pairwise_insertionSort _ _)
    (List.pairwise_insertionSort _ _)
  · exact (List.perm_insertionSort _ _).trans
      ((hAgree.perm_filter hOnly).trans
        (List.perm_insertionSort _ _).symm)
  · intro a b ha hb hab hba
    have hA := hMem t a ha
    have hIn : a ∈ t'.rows :=
      (hAgree a (hOnly a hA.2)).mp hA.1
    exact t'.eq_of_key_eq hIn (hMem t' b hb).1
      (hRank a b (le_antisymm hab hba))

end

------------------------------------------------------------
-- Lookups And Changes
------------------------------------------------------------

variable [DecidableEq K]
variable {P : R → Prop}
variable {p : R → Bool}
variable {t t' : Table R}

theorem find?_filter
    (hAgree : AgreeOn P t t')
    (hOnly : ∀ r, p r = true → P r)
    (k : K) :
    (t.find? k).filter p = (t'.find? k).filter p := by
  apply Option.ext
  intro r
  simp only [Option.filter_eq_some_iff,
    Table.find?_eq_some_iff]
  constructor
  · rintro ⟨⟨hMem, hKey⟩, hMeets⟩
    exact ⟨⟨(hAgree r (hOnly r hMeets)).mp hMem, hKey⟩,
      hMeets⟩
  · rintro ⟨⟨hMem, hKey⟩, hMeets⟩
    exact ⟨⟨(hAgree r (hOnly r hMeets)).mpr hMem, hKey⟩,
      hMeets⟩

theorem find?
    (hAgree : AgreeOn P t t')
    {k : K}
    {r : R}
    (hRow : t.find? k = some r)
    (hOwn : P r) :
    t'.find? k = some r := by
  rcases find?_eq_some_iff.mp hRow with ⟨hMem, hKey⟩
  exact find?_eq_some_iff.mpr
    ⟨(hAgree r hOwn).mp hMem, hKey⟩

theorem insert
    {new : R}
    (hAgree : AgreeOn P t t')
    (hFresh : t.find? (Keyed.key new) = none)
    (hFresh' : t'.find? (Keyed.key new) = none) :
    AgreeOn P (t.insert new) (t'.insert new) := by
  intro r hr
  rw [mem_insert_iff hFresh, mem_insert_iff hFresh',
    hAgree r hr]

theorem put
    {new old : R}
    (hAgree : AgreeOn P t t')
    (hMem : old ∈ t.rows)
    (hKey : Keyed.key old = Keyed.key new)
    (hOwn : P old) :
    AgreeOn P (t.put new) (t'.put new) := by
  intro r hr
  have hMem' : old ∈ t'.rows := (hAgree old hOwn).mp hMem
  rw [mem_put_iff, mem_put_iff, hAgree r hr]
  constructor
  · rintro (hOld | hNew)
    · exact .inl hOld
    · exact .inr ⟨hNew.1, old, hMem', hKey⟩
  · rintro (hOld | hNew)
    · exact .inl hOld
    · exact .inr ⟨hNew.1, old, hMem, hKey⟩

theorem mem_delete_iff
    {k : K}
    {r : R} :
    r ∈ (t.delete k).rows ↔
      r ∈ t.rows ∧ Keyed.key r ≠ k := by
  simp [Table.delete]

theorem delete
    (hAgree : AgreeOn P t t')
    (k : K) :
    AgreeOn P (t.delete k) (t'.delete k) := by
  intro r hr
  rw [mem_delete_iff, mem_delete_iff, hAgree r hr]

/- Rows of another kind may be added, replaced and deleted. -/
theorem of_insert
    {new : R}
    (hFresh : t.find? (Keyed.key new) = none)
    (hOther : ¬P new) :
    AgreeOn P t (t.insert new) := by
  intro r hr
  rw [mem_insert_iff hFresh]
  constructor
  · exact .inl
  · rintro (hOld | hNew)
    · exact hOld
    · rw [hNew] at hr
      exact absurd hr hOther

theorem of_put
    {new old : R}
    (hMem : old ∈ t.rows)
    (hKey : Keyed.key old = Keyed.key new)
    (hOther : ¬P old)
    (hNew : ¬P new) :
    AgreeOn P t (t.put new) := by
  intro r hr
  rw [mem_put_iff]
  constructor
  · intro hRow
    refine .inl ⟨hRow, ?_⟩
    intro hSame
    have hEq : r = old :=
      t.eq_of_key_eq hRow hMem (hSame.trans hKey.symm)
    rw [hEq] at hr
    exact hOther hr
  · rintro (hOld | hAdded)
    · exact hOld.1
    · rw [hAdded.1] at hr
      exact absurd hr hNew

theorem of_delete
    {k : K}
    (hOther : ∀ r, t.find? k = some r → ¬P r) :
    AgreeOn P t (t.delete k) := by
  intro r hr
  rw [mem_delete_iff]
  constructor
  · intro hRow
    refine ⟨hRow, ?_⟩
    intro hKey
    exact hOther r (find?_eq_some_iff.mpr ⟨hRow, hKey⟩) hr
  · exact fun hBoth => hBoth.1

end AgreeOn

------------------------------------------------------------
-- Rows Up To A Limit
------------------------------------------------------------

section

variable [DecidableEq K]
variable {t : Table R}
variable {rows : List R}

/- No other row has the key of a row. -/
omit [DecidableEq K] in
theorem exists_key_eq_iff
    (P : R → Prop)
    {r : R}
    (hr : r ∈ t.rows) :
    (∃ r' ∈ t.rows, Keyed.key r' = Keyed.key r ∧ P r') ↔
      P r := by
  constructor
  · rintro ⟨r', hr', hKey, hP⟩
    rw [← t.eq_of_key_eq hr' hr hKey]
    exact hP
  · exact fun hP => ⟨r, hr, rfl, hP⟩

omit [DecidableEq K] in
theorem count_of_perm
    (p : R → Bool)
    (hPerm : rows.Perm t.rows) :
    (rows.filter p).length = t.count p :=
  (hPerm.filter p).length_eq

/- `WHERE p LIMIT n`, with the rows met in any order. -/
omit [DecidableEq K] in
theorem length_batch
    (p : R → Bool)
    (limit : Nat)
    (hPerm : rows.Perm t.rows) :
    ((rows.filter p).take limit).length =
      min limit (t.count p) := by
  rw [List.length_take, count_of_perm p hPerm]

/-
  Without the keys of a batch, the table has that many rows
  of the kind fewer.
-/
theorem count_retain_batch
    (p : R → Bool)
    (limit : Nat)
    (hPerm : rows.Perm t.rows) :
    (t.retain (fun r => Keyed.key r ∉
        ((rows.filter p).take limit).map Keyed.key)).count p +
      ((rows.filter p).take limit).length = t.count p := by
  let batch := (rows.filter p).take limit
  let rest := (rows.filter p).drop limit
  have hSplit : batch ++ rest = rows.filter p :=
    List.take_append_drop _ _
  have hNodup :
      ((batch ++ rest).map Keyed.key).Nodup := by
    rw [hSplit]
    exact ((hPerm.map _).nodup_iff.mpr t.keys_nodup).sublist
      (List.filter_sublist.map Keyed.key)
  rw [List.map_append] at hNodup
  have hApart := (List.nodup_append.mp hNodup).2.2
  have hOut :
      batch.filter
          (fun r => decide
            (Keyed.key r ∉ batch.map Keyed.key)) = [] := by
    apply List.filter_eq_nil_iff.mpr
    intro r hr
    simp only [decide_eq_true_eq, not_not]
    exact List.mem_map_of_mem hr
  have hKept :
      rest.filter
          (fun r => decide
            (Keyed.key r ∉ batch.map Keyed.key)) = rest := by
    apply List.filter_eq_self.mpr
    intro r hr
    apply decide_eq_true
    intro hIn
    exact hApart _ hIn _ (List.mem_map_of_mem hr) rfl
  have hCount :
      (t.retain (fun r =>
          Keyed.key r ∉ batch.map Keyed.key)).count p =
        rest.length := by
    have hLeft :
        ((t.rows.filter p).filter
            (fun r => decide
              (Keyed.key r ∉ batch.map Keyed.key))).length =
          rest.length := by
      rw [(((hPerm.filter p).filter _).length_eq).symm,
        ← hSplit, List.filter_append, hOut, hKept]
      rfl
    unfold count retain
    rw [← hLeft, List.filter_filter, List.filter_filter]
    congr 2
    funext r
    exact Bool.and_comm _ _
  have hAll : batch.length + rest.length = t.count p := by
    rw [← List.length_append, hSplit, count_of_perm p hPerm]
  change _ + batch.length = _
  rw [hCount]
  omega

/- Rows with new and distinct keys are all added. -/
theorem rows_foldl_insert
    {batch : List R}
    (hNew : ∀ r ∈ batch, t.find? (Keyed.key r) = none)
    (hDistinct : (batch.map Keyed.key).Nodup) :
    (batch.foldl (fun t r => t.insert r) t).rows =
      t.rows ++ batch := by
  induction batch generalizing t with
  | nil => exact (List.append_nil _).symm
  | cons r batch ih =>
      rcases List.nodup_cons.mp hDistinct with
        ⟨hApart, hRest⟩
      have hAbsent :
          Keyed.key r ∉ t.rows.map Keyed.key := by
        intro hIn
        rcases List.mem_map.mp hIn with ⟨old, hOld, hKey⟩
        exact find?_eq_none_iff.mp
          (hNew r List.mem_cons_self) old hOld hKey
      have hRows :
          (t.insert r).rows = t.rows ++ [r] := by
        unfold insert
        rw [dif_neg hAbsent]
      have hStill :
          ∀ r' ∈ batch,
            (t.insert r).find? (Keyed.key r') = none := by
        intro r' hr'
        apply find?_eq_none_iff.mpr
        rw [hRows]
        intro old hOld hKey
        rcases List.mem_append.mp hOld with hOld | hOld
        · exact find?_eq_none_iff.mp
            (hNew r' (List.mem_cons_of_mem r hr')) old hOld
            hKey
        · rw [List.mem_singleton.mp hOld] at hKey
          exact hApart
            (List.mem_map.mpr ⟨r', hr', hKey.symm⟩)
      rw [List.foldl_cons, ih hStill hRest, hRows,
        List.append_assoc, List.singleton_append]

omit [DecidableEq K] in
theorem retain_retain
    (t : Table R)
    (p q : R → Bool) :
    (t.retain p).retain q =
      t.retain (fun r => p r && q r) := by
  have hRows :
      (t.rows.filter p).filter q =
        t.rows.filter (fun r => p r && q r) := by
    rw [List.filter_filter]
    congr 1
    funext r
    exact Bool.and_comm _ _
  unfold retain
  congr 1

end

end Table

end Foundations
