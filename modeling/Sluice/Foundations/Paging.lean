import Mathlib.Data.List.Sort
import Mathlib.Data.Set.Card

/-
  Paging by key.

  A page is the first rows after a cursor, in the order of
  their keys. A sweep reads page after page, each from the
  rows as they are at that time, until a page comes back
  short or a cap is reached.

  Key definitions include:
    * `page`
    * `sweep`
    * `pages`

  Key theorems include:
    * `mem_page_or_full`
    * `sweep_sorted`
    * `pages_sorted`
    * `key_mem_sweep_or_capped`
    * `mem_sweep_or_capped`
    * `sweep_length_le`
    * `mem_sweep_of_few`
    * `mem_sweep_iff`
-/

------------------------------------------------------------
-- Pages
------------------------------------------------------------

namespace Foundations

namespace Paging

section

variable {α K : Type}
variable [LinearOrder K]

/- The rows after the cursor, in order. -/
def following
    (key : α → K)
    (rows : List α)
    (after : K) :
    List α :=
  (rows.filter (fun a => after < key a)).insertionSort
    (fun a b => key a ≤ key b)

def page
    (key : α → K)
    (rows : List α)
    (after : K)
    (limit : Nat) :
    List α :=
  (following key rows after).take limit

/- Where a page ends; an empty page leaves the cursor. -/
def nextCursor
    (key : α → K)
    (rows : List α)
    (after : K) :
    K :=
  (rows.getLast?.map key).getD after

variable {key : α → K}
variable {rows : List α}
variable {after : K}
variable {limit : Nat}
variable {a : α}

theorem mem_following_iff :
    a ∈ following key rows after ↔
      a ∈ rows ∧ after < key a := by
  simp [following]

theorem following_sorted
    (hKeys : (rows.map key).Nodup)
    (after : K) :
    (following key rows after).Pairwise
      (fun a b => key a < key b) := by
  have hTotal : Std.Total (fun a b => key a ≤ key b) :=
    ⟨fun a b => le_total (key a) (key b)⟩
  have hTrans : IsTrans α (fun a b => key a ≤ key b) :=
    ⟨fun _ _ _ => le_trans⟩
  have hSorted := List.pairwise_insertionSort
    (fun a b => key a ≤ key b)
    (rows.filter (fun a => after < key a))
  have hPerm := List.perm_insertionSort
    (fun a b => key a ≤ key b)
    (rows.filter (fun a => after < key a))
  have hDistinct :
      (following key rows after).Pairwise
        (fun a b => key a ≠ key b) := by
    rw [← List.pairwise_map]
    apply (hPerm.map key).nodup_iff.mpr
    exact hKeys.sublist (List.filter_sublist.map key)
  exact hSorted.imp₂
    (fun _ _ hLe hNe => lt_of_le_of_ne hLe hNe) hDistinct

theorem mem_of_mem_page
    (hMem : a ∈ page key rows after limit) :
    a ∈ rows ∧ after < key a :=
  mem_following_iff.mp (List.mem_of_mem_take hMem)

theorem page_sorted
    (hKeys : (rows.map key).Nodup) :
    (page key rows after limit).Pairwise
      (fun a b => key a < key b) :=
  (following_sorted hKeys after).sublist
    (List.take_sublist _ _)

theorem page_length_le :
    (page key rows after limit).length ≤ limit :=
  List.length_take_le _ _

/-
  A row after the cursor is on the page, or the page is full
  of rows that come before it.
-/
theorem mem_page_or_full
    (hKeys : (rows.map key).Nodup)
    (hMem : a ∈ rows)
    (hAfter : after < key a) :
    a ∈ page key rows after limit ∨
      ((page key rows after limit).length = limit ∧
        ∀ b ∈ page key rows after limit,
          key b < key a) := by
  have hFound : a ∈ following key rows after :=
    mem_following_iff.mpr ⟨hMem, hAfter⟩
  have hSorted := following_sorted hKeys after
  rw [← List.take_append_drop limit
    (following key rows after)] at hFound hSorted
  rcases List.mem_append.mp hFound with hTake | hDrop
  · exact .inl hTake
  · refine .inr ⟨?_, ?_⟩
    · have hLonger := List.length_pos_of_mem hDrop
      rw [List.length_drop] at hLonger
      rw [page, List.length_take]
      omega
    · intro b hb
      exact (List.pairwise_append.mp hSorted).2.2 b hb a
        hDrop

/- The cursor after a page is at the last of its rows. -/
theorem le_nextCursor
    (hSorted : rows.Pairwise (fun a b => key a < key b))
    (hMem : a ∈ rows)
    (after : K) :
    key a ≤ nextCursor key rows after := by
  rcases List.eq_nil_or_concat' rows with
    hNil | ⟨init, last, hConcat⟩
  · subst hNil
    cases hMem
  · subst hConcat
    have hNext :
        nextCursor key (init ++ [last]) after = key last := by
      simp [nextCursor]
    rw [hNext]
    rcases List.mem_append.mp hMem with hInit | hLast
    · exact le_of_lt
        ((List.pairwise_append.mp hSorted).2.2 a hInit last
          List.mem_cons_self)
    · rw [List.mem_singleton.mp hLast]

omit [LinearOrder K] in
theorem nextCursor_mem
    (key : α → K)
    (after : K)
    (hPos : 0 < rows.length) :
    ∃ b ∈ rows, nextCursor key rows after = key b := by
  rcases List.eq_nil_or_concat' rows with
    hNil | ⟨init, last, hConcat⟩
  · subst hNil
    cases hPos
  · subst hConcat
    exact ⟨last, by simp, by simp [nextCursor]⟩

end

------------------------------------------------------------
-- Sweeps
------------------------------------------------------------

variable {α K : Type}
variable [LinearOrder K]

/-
  The rows that a sweep visits from its page number `n` on,
  when it has visited `checked` rows before.
-/
def sweep
    (key : α → K)
    (cap : Nat)
    {batch : Nat}
    (hBatch : 0 < batch)
    (source : Nat → List α)
    (n : Nat)
    (after : K)
    (checked : Nat) :
    List α :=
  if checked < cap then
    let rows := page key (source n) after batch
    if rows.length < batch then rows
    else
      rows ++
        sweep key cap hBatch source (n + 1)
          (nextCursor key rows after)
          (checked + rows.length)
  else []
termination_by cap - checked
decreasing_by
  rename_i hFull
  change
    ¬(page key (source n) after batch).length < batch
      at hFull
  omega

/-
  The pages of a sweep, each with the cursor that it is read
  from.
-/
def pages
    (key : α → K)
    (cap : Nat)
    {batch : Nat}
    (hBatch : 0 < batch)
    (source : Nat → List α)
    (n : Nat)
    (after : K)
    (checked : Nat) :
    List (K × List α) :=
  if checked < cap then
    let rows := page key (source n) after batch
    if rows.length < batch then [(after, rows)]
    else
      (after, rows) ::
        pages key cap hBatch source (n + 1)
          (nextCursor key rows after)
          (checked + rows.length)
  else []
termination_by cap - checked
decreasing_by
  rename_i hFull
  change
    ¬(page key (source n) after batch).length < batch
      at hFull
  omega

variable {key : α → K}
variable {cap batch : Nat}
variable {hBatch : 0 < batch}
variable {source : Nat → List α}
variable {n : Nat}
variable {after : K}
variable {checked : Nat}
variable {a : α}

theorem sweep_of_short
    (hBelow : checked < cap)
    (hShort :
      (page key (source n) after batch).length < batch) :
    sweep key cap hBatch source n after checked =
      page key (source n) after batch := by
  rw [sweep, if_pos hBelow]
  exact if_pos hShort

theorem sweep_of_full
    (hBelow : checked < cap)
    (hFull :
      ¬(page key (source n) after batch).length < batch) :
    sweep key cap hBatch source n after checked =
      page key (source n) after batch ++
        sweep key cap hBatch source (n + 1)
          (nextCursor key (page key (source n) after batch)
            after)
          (checked +
            (page key (source n) after batch).length) := by
  rw [sweep, if_pos hBelow]
  exact if_neg hFull

theorem sweep_of_capped
    (hCap : ¬checked < cap) :
    sweep key cap hBatch source n after checked = [] := by
  rw [sweep, if_neg hCap]

/- A sweep visits the rows of its pages. -/
theorem sweep_eq_pages :
    sweep key cap hBatch source n after checked =
      (pages key cap hBatch source n after
        checked).flatMap Prod.snd := by
  fun_induction pages key cap hBatch source n after checked
    with
  | case1 n after checked hBelow rows hShort =>
      rw [sweep_of_short hBelow hShort]
      simp [rows]
  | case2 n after checked hBelow rows hFull ih =>
      rw [sweep_of_full hBelow hFull, List.flatMap_cons, ← ih]
  | case3 n after checked hCap =>
      rw [sweep_of_capped hCap]
      rfl

/- A sweep visits rows of its source, after the cursor. -/
theorem mem_of_mem_sweep
    (hMem :
      a ∈ sweep key cap hBatch source n after checked) :
    (∃ m, a ∈ source m) ∧ after < key a := by
  fun_induction sweep key cap hBatch source n after checked
    with
  | case1 n after checked _ rows _ =>
      rcases mem_of_mem_page hMem with ⟨hRow, hAfter⟩
      exact ⟨⟨n, hRow⟩, hAfter⟩
  | case2 n after checked _ rows hFull ih =>
      rcases List.mem_append.mp hMem with hFirst | hRest
      · rcases mem_of_mem_page hFirst with ⟨hRow, hAfter⟩
        exact ⟨⟨n, hRow⟩, hAfter⟩
      · rcases ih hRest with ⟨hRow, hNext⟩
        rcases nextCursor_mem key after
          (show 0 < rows.length by omega) with
          ⟨b, hb, hCursor⟩
        rw [hCursor] at hNext
        exact ⟨hRow,
          lt_trans (mem_of_mem_page hb).2 hNext⟩
  | case3 n after checked _ => cases hMem

/- A sweep visits rows in the order of their keys. -/
theorem sweep_sorted
    (hKeys : ∀ m, ((source m).map key).Nodup) :
    (sweep key cap hBatch source n after checked).Pairwise
      (fun a b => key a < key b) := by
  fun_induction sweep key cap hBatch source n after checked
    with
  | case1 n after checked _ rows _ =>
      exact page_sorted (hKeys n)
  | case2 n after checked _ rows hFull ih =>
      have hPage : rows.Pairwise
          (fun a b => key a < key b) := page_sorted (hKeys n)
      refine List.pairwise_append.mpr ⟨hPage, ih, ?_⟩
      intro a ha b hb
      exact lt_of_le_of_lt (le_nextCursor hPage ha after)
        (mem_of_mem_sweep hb).2
  | case3 n after checked _ => exact List.Pairwise.nil

/- A page has rows after its cursor. -/
theorem after_lt_of_mem_pages
    {p : K × List α}
    (hp : p ∈ pages key cap hBatch source n after checked)
    (hMem : a ∈ p.2) :
    p.1 < key a := by
  fun_induction pages key cap hBatch source n after checked
    with
  | case1 n after checked _ rows _ =>
      rw [List.mem_singleton.mp hp] at hMem ⊢
      exact (mem_of_mem_page hMem).2
  | case2 n after checked _ rows hFull ih =>
      rcases List.mem_cons.mp hp with rfl | hLater
      · exact (mem_of_mem_page hMem).2
      · exact ih hLater
  | case3 n after checked _ => cases hp

/- Cursors only go forward. -/
theorem pages_sorted :
    ((pages key cap hBatch source n after
        checked).map Prod.fst).Pairwise (· < ·) ∧
      ∀ p ∈ pages key cap hBatch source n after checked,
        after ≤ p.1 := by
  fun_induction pages key cap hBatch source n after checked
    with
  | case1 n after checked _ rows _ => simp
  | case2 n after checked _ rows hFull ih =>
      rcases nextCursor_mem key after
        (show 0 < rows.length by omega) with ⟨b, hb, hCursor⟩
      have hNext : after < nextCursor key rows after := by
        rw [hCursor]
        exact (mem_of_mem_page hb).2
      refine ⟨?_, ?_⟩
      · refine List.pairwise_cons.mpr ⟨?_, ih.1⟩
        intro cursor hMem
        rcases List.mem_map.mp hMem with ⟨p, hp, rfl⟩
        exact lt_of_lt_of_le hNext (ih.2 p hp)
      · intro p hp
        rcases List.mem_cons.mp hp with rfl | hLater
        · exact le_refl _
        · exact le_of_lt (lt_of_lt_of_le hNext (ih.2 p hLater))
  | case3 n after checked _ => simp

/-
  A key that every page can find is visited, or the sweep has
  reached its cap on rows that come before it.
-/
theorem key_mem_sweep_or_capped
    {k : K}
    (hKeys : ∀ m, ((source m).map key).Nodup)
    (hStays :
      ∀ m, n ≤ m →
        m < n +
            (pages key cap hBatch source n after
              checked).length →
          ∃ b ∈ source m, key b = k)
    (hAfter : after < k) :
    (∃ b ∈ sweep key cap hBatch source n after checked,
        key b = k) ∨
      (cap ≤ checked +
          (sweep key cap hBatch source n after
            checked).length ∧
        ∀ b ∈ sweep key cap hBatch source n after checked,
          key b < k) := by
  fun_induction pages key cap hBatch source n after checked
    with
  | case1 n after checked hBelow rows hShort =>
      rcases hStays n (le_refl n) (by simp) with
        ⟨a, ha, rfl⟩
      rw [sweep_of_short hBelow hShort]
      rcases mem_page_or_full (hKeys n) ha hAfter
        with hMem | ⟨hLength, _⟩
      · exact .inl ⟨a, hMem, rfl⟩
      · exact absurd hLength (Nat.ne_of_lt hShort)
  | case2 n after checked hBelow rows hFull ih =>
      rcases hStays n (le_refl n) (by simp) with
        ⟨a, ha, rfl⟩
      have hPages :
          sweep key cap hBatch source n after checked =
            rows ++
              sweep key cap hBatch source (n + 1)
                (nextCursor key rows after)
                (checked + rows.length) :=
        sweep_of_full hBelow hFull
      rw [hPages]
      rcases mem_page_or_full (hKeys n) ha hAfter
        with hMem | ⟨_, hBefore⟩
      · exact .inl ⟨a, List.mem_append_left _ hMem, rfl⟩
      · rcases nextCursor_mem key after
          (show 0 < rows.length by omega) with
          ⟨b, hb, hCursor⟩
        have hNext : nextCursor key rows after < key a := by
          rw [hCursor]
          exact hBefore b hb
        have hLater := ih
          (fun m hm hLess =>
            hStays m (by omega)
              (by
                rw [List.length_cons]
                omega))
          hNext
        rcases hLater with ⟨c, hc, hSame⟩ | ⟨hCap, hRest⟩
        · exact .inl ⟨c, List.mem_append_right _ hc, hSame⟩
        · refine .inr ⟨?_, ?_⟩
          · rw [List.length_append]
            omega
          · intro c hc
            rcases List.mem_append.mp hc with
              hFirst | hLast
            · exact hBefore c hFirst
            · exact hRest c hLast
  | case3 n after checked hCap =>
      rw [sweep_of_capped hCap]
      exact .inr ⟨by omega, by simp⟩

/- So is a row that is there all the time. -/
theorem mem_sweep_or_capped
    (hKeys : ∀ m, ((source m).map key).Nodup)
    (hStays : ∀ m, a ∈ source m)
    (hAfter : after < key a) :
    a ∈ sweep key cap hBatch source n after checked ∨
      (cap ≤ checked +
          (sweep key cap hBatch source n after
            checked).length ∧
        ∀ b ∈ sweep key cap hBatch source n after checked,
          key b < key a) := by
  have hVisited :
      (∃ b ∈ sweep key cap hBatch source n after checked,
          key b = key a) ∨ _ :=
    key_mem_sweep_or_capped hKeys
      (fun m _ _ => ⟨a, hStays m, rfl⟩) hAfter
  rcases hVisited with ⟨b, hb, hSame⟩ | hCapped
  · rcases (mem_of_mem_sweep hb).1 with ⟨m, hFound⟩
    have hEq : b = a :=
      List.inj_on_of_nodup_map (hKeys m) hFound (hStays m)
        hSame
    exact .inl (hEq ▸ hb)
  · exact .inr hCapped

/- A sweep of whole pages does not go over its cap. -/
theorem sweep_length_le
    (hCap : batch ∣ cap)
    (hChecked : batch ∣ checked)
    (hLe : checked ≤ cap) :
    checked +
        (sweep key cap hBatch source n after
          checked).length ≤
      cap := by
  fun_induction sweep key cap hBatch source n after checked
    with
  | case1 n after checked hBelow rows hShort =>
      have hRoom :=
        Nat.le_of_dvd (Nat.sub_pos_of_lt hBelow)
          (Nat.dvd_sub hCap hChecked)
      omega
  | case2 n after checked hBelow rows hFull ih =>
      have hRoom :=
        Nat.le_of_dvd (Nat.sub_pos_of_lt hBelow)
          (Nat.dvd_sub hCap hChecked)
      have hLength : rows.length = batch :=
        Nat.le_antisymm page_length_le
          (Nat.le_of_not_lt hFull)
      have hRest := ih
        (by
          rw [hLength]
          exact Nat.dvd_add hChecked (Nat.dvd_refl _))
        (by omega)
      rw [List.length_append]
      omega
  | case3 n after checked _ =>
      exact hLe

------------------------------------------------------------
-- Coverage
------------------------------------------------------------

/- The rows, at any page, that come before a key. -/
def preceding
    (key : α → K)
    (source : Nat → List α)
    (k : K) :
    Set α :=
  { b | (∃ m, b ∈ source m) ∧ key b < k }

/- Distinct rows of a set are no more than the set has. -/
theorem length_le_encard
    {l : List α}
    {s : Set α}
    (hSorted : l.Pairwise (fun a b => key a < key b))
    (hSubset : ∀ b ∈ l, b ∈ s) :
    (l.length : ℕ∞) ≤ s.encard := by
  classical
  have hNodup : l.Nodup :=
    hSorted.imp (fun hLt hEq => by
      rw [hEq] at hLt
      exact lt_irrefl _ hLt)
  rw [← List.toFinset_card_of_nodup hNodup,
    ← Set.encard_coe_eq_coe_finsetCard]
  apply Set.encard_le_encard
  intro b hb
  exact hSubset b (List.mem_toFinset.mp hb)

/- A row with few rows before it is visited. -/
theorem mem_sweep_of_few
    (hKeys : ∀ m, ((source m).map key).Nodup)
    (hStays : ∀ m, a ∈ source m)
    (hAfter : after < key a)
    (hFew : (preceding key source (key a)).encard < cap) :
    a ∈ sweep key cap hBatch source n after 0 := by
  rcases mem_sweep_or_capped hKeys hStays hAfter with
    hMem | ⟨hCap, hBefore⟩
  · exact hMem
  · have hLength := length_le_encard (sweep_sorted hKeys)
      (fun b hb =>
        show b ∈ preceding key source (key a) from
          ⟨(mem_of_mem_sweep hb).1, hBefore b hb⟩)
    rw [Nat.zero_add] at hCap
    have hAll := le_trans (Nat.cast_le.mpr hCap) hLength
    exact absurd hFew (not_lt.mpr hAll)

/-
  When every page is read from the same rows, a row is
  visited exactly if fewer rows than the cap come before it.
-/
theorem mem_sweep_iff
    (hKeys : ∀ m, ((source m).map key).Nodup)
    (hSame : ∀ m b, b ∈ source m ↔ b ∈ source 0)
    (hAfter : ∀ b ∈ source 0, after < key b)
    (hCap : batch ∣ cap)
    (hMem : a ∈ source 0) :
    a ∈ sweep key cap hBatch source n after 0 ↔
      (preceding key source (key a)).encard < cap := by
  constructor
  · intro hVisited
    -- Everything before the row has been visited too.
    have hAll :
        ∀ b ∈ preceding key source (key a),
          b ∈ sweep key cap hBatch source n after 0 := by
      rintro b ⟨⟨m, hb⟩, hLess⟩
      have hFirst := (hSame m b).mp hb
      rcases mem_sweep_or_capped hKeys
        (fun m => (hSame m b).mpr hFirst) (hAfter b hFirst)
        with hSeen | ⟨_, hBefore⟩
      · exact hSeen
      · exact absurd (hBefore a hVisited) (lt_asymm hLess)
    have hLength :
        0 + (sweep key cap hBatch source n after 0).length ≤
          cap :=
      sweep_length_le hCap (Nat.dvd_zero _) (Nat.zero_le _)
    classical
    let visited :=
      (sweep key cap hBatch source n after 0).toFinset
    have hOthers :
        preceding key source (key a) ⊆
          (visited.erase a : Finset α) := by
      intro b hb
      refine Finset.mem_coe.mpr (Finset.mem_erase.mpr ⟨?_, ?_⟩)
      · rintro rfl
        exact lt_irrefl _ hb.2
      · exact List.mem_toFinset.mpr (hAll b hb)
    have hFewer : (visited.erase a).card < cap :=
      calc (visited.erase a).card
          < visited.card :=
            Finset.card_erase_lt_of_mem
              (List.mem_toFinset.mpr hVisited)
        _ ≤ (sweep key cap hBatch source n after 0).length :=
            List.toFinset_card_le _
        _ ≤ cap := by omega
    apply lt_of_le_of_lt (Set.encard_le_encard hOthers)
    rw [Set.encard_coe_eq_coe_finsetCard]
    exact Nat.cast_lt.mpr hFewer
  · intro hFew
    exact mem_sweep_of_few hKeys
      (fun m => (hSame m a).mpr hMem) (hAfter a hMem) hFew

end Paging

end Foundations
