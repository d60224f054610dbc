import Mathlib.Data.Finset.Max
import Mathlib.Data.List.Dedup
import Sluice.Foundations.Members

/-
  Reading the last of several members of one meaning, before
  and after the members are brought into canonical form.

  The keys of one meaning are given by a predicate `p`, and
  `select` tells which values count. For each way of reading
  there is a condition on the order of the keys under which
  the canonical form cannot change the outcome, and when the
  condition fails there are values for which it does.

  Key definitions include:
    * `Members.latest`
    * `Members.InOrder`
    * `Members.EndsInOrder`
    * `Members.GreatestLast`

  Key theorems include:
    * `Members.latest_canonical_of_inOrder`
    * `Members.latest_canonical_of_endsInOrder`
    * `Members.latest_canonical_of_greatestLast`
    * `Members.exists_changed_of_not_inOrder`
    * `Members.exists_changed_of_not_endsInOrder`
    * `Members.exists_changed_of_not_greatestLast`
-/

------------------------------------------------------------
-- Definitions
------------------------------------------------------------

namespace Foundations

namespace Members

section

variable {K V O A : Type}
variable [DecidableEq K] [LinearOrder O]

/- The last value that counts, among the keys in `p`. -/
def latest
    (p : K → Bool)
    (select : V → Option A)
    (ms : List (K × V)) :
    Option A :=
  (ms.filterMap
    (fun m => if p m.1 then select m.2 else none)).getLast?

def InOrder
    (rank : K → O)
    (keys : List K) :
    Prop :=
  keys.Pairwise (fun a b => rank a < rank b)

/-
  The last occurrences of the keys are in order and are not
  interrupted by other occurrences.
-/
def EndsInOrder
    (rank : K → O)
    (keys : List K) :
    Prop :=
  InOrder rank keys.dedup ∧ keys.dedup <:+ keys

def GreatestLast
    (rank : K → O)
    (keys : List K) :
    Prop :=
  ∀ last, keys.getLast? = some last →
    ∀ key ∈ keys, rank key ≤ rank last

end

------------------------------------------------------------
-- Reading A Part Of The Members
------------------------------------------------------------

section

variable {K V O A : Type}
variable {p : K → Bool}
variable {select : V → Option A}
variable {ms : List (K × V)}

theorem latest_filter
    (p : K → Bool)
    (select : V → Option A)
    (ms : List (K × V)) :
    latest p select (ms.filter (fun m => p m.1)) =
      latest p select ms := by
  unfold latest
  rw [List.filterMap_filter]
  congr 1
  apply List.filterMap_congr
  intro m _
  cases p m.1 <;> rfl

theorem map_fst_filter
    (p : K → Bool)
    (ms : List (K × V)) :
    (ms.filter (fun m => p m.1)).map Prod.fst =
      (ms.map Prod.fst).filter p := by
  rw [List.filter_map]
  rfl

/- When nothing counts, nothing is read. -/
theorem latest_eq_none
    (hNone :
      ∀ m ∈ ms, p m.1 = true → select m.2 = none) :
    latest p select ms = none := by
  unfold latest
  rw [List.getLast?_eq_none_iff,
    List.filterMap_eq_nil_iff]
  intro m hm
  by_cases hp : p m.1 = true
  · rw [if_pos hp]
    exact hNone m hm hp
  · rw [if_neg hp]

/- What is read comes from a member. -/
theorem exists_mem_of_latest
    {a : A}
    (hLatest : latest p select ms = some a) :
    ∃ m ∈ ms, p m.1 = true ∧ select m.2 = some a := by
  have hMem := List.mem_of_getLast? hLatest
  rcases List.mem_filterMap.mp hMem with ⟨m, hm, hSelect⟩
  split at hSelect
  · rename_i hp
    exact ⟨m, hm, hp, hSelect⟩
  · cases hSelect

/- When all members count alike, each is as good as another. -/
theorem latest_eq_of_forall
    {a : A}
    (hSome : ∃ m ∈ ms, p m.1 = true)
    (hAll :
      ∀ m ∈ ms, p m.1 = true → select m.2 = some a) :
    latest p select ms = some a := by
  cases hLatest : latest p select ms with
  | none =>
      rcases hSome with ⟨m, hm, hp⟩
      unfold latest at hLatest
      rw [List.getLast?_eq_none_iff,
        List.filterMap_eq_nil_iff] at hLatest
      have hNone := hLatest m hm
      rw [if_pos hp, hAll m hm hp] at hNone
      cases hNone
  | some b =>
      rcases exists_mem_of_latest hLatest with
        ⟨m, hm, hp, hSelect⟩
      rw [hAll m hm hp] at hSelect
      exact hSelect.symm

theorem latest_of_split
    {before after : List (K × V)}
    {m : K × V}
    {a : A}
    (hKey : p m.1 = true)
    (hSelect : select m.2 = some a)
    (hAfter :
      ∀ m' ∈ after, p m'.1 = true → select m'.2 = none) :
    latest p select (before ++ m :: after) = some a := by
  unfold latest
  apply getLast?_filterMap_of_split
  · rw [if_pos hKey, hSelect]
  · intro m' hm'
    by_cases hp : p m'.1 = true
    · rw [if_pos hp]
      exact hAfter m' hm' hp
    · rw [if_neg hp]

variable [LinearOrder O]
variable {rank : K → O}

theorem latest_of_ascending
    {m : K × V}
    {a : A}
    (hAsc : Ascending rank ms)
    (hMem : m ∈ ms)
    (hKey : p m.1 = true)
    (hSelect : select m.2 = some a)
    (hAbove :
      ∀ m' ∈ ms, rank m.1 < rank m'.1 → p m'.1 = true →
        select m'.2 = none) :
    latest p select ms = some a := by
  rcases hAsc.exists_split hMem with
    ⟨below, above, hSplit, hGreater⟩
  rw [hSplit]
  apply latest_of_split hKey hSelect
  intro m' hm'
  apply hAbove m' _ (hGreater m' hm')
  rw [hSplit]
  simp [hm']

end

------------------------------------------------------------
-- What The Canonical Form Keeps
------------------------------------------------------------

section

variable {K V O A : Type}
variable [DecidableEq K] [LinearOrder O]
variable {rank : K → O}
variable {p : K → Bool}
variable {ms : List (K × V)}

omit [DecidableEq K] in
theorem ascending_of_inOrder
    (hKeys : InOrder rank (ms.map Prod.fst)) :
    Ascending rank ms := by
  unfold InOrder at hKeys
  rw [List.pairwise_map] at hKeys
  exact hKeys

/-
  The canonical form ends the list of the members of `p`, if
  their keys end in order.
-/
theorem exists_filter_eq_of_endsInOrder
    (hRank : Function.Injective rank)
    (hKeys :
      EndsInOrder rank ((ms.map Prod.fst).filter p)) :
    ∃ early,
      ms.filter (fun m => p m.1) =
        early ++ (canonical rank ms).filter
          (fun m => p m.1) := by
  rcases hKeys with ⟨hOrder, front, hFront⟩
  rw [← map_fst_filter] at hOrder hFront
  rcases List.map_eq_append_iff.mp hFront.symm with
    ⟨early, late, hSplit, hEarly, hLate⟩
  refine ⟨early, ?_⟩
  rw [filter_canonical hRank, hSplit]
  rw [canonical_eq_suffix hRank]
  · apply ascending_of_inOrder
    rw [hLate]
    exact hOrder
  · intro m hm
    have hMem :
        m.1 ∈
          ((ms.filter (fun m => p m.1)).map
            Prod.fst).dedup := by
      apply List.mem_dedup.mpr
      rw [hSplit]
      exact List.mem_map_of_mem
        (List.mem_append_left _ hm)
    rw [← hLate] at hMem
    rcases List.mem_map.mp hMem with ⟨m', hm', hKey⟩
    exact ⟨m', hm', hKey⟩

/- With keys in order the members of `p` stay as they are. -/
theorem latest_canonical_of_inOrder
    (hRank : Function.Injective rank)
    {select : V → Option A}
    (hKeys : InOrder rank ((ms.map Prod.fst).filter p)) :
    latest p select (canonical rank ms) =
      latest p select ms := by
  rw [← latest_filter p select (canonical rank ms),
    ← latest_filter p select ms, filter_canonical hRank]
  congr 1
  apply canonical_eq_self hRank
  apply ascending_of_inOrder
  rw [map_fst_filter]
  exact hKeys

/- A value read after bringing it to order was read before. -/
theorem latest_canonical_of_endsInOrder
    (hRank : Function.Injective rank)
    {select : V → Option A}
    (hKeys :
      EndsInOrder rank ((ms.map Prod.fst).filter p)) :
    latest p select (canonical rank ms) = none ∨
      latest p select (canonical rank ms) =
        latest p select ms := by
  rcases exists_filter_eq_of_endsInOrder hRank hKeys with
    ⟨early, hSplit⟩
  cases hLatest : latest p select (canonical rank ms) with
  | none => exact .inl rfl
  | some a =>
      right
      rw [← latest_filter] at hLatest
      rw [← latest_filter p select ms, hSplit]
      unfold latest at hLatest ⊢
      rw [List.filterMap_append, List.getLast?_append,
        hLatest]
      rfl

/- The last member stays the last one of `p`. -/
theorem latest_canonical_of_greatestLast
    (hRank : Function.Injective rank)
    (hKeys :
      GreatestLast rank ((ms.map Prod.fst).filter p)) :
    latest p some (canonical rank ms) =
      latest p some ms := by
  rw [← latest_filter p some (canonical rank ms),
    ← latest_filter p some ms, filter_canonical hRank]
  rcases List.eq_nil_or_concat'
      (ms.filter (fun m => p m.1)) with
    hNone | ⟨front, last, hSplit⟩
  · rw [hNone]
    rfl
  · have hp : p last.1 = true := by
      have hMem : last ∈ ms.filter (fun m => p m.1) := by
        rw [hSplit]
        simp
      exact (List.mem_filter.mp hMem).2
    have hGreatest :
        ∀ m ∈ front ++ [last], rank m.1 ≤ rank last.1 := by
      intro m hm
      rw [← map_fst_filter, hSplit] at hKeys
      apply hKeys last.1 (by simp)
      exact List.mem_map_of_mem hm
    rw [hSplit]
    have hBefore :
        latest p some (front ++ [last]) = some last.2 :=
      latest_of_split hp rfl (by simp)
    rw [hBefore]
    apply latest_of_ascending
      (ascending_canonical hRank _) _ hp rfl
    · intro m hm hLess
      have hMem := mem_of_mem_canonical hRank hm
      exact absurd hLess
        (not_lt.mpr (hGreatest m hMem))
    · apply (mem_canonical_iff hRank).mpr
      exact ⟨front, [], rfl, by simp⟩

end

------------------------------------------------------------
-- What The Canonical Form Changes
------------------------------------------------------------

/- The last of the elements that are equal to a given one. -/
theorem exists_last_occurrence
    {K : Type}
    {keys : List K}
    {k : K}
    (hMem : k ∈ keys) :
    ∃ before after,
      keys = before ++ k :: after ∧ k ∉ after := by
  induction keys with
  | nil => cases hMem
  | cons head tail ih =>
      by_cases hTail : k ∈ tail
      · rcases ih hTail with ⟨before, after, rfl, hAfter⟩
        exact ⟨head :: before, after, rfl, hAfter⟩
      · rcases List.mem_cons.mp hMem with rfl | hLater
        · exact ⟨[], tail, rfl, hTail⟩
        · exact absurd hLater hTail

/- A repeated element comes again after some occurrence. -/
theorem exists_repeated_of_not_nodup
    {K : Type}
    {keys : List K}
    (hDup : ¬keys.Nodup) :
    ∃ before k after,
      keys = before ++ k :: after ∧ k ∈ after := by
  induction keys with
  | nil => exact absurd List.nodup_nil hDup
  | cons head tail ih =>
      by_cases hMem : head ∈ tail
      · exact ⟨[], head, tail, rfl, hMem⟩
      · have hTail : ¬tail.Nodup := by
          intro hNodup
          exact hDup (List.nodup_cons.mpr ⟨hMem, hNodup⟩)
        rcases ih hTail with ⟨before, k, after, rfl, hAgain⟩
        exact ⟨head :: before, k, after, rfl, hAgain⟩

/- A selected element splits the list it is selected from. -/
theorem exists_split_of_filter
    {K : Type}
    {p : K → Bool}
    {keys front back : List K}
    {k : K}
    (hFilter : keys.filter p = front ++ k :: back) :
    ∃ before after,
      keys = before ++ k :: after ∧
        before.filter p = front ∧ after.filter p = back := by
  rcases List.filter_eq_append_iff.mp hFilter with
    ⟨l₁, l₂, hKeys, hFront, hBack⟩
  rcases List.filter_eq_cons_iff.mp hBack with
    ⟨l₃, after, hSplit, hSkipped, _, hAfter⟩
  refine ⟨l₁ ++ l₃, after, ?_, ?_, hAfter⟩
  · rw [hKeys, hSplit, List.append_assoc]
  · rw [List.filter_append, hFront,
      List.filter_eq_nil_iff.mpr hSkipped,
      List.append_nil]

variable {K V O A : Type}
variable [DecidableEq K] [LinearOrder O]
variable {rank : K → O}
variable {p : K → Bool}
variable {keys : List K}

theorem EndsInOrder.cons_of_mem
    {key : K}
    (hTail : EndsInOrder rank keys)
    (hMem : key ∈ keys) :
    EndsInOrder rank (key :: keys) := by
  unfold EndsInOrder
  rw [List.dedup_cons_of_mem hMem]
  exact ⟨hTail.1, hTail.2.trans (List.suffix_cons _ _)⟩

/- A new key before distinct keys that are greater. -/
theorem EndsInOrder.cons_of_less
    {key : K}
    (hTail : EndsInOrder rank keys)
    (hMem : key ∉ keys)
    (hNodup : keys.Nodup)
    (hLess : ∀ next ∈ keys, rank key < rank next) :
    EndsInOrder rank (key :: keys) := by
  have hOrder := hTail.1
  unfold EndsInOrder
  rw [hNodup.dedup] at hOrder
  rw [List.dedup_cons_of_notMem hMem, hNodup.dedup]
  exact ⟨List.pairwise_cons.mpr ⟨hLess, hOrder⟩,
    List.suffix_refl _⟩

/-
  If the keys do not end in order, then after the last
  occurrence of some key there is another key that is smaller
  or occurs yet again.
-/
theorem exists_overtaken_of_not_endsInOrder
    (hRank : Function.Injective rank)
    (hKeys : ¬EndsInOrder rank keys) :
    ∃ front last mid next back,
      keys = front ++ last :: (mid ++ next :: back) ∧
        last ∉ mid ++ next :: back ∧
          (rank next < rank last ∨ next ∈ back) := by
  induction keys with
  | nil =>
      apply absurd _ hKeys
      exact ⟨List.Pairwise.nil, List.suffix_refl _⟩
  | cons key keys ih =>
      by_cases hTail : EndsInOrder rank keys
      · by_contra hNone
        apply hKeys
        by_cases hMem : key ∈ keys
        · exact hTail.cons_of_mem hMem
        · -- The key is the last of its kind, so all that
          -- follows is greater and does not repeat.
          have hNext :
              ∀ mid next back,
                keys = mid ++ next :: back →
                  rank key < rank next ∧ next ∉ back := by
            intro mid next back hSplit
            have hNot :
                ¬(rank next < rank key ∨ next ∈ back) := by
              intro hBad
              apply hNone
              refine ⟨[], key, mid, next, back, ?_, ?_,
                hBad⟩
              · rw [hSplit]
                rfl
              · rw [← hSplit]
                exact hMem
            rcases not_or.mp hNot with ⟨hNotLess, hLast⟩
            refine ⟨?_, hLast⟩
            apply lt_of_le_of_ne (not_lt.mp hNotLess)
            intro hSame
            apply hMem
            rw [hRank hSame, hSplit]
            simp
          have hNodup : keys.Nodup := by
            by_contra hDup
            rcases exists_repeated_of_not_nodup hDup with
              ⟨mid, next, back, hSplit, hAgain⟩
            exact (hNext mid next back hSplit).2 hAgain
          apply hTail.cons_of_less hMem hNodup
          intro next hNextMem
          rcases List.append_of_mem hNextMem with
            ⟨mid, back, hSplit⟩
          exact (hNext mid next back hSplit).1
      · rcases ih hTail with
          ⟨front, last, mid, next, back, hSplit, hLast,
            hNext⟩
        refine ⟨key :: front, last, mid, next, back, ?_,
          hLast, hNext⟩
        rw [hSplit]
        rfl

/- Members with a value for each key. -/
def fill
    (filler : K → V)
    (keys : List K) :
    List (K × V) :=
  keys.map (fun k => (k, filler k))

omit [DecidableEq K] in
@[simp] theorem map_fst_fill
    (filler : K → V)
    (keys : List K) :
    (fill filler keys).map Prod.fst = keys := by
  unfold fill
  rw [List.map_map]
  exact List.map_id _

omit [DecidableEq K] in
theorem mem_fill_iff
    {filler : K → V}
    {m : K × V} :
    m ∈ fill filler keys ↔
      m.1 ∈ keys ∧ m.2 = filler m.1 := by
  unfold fill
  rw [List.mem_map]
  constructor
  · rintro ⟨k, hk, rfl⟩
    exact ⟨hk, rfl⟩
  · rintro ⟨hk, hValue⟩
    exact ⟨m.1, hk, by rw [← hValue]⟩

/-
  A value that stands before an occurrence of its key that is
  filled in does not reach the canonical form.
-/
theorem notMem_canonical_of_refilled
    (hRank : Function.Injective rank)
    {filler : K → V}
    {before : List (K × V)}
    {m : K × V}
    (hKey : m.1 ∈ keys)
    (hValue : m.2 ≠ filler m.1) :
    m ∉ canonical rank (before ++ fill filler keys) := by
  intro hMem
  rcases exists_last_occurrence hKey with
    ⟨front, back, hSplit, hLast⟩
  have hFilled :
      (m.1, filler m.1) ∈
        canonical rank (before ++ fill filler keys) := by
    apply (mem_canonical_iff hRank).mpr
    refine ⟨before ++ fill filler front,
      fill filler back, ?_, ?_⟩
    · rw [hSplit]
      simp [fill]
    · intro m' hm' hSame
      apply hLast
      have hBack := (mem_fill_iff.mp hm').1
      rw [hSame] at hBack
      exact hBack
  have hSame :=
    (ascending_canonical hRank _).eq_of_key_eq hMem hFilled
      rfl
  exact hValue (congrArg Prod.snd hSame)

/- The last member with its key reaches the canonical form. -/
theorem mem_canonical_of_last
    (hRank : Function.Injective rank)
    {before after : List (K × V)}
    {m : K × V}
    (hLast : m.1 ∉ after.map Prod.fst) :
    m ∈ canonical rank (before ++ m :: after) := by
  apply (mem_canonical_iff hRank).mpr
  refine ⟨before, after, rfl, ?_⟩
  intro m' hm' hSame
  apply hLast
  rw [← hSame]
  exact List.mem_map_of_mem hm'

omit [DecidableEq K] in
theorem mem_fill_cons
    {filler : K → V}
    {rest : List (K × V)}
    {m m' : K × V}
    (hMem : m ∈ fill filler keys ++ m' :: rest) :
    m.2 = filler m.1 ∨ m = m' ∨ m ∈ rest := by
  rcases List.mem_append.mp hMem with hFill | hLater
  · exact .inl (mem_fill_iff.mp hFill).2
  · exact .inr (List.mem_cons.mp hLater)

variable {select : V → Option A}

omit [DecidableEq K] in
/- Nothing is read from the fillers. -/
theorem latest_before_fill
    {filler : K → V}
    {before : List (K × V)}
    {m : K × V}
    {a : A}
    (hFiller : ∀ k, p k = true → select (filler k) = none)
    (hKey : p m.1 = true)
    (hSelect : select m.2 = some a) :
    latest p select (before ++ m :: fill filler keys) =
      some a := by
  apply latest_of_split hKey hSelect
  intro m' hm' hp
  rw [(mem_fill_iff.mp hm').2]
  exact hFiller m'.1 hp

/-
  Keys that do not end in order: the value that is read last
  is put before one that is not the last to be read.
-/
theorem exists_changed_of_not_endsInOrder
    (hRank : Function.Injective rank)
    (filler : K → V)
    {good bad : V}
    {a b : A}
    (hFiller : ∀ k, p k = true → select (filler k) = none)
    (hGood : select good = some a)
    (hBad : select bad = some b)
    (hKeys : ¬EndsInOrder rank (keys.filter p)) :
    ∃ ms : List (K × V),
      ms.map Prod.fst = keys ∧
        (∀ m ∈ ms,
          m.2 = filler m.1 ∨
            (p m.1 = true ∧ (m.2 = good ∨ m.2 = bad))) ∧
          latest p select ms = some a ∧
            latest p select (canonical rank ms) =
              some b := by
  rcases exists_overtaken_of_not_endsInOrder hRank hKeys
    with ⟨front, last, mid, next, back, hSplit, hLast, hNext⟩
  rcases exists_split_of_filter hSplit with
    ⟨before, rest, hBefore, _, hRest⟩
  rcases exists_split_of_filter hRest with
    ⟨between, after, hBetween, _, hAfter⟩
  have hSelected :
      last ∈ keys.filter p ∧ next ∈ keys.filter p := by
    rw [hSplit]
    simp
  have hpLast := (List.mem_filter.mp hSelected.1).2
  have hpNext := (List.mem_filter.mp hSelected.2).2
  have hLastRest : last ∉ rest := by
    intro hMem
    apply hLast
    rw [← hRest]
    exact List.mem_filter.mpr ⟨hMem, hpLast⟩
  have hNoFiller : good ≠ filler next := by
    intro hSame
    rw [hSame, hFiller next hpNext] at hGood
    cases hGood
  generalize hMs :
    fill filler before ++ (last, bad) ::
      (fill filler between ++ (next, good) ::
        fill filler after) = ms
  have hValues :
      ∀ m ∈ ms,
        m.2 = filler m.1 ∨ m = (last, bad) ∨
          m = (next, good) := by
    intro m hm
    rw [← hMs] at hm
    rcases mem_fill_cons hm with hValue | hLow | hLater
    · exact .inl hValue
    · exact .inr (.inl hLow)
    · rcases mem_fill_cons hLater with
        hValue | hHigh | hFill
      · exact .inl hValue
      · exact .inr (.inr hHigh)
      · exact .inl (mem_fill_iff.mp hFill).2
  refine ⟨ms, ?_, ?_, ?_, ?_⟩
  · rw [← hMs, hBefore, hBetween]
    simp
  · intro m hm
    rcases hValues m hm with hValue | rfl | rfl
    · exact .inl hValue
    · exact .inr ⟨hpLast, .inr rfl⟩
    · exact .inr ⟨hpNext, .inl rfl⟩
  · rw [← hMs, ← List.cons_append, ← List.append_assoc]
    exact latest_before_fill hFiller hpNext hGood
  · have hMember : (last, bad) ∈ canonical rank ms := by
      rw [← hMs]
      apply mem_canonical_of_last hRank
      rw [hBetween] at hLastRest
      simpa using hLastRest
    apply latest_of_ascending (ascending_canonical hRank _)
      hMember hpLast hBad
    intro m hm hGreater hp
    rcases hValues m (mem_of_mem_canonical hRank hm) with
      hValue | rfl | rfl
    · rw [hValue]
      exact hFiller m.1 hp
    · exact absurd hGreater (lt_irrefl _)
    · exfalso
      rcases hNext with hLess | hAgain
      · exact lt_asymm hLess hGreater
      · have hAfterMem : next ∈ after := by
          rw [← hAfter] at hAgain
          exact (List.mem_filter.mp hAgain).1
        rw [← hMs, ← List.cons_append, ← List.append_assoc,
          List.append_cons] at hm
        exact notMem_canonical_of_refilled hRank hAfterMem
          hNoFiller hm

/-
  Keys that are not in order: either the above, or the only
  value to be read is put before a repetition of its key.
-/
theorem exists_changed_of_not_inOrder
    (hRank : Function.Injective rank)
    (filler : K → V)
    {good bad : V}
    {a b : A}
    (hFiller : ∀ k, p k = true → select (filler k) = none)
    (hGood : select good = some a)
    (hBad : select bad = some b)
    (hKeys : ¬InOrder rank (keys.filter p)) :
    ∃ ms : List (K × V),
      ms.map Prod.fst = keys ∧
        (∀ m ∈ ms,
          m.2 = filler m.1 ∨
            (p m.1 = true ∧ (m.2 = good ∨ m.2 = bad))) ∧
          latest p select ms = some a ∧
            (latest p select (canonical rank ms) = none ∨
              latest p select (canonical rank ms) =
                some b) := by
  by_cases hEnds : EndsInOrder rank (keys.filter p)
  · have hDup : ¬(keys.filter p).Nodup := by
      intro hNodup
      apply hKeys
      have hOrder := hEnds.1
      rw [hNodup.dedup] at hOrder
      exact hOrder
    rcases exists_repeated_of_not_nodup hDup with
      ⟨front, twice, back, hSplit, hAgain⟩
    rcases exists_split_of_filter hSplit with
      ⟨before, after, hBefore, _, hAfter⟩
    have hpTwice : p twice = true := by
      have hMem : twice ∈ keys.filter p := by
        rw [hSplit]
        simp
      exact (List.mem_filter.mp hMem).2
    have hTwiceAfter : twice ∈ after := by
      rw [← hAfter] at hAgain
      exact (List.mem_filter.mp hAgain).1
    have hNoFiller : good ≠ filler twice := by
      intro hSame
      rw [hSame, hFiller twice hpTwice] at hGood
      cases hGood
    have hValues :
        ∀ m ∈ fill filler before ++ (twice, good) ::
            fill filler after,
          m.2 = filler m.1 ∨ m = (twice, good) := by
      intro m hm
      rcases mem_fill_cons hm with hValue | hTwice | hFill
      · exact .inl hValue
      · exact .inr hTwice
      · exact .inl (mem_fill_iff.mp hFill).2
    refine ⟨fill filler before ++ (twice, good) ::
      fill filler after, ?_, ?_, ?_, .inl ?_⟩
    · rw [hBefore]
      simp
    · intro m hm
      rcases hValues m hm with hValue | rfl
      · exact .inl hValue
      · exact .inr ⟨hpTwice, .inl rfl⟩
    · exact latest_before_fill hFiller hpTwice hGood
    · apply latest_eq_none
      intro m hm hp
      rcases hValues m (mem_of_mem_canonical hRank hm) with
        hValue | rfl
      · rw [hValue]
        exact hFiller m.1 hp
      · exfalso
        rw [List.append_cons] at hm
        exact notMem_canonical_of_refilled hRank
          hTwiceAfter hNoFiller hm
  · rcases exists_changed_of_not_endsInOrder hRank filler
      hFiller hGood hBad hEnds with
      ⟨ms, hFst, hValues, hBefore, hAfter⟩
    exact ⟨ms, hFst, hValues, hBefore, .inr hAfter⟩

omit [DecidableEq K] in
/- Of fillers alone, the last one counts. -/
theorem latest_fill
    (p : K → Bool)
    (filler : K → V)
    (keys : List K) :
    latest p some (fill filler keys) =
      (keys.filter p).getLast?.map filler := by
  have hMap :
      keys.filterMap
          ((fun m : K × V =>
            if p m.1 then some m.2 else none) ∘
            fun k => (k, filler k)) =
        (keys.filter p).map filler := by
    rw [← List.filterMap_eq_map, List.filterMap_filter]
    rfl
  unfold latest fill
  rw [List.filterMap_map, hMap, List.getLast?_map]

/- Another last key comes after every other selected key. -/
omit [DecidableEq K] in
theorem getLast?_filter_after
    {before after : List K}
    {key last : K}
    (hp : p key = true)
    (hNe : key ≠ last)
    (hLast :
      ((before ++ key :: after).filter p).getLast? =
        some last) :
    (after.filter p).getLast? = some last := by
  rw [List.filter_append, List.filter_cons_of_pos hp,
    List.getLast?_append, List.getLast?_cons] at hLast
  cases hAfter : (after.filter p).getLast? with
  | none =>
      rw [hAfter] at hLast
      exact absurd (Option.some.inj hLast) hNe
  | some k =>
      rw [hAfter] at hLast
      exact hLast

/-
  A last key that is not the greatest: the greatest one takes
  the place of the last value.
-/
theorem exists_changed_of_not_greatestLast
    (hRank : Function.Injective rank)
    (filler : K → V)
    (bad : V)
    (hKeys : ¬GreatestLast rank (keys.filter p)) :
    ∃ ms : List (K × V),
      ms.map Prod.fst = keys ∧
        (∀ m ∈ ms,
          m.2 = filler m.1 ∨ (p m.1 = true ∧ m.2 = bad)) ∧
          (∃ k, p k = true ∧
            latest p some ms = some (filler k)) ∧
            latest p some (canonical rank ms) =
              some bad := by
  unfold GreatestLast at hKeys
  push Not at hKeys
  rcases hKeys with ⟨last, hLast, key, hKey, hLess⟩
  rcases (keys.filter p).toFinset.exists_max_image rank
      ⟨key, List.mem_toFinset.mpr hKey⟩ with
    ⟨greatest, hGreatest, hMax⟩
  rw [List.mem_toFinset] at hGreatest
  have hpGreatest := (List.mem_filter.mp hGreatest).2
  have hLastLess : rank last < rank greatest :=
    lt_of_lt_of_le hLess
      (hMax key (List.mem_toFinset.mpr hKey))
  rcases exists_last_occurrence
      (List.mem_filter.mp hGreatest).1 with
    ⟨before, after, hSplit, hNoMore⟩
  have hLastAfter :
      (after.filter p).getLast? = some last := by
    rw [hSplit] at hLast
    apply getLast?_filter_after hpGreatest _ hLast
    rintro rfl
    exact absurd hLastLess (lt_irrefl _)
  have hpLast : p last = true :=
    (List.mem_filter.mp (List.mem_of_getLast? hLastAfter)).2
  refine ⟨fill filler before ++ (greatest, bad) ::
    fill filler after, ?_, ?_, ⟨last, hpLast, ?_⟩, ?_⟩
  · rw [hSplit]
    simp
  · intro m hm
    rcases mem_fill_cons hm with hValue | rfl | hFill
    · exact .inl hValue
    · exact .inr ⟨hpGreatest, rfl⟩
    · exact .inl (mem_fill_iff.mp hFill).2
  · have hFilled :
        latest p some (fill filler after) =
          some (filler last) := by
      rw [latest_fill, hLastAfter]
      rfl
    unfold latest at hFilled ⊢
    rw [List.filterMap_append, List.filterMap_cons,
      List.getLast?_append]
    simp only [hpGreatest, if_true, List.getLast?_cons,
      hFilled]
    rfl
  · have hMember :
        (greatest, bad) ∈
          canonical rank
            (fill filler before ++ (greatest, bad) ::
              fill filler after) := by
      apply mem_canonical_of_last hRank
      rw [map_fst_fill]
      exact hNoMore
    apply latest_of_ascending (ascending_canonical hRank _)
      hMember hpGreatest rfl
    intro m hm hGreater hp
    have hMem := mem_of_mem_canonical hRank hm
    have hKeyMem : m.1 ∈ keys.filter p := by
      apply List.mem_filter.mpr
      refine ⟨?_, hp⟩
      rw [hSplit]
      simpa using List.mem_map_of_mem (f := Prod.fst) hMem
    exact absurd hGreater
      (not_lt.mpr
        (hMax m.1 (List.mem_toFinset.mpr hKeyMem)))

end Members

end Foundations
