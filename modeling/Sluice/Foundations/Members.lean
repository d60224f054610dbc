import Mathlib.Data.List.Induction
import Mathlib.Data.List.Sort

/-
  Lists of members, each of them a key with its value, in
  which a key may be repeated; and the canonical form of such
  a list: every key once, with its last value, in ascending
  order of the keys.

  Keys are compared by a rank in a linear order, and distinct
  keys have distinct ranks.

  Key definitions include:
    * `Members.put`
    * `Members.canonical`
    * `Members.Ascending`

  Key theorems include:
    * `Members.mem_canonical_iff`
    * `Members.filter_canonical`
    * `Members.canonical_eq_suffix`
    * `Members.canonical_map`
    * `Members.Ascending.eq_of_key_eq`
    * `Members.foldlM_get`
    * `Members.foldlM_isOk_iff`
-/

------------------------------------------------------------
-- Canonical Form
------------------------------------------------------------

namespace Foundations

namespace Members

section

variable {K V O : Type}
variable [DecidableEq K] [LinearOrder O]

/-
  Put a member into an ascending list, in the place of the
  member that has its key.
-/
def put
    (rank : K → O)
    (m : K × V) :
    List (K × V) → List (K × V)
| [] => [m]
| head :: tail =>
    if rank m.1 < rank head.1 then m :: head :: tail
    else if m.1 = head.1 then m :: tail
    else head :: put rank m tail

/- Every key once, with its last value. -/
def canonical
    (rank : K → O)
    (ms : List (K × V)) :
    List (K × V) :=
  ms.foldl (fun acc m => put rank m acc) []

def Ascending
    (rank : K → O)
    (ms : List (K × V)) :
    Prop :=
  ms.Pairwise (fun a b => rank a.1 < rank b.1)

end

------------------------------------------------------------
-- Ascending Lists
------------------------------------------------------------

section

variable {K V O A : Type}
variable [LinearOrder O]
variable {rank : K → O}
variable {l l' : List (K × V)}
variable {m : K × V}

/- An ascending list is determined by its members. -/
theorem Ascending.eq_of_mem_iff
    (hAsc : Ascending rank l)
    (hAsc' : Ascending rank l')
    (hMem : ∀ m, m ∈ l ↔ m ∈ l') :
    l = l' := by
  have hIrrefl :
      Std.Irrefl
        (fun a b : K × V => rank a.1 < rank b.1) :=
    ⟨fun a => lt_irrefl (rank a.1)⟩
  have hAntisymm :
      Std.Antisymm
        (fun a b : K × V => rank a.1 < rank b.1) :=
    ⟨fun a b hab hba => absurd hba hab.asymm⟩
  exact List.Pairwise.eq_of_mem_iff hAsc hAsc' hMem

/- A member splits the list into smaller and greater ones. -/
theorem Ascending.exists_split
    (hAsc : Ascending rank l)
    (hMem : m ∈ l) :
    ∃ below above,
      l = below ++ m :: above ∧
        ∀ m' ∈ above, rank m.1 < rank m'.1 := by
  rcases List.append_of_mem hMem with
    ⟨below, above, hSplit⟩
  refine ⟨below, above, hSplit, ?_⟩
  intro m' hAbove
  unfold Ascending at hAsc
  rw [hSplit] at hAsc
  have hTail := (List.pairwise_append.mp hAsc).2.1
  exact (List.pairwise_cons.mp hTail).1 m' hAbove

/- One key has one member. -/
theorem Ascending.eq_of_key_eq
    {m' : K × V}
    (hAsc : Ascending rank l)
    (hMem : m ∈ l)
    (hMem' : m' ∈ l)
    (hKey : m.1 = m'.1) :
    m = m' := by
  have hNodup : (l.map Prod.fst).Nodup := by
    apply List.pairwise_map.mpr
    apply List.Pairwise.imp _ hAsc
    intro a b hLess hSame
    rw [hSame] at hLess
    exact lt_irrefl _ hLess
  exact List.inj_on_of_nodup_map hNodup hMem hMem' hKey

/-
  What is selected last is selected at a member that nothing
  selected comes after.
-/
theorem getLast?_filterMap_of_split
    {below above : List (K × V)}
    {select : K × V → Option A}
    {a : A}
    (hSelect : select m = some a)
    (hAbove : ∀ m' ∈ above, select m' = none) :
    ((below ++ m :: above).filterMap select).getLast? =
      some a := by
  have hRest : above.filterMap select = [] :=
    List.filterMap_eq_nil_iff.mpr hAbove
  rw [List.filterMap_append,
    List.filterMap_cons_some hSelect, hRest]
  simp

end

------------------------------------------------------------
-- Members Of The Canonical Form
------------------------------------------------------------

section

variable {K V O : Type}
variable [DecidableEq K] [LinearOrder O]
variable {rank : K → O}
variable {ms l : List (K × V)}
variable {m m' : K × V}

/- The member put in replaces the one of its key. -/
theorem mem_put_iff
    (hAsc : Ascending rank l) :
    m' ∈ put rank m l ↔
      m' = m ∨ (m'.1 ≠ m.1 ∧ m' ∈ l) := by
  induction l with
  | nil => simp [put]
  | cons head tail ih =>
      have hParts := List.pairwise_cons.mp hAsc
      unfold put
      split
      · rename_i hLess
        rw [List.mem_cons]
        constructor
        · rintro (hSame | hOld)
          · exact .inl hSame
          · right
            refine ⟨?_, hOld⟩
            intro hKey
            rcases List.mem_cons.mp hOld with rfl | hTail
            · rw [hKey] at hLess
              exact lt_irrefl _ hLess
            · have hHead := hParts.1 m' hTail
              rw [hKey] at hHead
              exact lt_asymm hLess hHead
        · rintro (hSame | ⟨_, hOld⟩)
          · exact .inl hSame
          · exact .inr hOld
      · rename_i hNotLess
        split
        · rename_i hKey
          rw [List.mem_cons, List.mem_cons]
          constructor
          · rintro (hSame | hTail)
            · exact .inl hSame
            · right
              refine ⟨?_, .inr hTail⟩
              intro hSame
              have hHead := hParts.1 m' hTail
              rw [hSame, hKey] at hHead
              exact lt_irrefl _ hHead
          · rintro (hSame | ⟨hOther, rfl | hTail⟩)
            · exact .inl hSame
            · exact absurd hKey.symm hOther
            · exact .inr hTail
        · rename_i hKey
          rw [List.mem_cons, ih hParts.2, List.mem_cons]
          constructor
          · rintro (rfl | hSame | ⟨hOther, hTail⟩)
            · exact .inr ⟨Ne.symm hKey, .inl rfl⟩
            · exact .inl hSame
            · exact .inr ⟨hOther, .inr hTail⟩
          · rintro (hSame | ⟨hOther, hHead | hTail⟩)
            · exact .inr (.inl hSame)
            · exact .inl hHead
            · exact .inr (.inr ⟨hOther, hTail⟩)

theorem ascending_put
    (hRank : Function.Injective rank)
    (hAsc : Ascending rank l) :
    Ascending rank (put rank m l) := by
  induction l with
  | nil => exact List.pairwise_singleton _ _
  | cons head tail ih =>
      have hParts := List.pairwise_cons.mp hAsc
      unfold put
      split
      · rename_i hLess
        apply List.pairwise_cons.mpr
        refine ⟨?_, hAsc⟩
        intro m' hm'
        rcases List.mem_cons.mp hm' with rfl | hTail
        · exact hLess
        · exact hLess.trans (hParts.1 m' hTail)
      · rename_i hNotLess
        split
        · rename_i hKey
          apply List.pairwise_cons.mpr
          refine ⟨?_, hParts.2⟩
          intro m' hTail
          rw [hKey]
          exact hParts.1 m' hTail
        · rename_i hKey
          have hHead : rank head.1 < rank m.1 := by
            apply lt_of_le_of_ne (not_lt.mp hNotLess)
            intro hEq
            exact hKey (hRank hEq).symm
          apply List.pairwise_cons.mpr
          refine ⟨?_, ih hParts.2⟩
          intro m' hm'
          rcases (mem_put_iff hParts.2).mp hm' with
            rfl | ⟨_, hTail⟩
          · exact hHead
          · exact hParts.1 m' hTail

theorem canonical_concat
    (ms : List (K × V))
    (m : K × V) :
    canonical rank (ms ++ [m]) =
      put rank m (canonical rank ms) := by
  unfold canonical
  rw [List.foldl_append]
  rfl

theorem ascending_canonical
    (hRank : Function.Injective rank)
    (ms : List (K × V)) :
    Ascending rank (canonical rank ms) := by
  induction ms using List.reverseRecOn with
  | nil => exact List.Pairwise.nil
  | append_singleton ms m ih =>
      rw [canonical_concat]
      exact ascending_put hRank ih

/- The canonical form has the last member of each key. -/
theorem mem_canonical_iff
    (hRank : Function.Injective rank) :
    m ∈ canonical rank ms ↔
      ∃ before after,
        ms = before ++ m :: after ∧
          ∀ m' ∈ after, m'.1 ≠ m.1 := by
  induction ms using List.reverseRecOn with
  | nil => simp [canonical]
  | append_singleton ms last ih =>
      rw [canonical_concat,
        mem_put_iff (ascending_canonical hRank ms),
        ih]
      constructor
      · rintro (rfl | ⟨hKey, before, after, rfl, hAfter⟩)
        · exact ⟨ms, [], rfl, by simp⟩
        · refine ⟨before, after ++ [last], by simp, ?_⟩
          intro m' hm'
          rcases List.mem_append.mp hm' with hOld | hNew
          · exact hAfter m' hOld
          · rw [List.mem_singleton.mp hNew]
            exact Ne.symm hKey
      · rintro ⟨before, after, hSplit, hAfter⟩
        rcases List.eq_nil_or_concat' after with
          rfl | ⟨after, m', rfl⟩
        · left
          have hLast :=
            (List.append_inj' hSplit rfl).2
          exact (List.singleton_inj.mp hLast).symm
        · right
          have hParts :
              ms ++ [last] =
                (before ++ m :: after) ++ [m'] := by
            rw [hSplit]
            simp
          rcases List.append_inj' hParts rfl with
            ⟨hInit, hLast⟩
          have hSame := List.singleton_inj.mp hLast
          refine ⟨?_, before, after, hInit, ?_⟩
          · rw [hSame]
            exact Ne.symm (hAfter m' (by simp))
          · intro other hOther
            exact hAfter other (by simp [hOther])

theorem mem_of_mem_canonical
    (hRank : Function.Injective rank)
    (hMem : m ∈ canonical rank ms) :
    m ∈ ms := by
  rcases (mem_canonical_iff hRank).mp hMem with
    ⟨before, after, rfl, _⟩
  simp

/- No key is lost. -/
theorem exists_mem_canonical
    (hRank : Function.Injective rank)
    (hMem : m ∈ ms) :
    ∃ m' ∈ canonical rank ms, m'.1 = m.1 := by
  induction ms using List.reverseRecOn with
  | nil => cases hMem
  | append_singleton ms last ih =>
      have hPut :
          ∀ m', m' ∈ canonical rank (ms ++ [last]) ↔
            m' = last ∨
              (m'.1 ≠ last.1 ∧ m' ∈ canonical rank ms) := by
        intro m'
        rw [canonical_concat,
          mem_put_iff (ascending_canonical hRank ms)]
      by_cases hKey : m.1 = last.1
      · exact ⟨last, (hPut last).mpr (.inl rfl), hKey.symm⟩
      · have hOld : m ∈ ms := by
          rcases List.mem_append.mp hMem with hOld | hLast
          · exact hOld
          · rw [List.mem_singleton.mp hLast] at hKey
            exact absurd rfl hKey
        rcases ih hOld with ⟨m', hm', hSame⟩
        refine ⟨m', (hPut m').mpr (.inr ⟨?_, hm'⟩), hSame⟩
        rw [hSame]
        exact hKey

/- Keys are kept, so keys may be selected before or after. -/
theorem filter_canonical
    (hRank : Function.Injective rank)
    (p : K → Bool)
    (ms : List (K × V)) :
    (canonical rank ms).filter (fun m => p m.1) =
      canonical rank (ms.filter (fun m => p m.1)) := by
  induction ms using List.reverseRecOn with
  | nil => rfl
  | append_singleton ms last ih =>
      have hAsc := ascending_canonical hRank ms
      have hAscFilter :
          Ascending rank
            ((canonical rank ms).filter (fun m => p m.1)) :=
        List.Pairwise.filter _ hAsc
      rw [canonical_concat, List.filter_append]
      cases hLast : p last.1 with
      | false =>
          rw [List.filter_cons_of_neg (by simp [hLast]),
            List.filter_nil, List.append_nil, ← ih]
          apply Ascending.eq_of_mem_iff
            (List.Pairwise.filter _
              (ascending_put hRank hAsc)) hAscFilter
          intro m
          rw [List.mem_filter, mem_put_iff hAsc,
            List.mem_filter]
          constructor
          · rintro ⟨rfl | ⟨_, hOld⟩, hp⟩
            · rw [hLast] at hp
              cases hp
            · exact ⟨hOld, hp⟩
          · rintro ⟨hOld, hp⟩
            refine ⟨.inr ⟨?_, hOld⟩, hp⟩
            intro hKey
            rw [hKey, hLast] at hp
            cases hp
      | true =>
          rw [List.filter_cons_of_pos (by simp [hLast]),
            List.filter_nil, canonical_concat, ← ih]
          apply Ascending.eq_of_mem_iff
            (List.Pairwise.filter _
              (ascending_put hRank hAsc))
            (ascending_put hRank hAscFilter)
          intro m
          rw [List.mem_filter, mem_put_iff hAsc,
            mem_put_iff hAscFilter, List.mem_filter]
          constructor
          · rintro ⟨rfl | ⟨hKey, hOld⟩, hp⟩
            · exact .inl rfl
            · exact .inr ⟨hKey, hOld, hp⟩
          · rintro (rfl | ⟨hKey, hOld, hp⟩)
            · exact ⟨.inl rfl, hLast⟩
            · exact ⟨.inr ⟨hKey, hOld⟩, hp⟩

/-
  When the list ends with an ascending part that has all of
  its keys, this part is the canonical form.
-/
theorem canonical_eq_suffix
    (hRank : Function.Injective rank)
    {early late : List (K × V)}
    (hAsc : Ascending rank late)
    (hCovered :
      ∀ m ∈ early, ∃ m' ∈ late, m'.1 = m.1) :
    canonical rank (early ++ late) = late := by
  apply Ascending.eq_of_mem_iff
    (ascending_canonical hRank _) hAsc
  intro m
  rw [mem_canonical_iff hRank]
  constructor
  · rintro ⟨before, after, hSplit, hAfter⟩
    rcases List.append_eq_append_iff.mp hSplit with
      ⟨mid, _, hLate⟩ | ⟨mid, hEarly, hRest⟩
    · rw [hLate]
      simp
    · cases mid with
      | nil =>
          simp only [List.nil_append] at hRest
          rw [← hRest]
          simp
      | cons first mid =>
          rw [List.cons_append, List.cons.injEq] at hRest
          rcases hRest with ⟨rfl, hRest⟩
          rcases hCovered m (by simp [hEarly]) with
            ⟨m', hm', hKey⟩
          exact absurd hKey
            (hAfter m' (by rw [hRest]; simp [hm']))
  · intro hMem
    rcases hAsc.exists_split hMem with
      ⟨below, above, hSplit, hAbove⟩
    refine ⟨early ++ below, above, ?_, ?_⟩
    · rw [hSplit, List.append_assoc]
    · intro m' hm' hKey
      have hLess := hAbove m' hm'
      rw [hKey] at hLess
      exact lt_irrefl _ hLess

theorem canonical_eq_self
    (hRank : Function.Injective rank)
    (hAsc : Ascending rank l) :
    canonical rank l = l := by
  have hNone :
      ∀ m ∈ ([] : List (K × V)),
        ∃ m' ∈ l, m'.1 = m.1 := by
    simp
  exact canonical_eq_suffix hRank hAsc hNone

/- Values are carried along. -/
theorem put_map
    {W : Type}
    (f : V → W)
    (m : K × V)
    (l : List (K × V)) :
    put rank (m.1, f m.2) (l.map (fun m => (m.1, f m.2))) =
      (put rank m l).map (fun m => (m.1, f m.2)) := by
  induction l with
  | nil => rfl
  | cons head tail ih =>
      simp only [put, List.map_cons]
      split
      · rfl
      · split
        · rfl
        · rw [ih]
          rfl

theorem canonical_map
    {W : Type}
    (f : V → W)
    (ms : List (K × V)) :
    canonical rank (ms.map (fun m => (m.1, f m.2))) =
      (canonical rank ms).map (fun m => (m.1, f m.2)) := by
  induction ms using List.reverseRecOn with
  | nil => rfl
  | append_singleton ms m ih =>
      rw [List.map_append, List.map_singleton,
        canonical_concat, canonical_concat, ih, put_map]

end

variable {K V R A E : Type}
variable {read : R → K × V → Except E R}
variable {ms : List (K × V)}
variable {r r' : R}

/-
  A part of the record that a member either overwrites or
  keeps has, at the end, the value of the last member that
  overwrites it.
-/
theorem foldlM_get
    {get : R → A}
    {select : K × V → Option A}
    (hRead :
      ∀ r m r', read r m = .ok r' →
        get r' = (select m).getD (get r))
    (hFold : ms.foldlM read r = .ok r') :
    get r' =
      ((ms.filterMap select).getLast?).getD (get r) := by
  induction ms generalizing r with
  | nil =>
      cases hFold
      rfl
  | cons m ms ih =>
      rw [List.foldlM_cons] at hFold
      cases hFirst : read r m with
      | error e =>
          rw [hFirst] at hFold
          cases hFold
      | ok mid =>
          rw [hFirst] at hFold
          rw [ih hFold, hRead r m mid hFirst]
          cases hSelect : select m with
          | none =>
              rw [List.filterMap_cons_none hSelect]
              rfl
          | some a =>
              rw [List.filterMap_cons_some hSelect,
                List.getLast?_cons]
              rfl

/-
  When it does not depend on the record whether a member can
  be read, the list can be read if every member can.
-/
theorem foldlM_isOk_iff
    {readable : K × V → Prop}
    (hRead :
      ∀ r m, (∃ r', read r m = .ok r') ↔ readable m) :
    (∃ r', ms.foldlM read r = .ok r') ↔
      ∀ m ∈ ms, readable m := by
  induction ms generalizing r with
  | nil => simp [pure, Except.pure]
  | cons m ms ih =>
      rw [List.forall_mem_cons, ← hRead r m,
        List.foldlM_cons]
      cases hFirst : read r m with
      | error e => simp [bind, Except.bind]
      | ok mid => simp [bind, Except.bind, ih]

end Members

end Foundations
