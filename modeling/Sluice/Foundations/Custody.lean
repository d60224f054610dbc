import Mathlib.Data.List.Basic
import Mathlib.Logic.Function.Basic

/-
  Entries with a number each, spread over places.

  Custody says that an entry is in one place only, and there
  once. It survives the loss of entries, the arrival of a
  new one, the move of one, and the handing over of all that
  one place has to another.

  Key definitions include:
    * `Tagged`
    * `Custody`

  Key theorems include:
    * `Custody.shrink`
    * `Custody.put`
    * `Custody.create`
    * `Custody.move`
    * `Custody.handOver`
-/

namespace Foundations

/- A text with the number it got when it first came in. -/
structure Tagged where
  serial : Nat
  text : String
deriving DecidableEq, Repr

structure Custody
    {P : Type}
    (contents : P → List Tagged)
    (next : Nat) :
    Prop where
  below : ∀ p, ∀ e ∈ contents p, e.serial < next
  nodup : ∀ p, ((contents p).map Tagged.serial).Nodup
  apart : ∀ p q, ∀ e ∈ contents p, ∀ e' ∈ contents q,
    e.serial = e'.serial → p = q

namespace Custody

variable {P : Type}
variable {contents contents' : P → List Tagged}
variable {next : Nat}
variable {p q : P}
variable {e e' entry : Tagged}

theorem empty (next : Nat) :
    Custody (fun _ : P => []) next := by
  refine ⟨?_, ?_, ?_⟩
  · intro p e he
    cases he
  · intro p
    exact List.nodup_nil
  · intro p q e he
    cases he

/- Entries may get lost. -/
theorem shrink
    (hCustody : Custody contents next)
    (hSub : ∀ p, (contents' p).Sublist (contents p)) :
    Custody contents' next := by
  refine ⟨?_, ?_, ?_⟩
  · intro p e he
    exact hCustody.below p e ((hSub p).subset he)
  · intro p
    exact (hCustody.nodup p).sublist ((hSub p).map _)
  · intro p q e he e' he' hSame
    exact hCustody.apart p q e ((hSub p).subset he) e'
      ((hSub q).subset he') hSame

/- An entry that is nowhere may go anywhere. -/
theorem put
    (hCustody : Custody contents next)
    (hNew : ∀ q, ∀ e ∈ contents q, e.serial ≠ entry.serial)
    (hBelow : entry.serial < next)
    (hHere : contents' p = entry :: contents p)
    (hElse : ∀ q, q ≠ p → contents' q = contents q) :
    Custody contents' next := by
  have hCases : ∀ q, ∀ e ∈ contents' q,
      e ∈ contents q ∨ (e = entry ∧ q = p) := by
    intro q e he
    by_cases hPlace : q = p
    · subst hPlace
      rw [hHere] at he
      rcases List.mem_cons.mp he with hEntry | hOld
      · exact .inr ⟨hEntry, rfl⟩
      · exact .inl hOld
    · rw [hElse q hPlace] at he
      exact .inl he
  refine ⟨?_, ?_, ?_⟩
  · intro q e he
    rcases hCases q e he with hOld | ⟨rfl, _⟩
    · exact hCustody.below q e hOld
    · exact hBelow
  · intro q
    by_cases hPlace : q = p
    · subst hPlace
      rw [hHere, List.map_cons, List.nodup_cons]
      refine ⟨?_, hCustody.nodup q⟩
      intro hMem
      rcases List.mem_map.mp hMem with ⟨e, he, hSame⟩
      exact hNew q e he hSame
    · rw [hElse q hPlace]
      exact hCustody.nodup q
  · intro q₁ q₂ e he e' he' hSame
    rcases hCases q₁ e he with hOld | ⟨rfl, rfl⟩
    · rcases hCases q₂ e' he' with hOld' | ⟨rfl, rfl⟩
      · exact hCustody.apart q₁ q₂ e hOld e' hOld' hSame
      · exact absurd hSame (hNew q₁ e hOld)
    · rcases hCases q₂ e' he' with hOld' | ⟨rfl, rfl⟩
      · exact absurd hSame.symm (hNew q₂ e' hOld')
      · rfl

theorem mono
    {next' : Nat}
    (hCustody : Custody contents next)
    (hLe : next ≤ next') :
    Custody contents next' :=
  { hCustody with
    below := fun p e he =>
      Nat.lt_of_lt_of_le (hCustody.below p e he) hLe }

/- A new entry gets the next number. -/
theorem create
    (hCustody : Custody contents next)
    (hSerial : entry.serial = next)
    (hHere : contents' p = entry :: contents p)
    (hElse : ∀ q, q ≠ p → contents' q = contents q) :
    Custody contents' (next + 1) := by
  apply (hCustody.mono (Nat.le_succ next)).put _ _ hHere hElse
  · intro q e he hSame
    have hBelow := hCustody.below q e he
    omega
  · omega

/- An entry may go from one place to another. -/
theorem move
    {init : List Tagged}
    (hCustody : Custody contents next)
    (hPlaces : p ≠ q)
    (hOld : contents p = init ++ [entry])
    (hFrom : contents' p = init)
    (hTo : contents' q = entry :: contents q)
    (hElse :
      ∀ r, r ≠ p → r ≠ q → contents' r = contents r) :
    Custody contents' next := by
  classical
  have hMem : entry ∈ contents p := by
    rw [hOld]
    simp
  -- First the entry is lost, and then it comes back.
  have hLost :
      Custody (Function.update contents p init) next := by
    apply hCustody.shrink
    intro r
    by_cases hPlace : r = p
    · subst hPlace
      rw [Function.update_self, hOld]
      exact List.sublist_append_left _ _
    · rw [Function.update_of_ne hPlace]
  apply hLost.put _ (hCustody.below p entry hMem)
  · rw [hTo, Function.update_of_ne hPlaces.symm]
  · intro r hTarget
    by_cases hSource : r = p
    · subst hSource
      rw [hFrom, Function.update_self]
    · rw [hElse r hSource hTarget,
        Function.update_of_ne hSource]
  · intro r e he hSame
    by_cases hPlace : r = p
    · subst hPlace
      rw [Function.update_self] at he
      have hNodup := hCustody.nodup r
      rw [hOld, List.map_append, List.nodup_append]
        at hNodup
      exact hNodup.2.2 e.serial
        (List.mem_map_of_mem he) entry.serial (by simp) hSame
    · rw [Function.update_of_ne hPlace] at he
      exact hPlace
        (hCustody.apart r p e he entry hMem hSame)

/- One place may take over all that another one has. -/
theorem handOver
    (hCustody : Custody contents next)
    (hFrom : contents' p = [])
    (hTo : contents' q = contents q ++ contents p)
    (hElse :
      ∀ r, r ≠ p → r ≠ q → contents' r = contents r) :
    Custody contents' next := by
  have hCases : ∀ r, ∀ e ∈ contents' r,
      (r ≠ p ∧ e ∈ contents r) ∨
        (r = q ∧ e ∈ contents p) := by
    intro r e he
    by_cases hTarget : r = q
    · subst hTarget
      by_cases hSame : r = p
      · subst hSame
        rw [hFrom] at he
        cases he
      · rw [hTo] at he
        rcases List.mem_append.mp he with hOwn | hTaken
        · exact .inl ⟨hSame, hOwn⟩
        · exact .inr ⟨rfl, hTaken⟩
    · by_cases hSource : r = p
      · subst hSource
        rw [hFrom] at he
        cases he
      · rw [hElse r hSource hTarget] at he
        exact .inl ⟨hSource, he⟩
  refine ⟨?_, ?_, ?_⟩
  · intro r e he
    rcases hCases r e he with ⟨_, hOwn⟩ | ⟨_, hTaken⟩
    · exact hCustody.below r e hOwn
    · exact hCustody.below p e hTaken
  · intro r
    by_cases hSource : r = p
    · subst hSource
      rw [hFrom]
      exact List.nodup_nil
    · by_cases hTarget : r = q
      · subst hTarget
        rw [hTo, List.map_append]
        refine List.nodup_append.mpr
          ⟨hCustody.nodup r, hCustody.nodup p, ?_⟩
        intro n hOwn n' hTaken hSame
        rcases List.mem_map.mp hOwn with ⟨e, he, rfl⟩
        rcases List.mem_map.mp hTaken with ⟨e', he', rfl⟩
        exact hSource
          (hCustody.apart r p e he e' he' hSame)
      · rw [hElse r hSource hTarget]
        exact hCustody.nodup r
  · intro r₁ r₂ e he e' he' hSame
    rcases hCases r₁ e he with ⟨hNot, hOwn⟩ | ⟨hTo₁, hTaken⟩
    · rcases hCases r₂ e' he' with
        ⟨_, hOwn'⟩ | ⟨_, hTaken'⟩
      · exact hCustody.apart r₁ r₂ e hOwn e' hOwn' hSame
      · exact absurd
          (hCustody.apart r₁ p e hOwn e' hTaken' hSame) hNot
    · rcases hCases r₂ e' he' with
        ⟨hNot, hOwn'⟩ | ⟨hTo₂, _⟩
      · exact absurd
          (hCustody.apart p r₂ e hTaken e' hOwn' hSame).symm
          hNot
      · exact hTo₁.trans hTo₂.symm

end Custody

end Foundations
