import Mathlib.Data.List.Basic

/-
  Lists of processes addressed by their position. A process
  that moves is singled out by a splitting of the list.

  Key theorems include:
    * `exists_split_of_getElem?`
    * `getElem?_of_split`
    * `mem_split_iff`
    * `mem_replaced_iff`
-/

------------------------------------------------------------
-- Splittings
------------------------------------------------------------

namespace Foundations

/- An element found at a position splits the list there. -/
theorem exists_split_of_getElem?
    {α : Type}
    {l : List α}
    {i : Nat}
    {a : α}
    (hGet : l[i]? = some a) :
    ∃ l₁ l₂,
      l = l₁ ++ a :: l₂ ∧ l₁.length = i ∧
        l.eraseIdx i = l₁ ++ l₂ ∧
          ∀ b, l.set i b = l₁ ++ b :: l₂ := by
  induction l generalizing i with
  | nil => simp at hGet
  | cons head tail ih =>
      cases i with
      | zero =>
          simp only [List.getElem?_cons_zero,
            Option.some.injEq] at hGet
          subst hGet
          exact ⟨[], tail, rfl, rfl, rfl, fun _ => rfl⟩
      | succ i =>
          rw [List.getElem?_cons_succ] at hGet
          rcases ih hGet with
            ⟨l₁, l₂, hSplit, hLength, hErase, hSet⟩
          refine ⟨head :: l₁, l₂, ?_, ?_, ?_, ?_⟩
          · rw [hSplit, List.cons_append]
          · rw [List.length_cons, hLength]
          · rw [List.eraseIdx_cons_succ, hErase,
              List.cons_append]
          · intro b
            rw [List.set_cons_succ, hSet, List.cons_append]

variable {α : Type}
variable {l l₁ l₂ : List α}
variable {a b : α}

theorem getElem?_of_split
    (hSplit : l = l₁ ++ a :: l₂) :
    l[l₁.length]? = some a := by
  rw [hSplit]
  simp

theorem self_mem_of_split
    (hSplit : l = l₁ ++ a :: l₂) :
    a ∈ l := by
  rw [hSplit]
  simp

/- The other members are members of the whole list. -/
theorem mem_of_split
    (hSplit : l = l₁ ++ a :: l₂)
    (hMem : b ∈ l₁ ++ l₂) :
    b ∈ l := by
  rw [hSplit]
  rcases List.mem_append.mp hMem with hLeft | hRight
  · exact List.mem_append_left _ hLeft
  · exact List.mem_append_right _
      (List.mem_cons_of_mem _ hRight)

theorem mem_split_iff :
    b ∈ l₁ ++ a :: l₂ ↔ b = a ∨ b ∈ l₁ ++ l₂ := by
  simp only [List.mem_append, List.mem_cons]
  tauto

/- A process may be gone after its move. -/
theorem mem_replaced_iff
    {o : Option α} :
    b ∈ l₁ ++ (o.toList ++ l₂) ↔
      o = some b ∨ b ∈ l₁ ++ l₂ := by
  simp only [List.mem_append, Option.mem_toList]
  tauto

end Foundations
