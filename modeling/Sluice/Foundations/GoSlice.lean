import Mathlib.Data.List.Basic

/-
  Slices over shared arrays.

  A slice is a window into an array that other slices may
  look into as well. Writing through one of them is seen by
  all, and `append` writes into the array as long as there
  is room behind the window.

  Key definitions include:
    * `Memory` and `Slice`
    * `Memory.elems`
    * `Memory.make`, `Memory.copy` and `Memory.append`

  Key theorems include:
    * `Memory.elems_clone`
    * `Memory.elems_cut`
    * `Memory.array_cut_of_ne`
-/

------------------------------------------------------------
-- Memory
------------------------------------------------------------

namespace Foundations

namespace GoSlice

/- The arrays, numbered in the order of their allocation. -/
structure Memory (α : Type) where
  arrays : List (List α)
deriving Repr

/- A window of `len` elements from `start` on. -/
structure Slice where
  array : Nat
  start : Nat
  len : Nat
deriving DecidableEq, Repr

namespace Slice

/- `s[:i]`, which keeps the room behind it. -/
def upTo (i : Nat) (s : Slice) : Slice :=
  { s with len := i }

/- `s[i:]`. -/
def startingAt (i : Nat) (s : Slice) : Slice :=
  { s with start := s.start + i, len := s.len - i }

end Slice

namespace Memory

variable {α : Type}

def array (a : Nat) (m : Memory α) : List α :=
  (m.arrays[a]?).getD []

def elems (s : Slice) (m : Memory α) : List α :=
  ((m.array s.array).drop s.start).take s.len

/- The window lies inside an array that is there. -/
structure Within (s : Slice) (m : Memory α) : Prop where
  allocated : s.array < m.arrays.length
  inside : s.start + s.len ≤ (m.array s.array).length

def alloc (xs : List α) (m : Memory α) : Memory α :=
  ⟨m.arrays ++ [xs]⟩

/- Overwrites the elements from `start` on. -/
def write
    (a start : Nat)
    (xs : List α)
    (m : Memory α) :
    Memory α :=
  ⟨m.arrays.modify a
    (fun old =>
      old.take start ++ (xs ++ old.drop (start + xs.length)))⟩

/- `make([]T, n)`. -/
def make
    (n : Nat)
    (zero : α)
    (m : Memory α) :
    Slice × Memory α :=
  (⟨m.arrays.length, 0, n⟩, m.alloc (List.replicate n zero))

/- `copy(dst, src)`. -/
def copy (dst src : Slice) (m : Memory α) : Memory α :=
  m.write dst.array dst.start ((m.elems src).take dst.len)

/-
  `append(s, xs...)`, whose elements are read before any is
  written. A new array is no longer than it has to be.
-/
def append
    (s : Slice)
    (xs : List α)
    (m : Memory α) :
    Slice × Memory α :=
  if s.start + s.len + xs.length ≤
      (m.array s.array).length then
    (⟨s.array, s.start, s.len + xs.length⟩,
      m.write s.array (s.start + s.len) xs)
  else
    (⟨m.arrays.length, 0, s.len + xs.length⟩,
      m.alloc (m.elems s ++ xs))

------------------------------------------------------------
-- Arrays
------------------------------------------------------------

theorem array_alloc_of_lt
    {a : Nat}
    {m : Memory α}
    (xs : List α)
    (ha : a < m.arrays.length) :
    (m.alloc xs).array a = m.array a := by
  unfold array alloc
  rw [List.getElem?_append_left ha]

theorem array_alloc_new
    (xs : List α)
    (m : Memory α) :
    (m.alloc xs).array m.arrays.length = xs := by
  unfold array alloc
  rw [List.getElem?_concat_length, Option.getD_some]

theorem array_write_self
    {a : Nat}
    {m : Memory α}
    (start : Nat)
    (xs : List α)
    (ha : a < m.arrays.length) :
    (m.write a start xs).array a =
      (m.array a).take start ++
        (xs ++ (m.array a).drop (start + xs.length)) := by
  unfold array write
  rw [List.getElem?_modify_eq, List.getElem?_eq_getElem ha]
  rfl

theorem array_write_of_ne
    {a b : Nat}
    (start : Nat)
    (xs : List α)
    (m : Memory α)
    (hNe : a ≠ b) :
    (m.write a start xs).array b = m.array b := by
  simp only [array, write, List.getElem?_modify_ne _ _ hNe]

theorem length_arrays_write
    (a start : Nat)
    (xs : List α)
    (m : Memory α) :
    (m.write a start xs).arrays.length = m.arrays.length :=
  List.length_modify _ _ _

theorem length_elems
    {s : Slice}
    {m : Memory α}
    (hWithin : m.Within s) :
    (m.elems s).length = s.len := by
  have hInside := hWithin.inside
  simp only [elems, List.length_take, List.length_drop]
  omega

theorem elems_of_array_eq
    {s : Slice}
    {m m' : Memory α}
    (hArray : m'.array s.array = m.array s.array) :
    m'.elems s = m.elems s := by
  unfold elems
  rw [hArray]

------------------------------------------------------------
-- A Copy Of A Slice
------------------------------------------------------------

/- `make([]T, len(s))` and `copy` into it. -/
def clone
    (zero : α)
    (s : Slice)
    (m : Memory α) :
    Slice × Memory α :=
  let (dst, m) := m.make s.len zero
  (dst, m.copy dst s)

section

variable {s : Slice}
variable {m : Memory α}
variable (zero : α)

theorem array_clone_of_lt
    {a : Nat}
    (ha : a < m.arrays.length) :
    (m.clone zero s).2.array a = m.array a := by
  have hNe : m.arrays.length ≠ a := by omega
  exact (array_write_of_ne _ _ _ hNe).trans
    (array_alloc_of_lt _ ha)

theorem array_clone_new
    (hWithin : m.Within s) :
    (m.clone zero s).2.array m.arrays.length =
      m.elems s := by
  have hNew :
      m.arrays.length <
        (m.alloc (List.replicate s.len zero)).arrays.length := by
    simp [alloc]
  have hElems :
      (m.alloc (List.replicate s.len zero)).elems s =
        m.elems s :=
    elems_of_array_eq
      (array_alloc_of_lt _ hWithin.allocated)
  have hLength := length_elems hWithin
  simp only [clone, make, copy]
  rw [array_write_self _ _ hNew, array_alloc_new, hElems,
    List.take_of_length_le (Nat.le_of_eq hLength)]
  simp [hLength]

/- The copy has the elements, in an array of its own. -/
theorem elems_clone
    (hWithin : m.Within s) :
    (m.clone zero s).2.elems (m.clone zero s).1 =
      m.elems s := by
  have hNew := array_clone_new zero hWithin
  have hLength := length_elems hWithin
  unfold elems
  change List.take s.len
    (List.drop 0 ((m.clone zero s).2.array m.arrays.length)) =
      _
  rw [hNew, List.drop_zero]
  exact List.take_of_length_le (Nat.le_of_eq hLength)

theorem within_clone
    (hWithin : m.Within s) :
    (m.clone zero s).2.Within (m.clone zero s).1 := by
  have hNew := array_clone_new zero hWithin
  have hLength := length_elems hWithin
  constructor
  · simp [clone, make, copy, length_arrays_write, alloc]
  · change 0 + s.len ≤
      ((m.clone zero s).2.array m.arrays.length).length
    apply Nat.le_of_eq
    rw [hNew, hLength, Nat.zero_add]

end

------------------------------------------------------------
-- Cutting An Element Out In Place
------------------------------------------------------------

/- `append(s[:i], s[i+1:]...)`. -/
def cut
    (i : Nat)
    (s : Slice)
    (m : Memory α) :
    Slice × Memory α :=
  m.append (s.upTo i) (m.elems (s.startingAt (i + 1)))

section

variable {i : Nat}
variable {s : Slice}
variable {m : Memory α}

theorem elems_startingAt
    (i : Nat)
    (s : Slice)
    (m : Memory α) :
    m.elems (s.startingAt i) = (m.elems s).drop i := by
  simp only [elems, Slice.startingAt, List.drop_take,
    List.drop_drop]

theorem elems_upTo
    (hi : i ≤ s.len) :
    m.elems (s.upTo i) = (m.elems s).take i := by
  simp only [elems, Slice.upTo, List.take_take,
    Nat.min_eq_left hi]

/- There is room: the elements move one place down. -/
theorem cut_eq
    (hWithin : m.Within s)
    (hi : i < s.len) :
    m.cut i s =
      (⟨s.array, s.start, s.len - 1⟩,
        m.write s.array (s.start + i)
          ((m.elems s).drop (i + 1))) := by
  have hInside := hWithin.inside
  have hTail :
      ((m.elems s).drop (i + 1)).length =
        s.len - (i + 1) := by
    rw [List.length_drop, length_elems hWithin]
  have hRoom :
      s.start + i + (s.len - (i + 1)) ≤
        (m.array s.array).length := by
    omega
  have hLen : i + (s.len - (i + 1)) = s.len - 1 := by
    omega
  unfold cut append
  rw [elems_startingAt, hTail]
  simp only [Slice.upTo, if_pos hRoom, hLen]

theorem array_cut_of_ne
    {a : Nat}
    (hWithin : m.Within s)
    (hi : i < s.len)
    (ha : a ≠ s.array) :
    (m.cut i s).2.array a = m.array a := by
  rw [cut_eq hWithin hi]
  exact array_write_of_ne _ _ _ ha.symm

theorem array_cut_self
    (hWithin : m.Within s)
    (hi : i < s.len) :
    (m.cut i s).2.array s.array =
      (m.array s.array).take (s.start + i) ++
        ((m.elems s).drop (i + 1) ++
          (m.array s.array).drop
            (s.start + i + (s.len - (i + 1)))) := by
  rw [cut_eq hWithin hi,
    array_write_self _ _ hWithin.allocated,
    List.length_drop, length_elems hWithin]

theorem elems_cut
    (hWithin : m.Within s)
    (hi : i < s.len) :
    (m.cut i s).2.elems (m.cut i s).1 =
      (m.elems s).eraseIdx i := by
  have hInside := hWithin.inside
  have hLength := length_elems hWithin
  have hFirst :
      ((m.array s.array).take (s.start + i)).drop s.start =
        (m.elems s).take i := by
    rw [← elems_upTo (Nat.le_of_lt hi), List.drop_take,
      Nat.add_sub_cancel_left]
    rfl
  have hStart :
      s.start ≤
        ((m.array s.array).take (s.start + i)).length := by
    rw [List.length_take]
    omega
  rw [List.eraseIdx_eq_take_drop_succ, elems,
    show (m.cut i s).1 =
      ⟨s.array, s.start, s.len - 1⟩ by
        rw [cut_eq hWithin hi]]
  simp only [array_cut_self hWithin hi]
  rw [List.drop_append_of_le_length hStart, hFirst,
    ← List.append_assoc]
  apply List.take_left'
  simp only [List.length_append, List.length_take,
    List.length_drop, hLength]
  omega

theorem within_cut
    (hWithin : m.Within s)
    (hi : i < s.len) :
    (m.cut i s).2.Within (m.cut i s).1 := by
  have hInside := hWithin.inside
  have hLength := length_elems hWithin
  rw [show (m.cut i s).1 =
      ⟨s.array, s.start, s.len - 1⟩ by
        rw [cut_eq hWithin hi]]
  constructor
  · rw [cut_eq hWithin hi, length_arrays_write]
    exact hWithin.allocated
  · rw [array_cut_self hWithin hi]
    simp only [List.length_append, List.length_take,
      List.length_drop, hLength]
    omega

end

end Memory

end GoSlice

end Foundations
