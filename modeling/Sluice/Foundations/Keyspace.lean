import Mathlib.Data.List.Basic
import Mathlib.Logic.Function.Basic

/-
  A store of lists and of plain keys, with the commands of
  Redis on them.

  A list grows at its head and is popped at its end. An
  empty list and a missing key are the same. `Passed` tells
  how a list that is only used so hands its entries on.

  Key definitions include:
    * `Keyspace`
    * `lpush`, `rpop`, `ltrim`, `lrem` and `del`
    * `Passed`

  Key theorems include:
    * `rpop_eq_some_iff`
    * `Passed.lpush` and `Passed.rpop`
    * `Passed.trans`
-/

------------------------------------------------------------
-- Commands
------------------------------------------------------------

namespace Foundations

/- `present` tells which plain keys exist. -/
structure Keyspace (K V : Type) where
  lists : K → List V
  present : K → Bool

namespace Keyspace

variable {K V : Type}
variable [DecidableEq K]

def empty : Keyspace K V where
  lists := fun _ => []
  present := fun _ => false

def setList
    (s : Keyspace K V)
    (key : K)
    (entries : List V) :
    Keyspace K V :=
  { s with lists := Function.update s.lists key entries }

/- `SET key value` and `DEL key` of a plain key. -/
def setPresent
    (s : Keyspace K V)
    (key : K)
    (b : Bool) :
    Keyspace K V :=
  { s with present := Function.update s.present key b }

def lpush
    (s : Keyspace K V)
    (key : K)
    (entry : V) :
    Keyspace K V :=
  s.setList key (entry :: s.lists key)

def rpop
    (s : Keyspace K V)
    (key : K) :
    Option (V × Keyspace K V) :=
  (s.lists key).getLast?.map
    (fun entry =>
      (entry, s.setList key (s.lists key).dropLast))

/- `LPOP`, for its effect alone. -/
def lpop (s : Keyspace K V) (key : K) : Keyspace K V :=
  s.setList key (s.lists key).tail

/- `LTRIM key 0 (n - 1)`. -/
def ltrim
    (s : Keyspace K V)
    (key : K)
    (n : Nat) :
    Keyspace K V :=
  s.setList key ((s.lists key).take n)

/- `LREM key 0`: every entry that matches goes. -/
def lrem
    (s : Keyspace K V)
    (key : K)
    (p : V → Bool) :
    Keyspace K V :=
  s.setList key ((s.lists key).filter (fun v => !p v))

/- `DEL key` of a list. -/
def del (s : Keyspace K V) (key : K) : Keyspace K V :=
  s.setList key []

variable {s s' : Keyspace K V}
variable {key key' : K}
variable {entry : V}

@[simp] theorem lists_setList_self
    (s : Keyspace K V)
    (key : K)
    (entries : List V) :
    (s.setList key entries).lists key = entries :=
  Function.update_self _ _ _

theorem lists_setList_of_ne
    {entries : List V}
    (hKey : key' ≠ key) :
    (s.setList key entries).lists key' = s.lists key' :=
  Function.update_of_ne hKey _ _

@[simp] theorem present_setList
    (s : Keyspace K V)
    (key : K)
    (entries : List V) :
    (s.setList key entries).present = s.present :=
  rfl

@[simp] theorem lists_setPresent
    (s : Keyspace K V)
    (key : K)
    (b : Bool) :
    (s.setPresent key b).lists = s.lists :=
  rfl

theorem present_setPresent
    (s : Keyspace K V)
    (key key' : K)
    (b : Bool) :
    (s.setPresent key b).present key' =
      if key' = key then b else s.present key' := by
  by_cases hKey : key' = key
  · subst hKey
    simp [setPresent]
  · simp [setPresent, hKey]

/- A pop takes the last entry of the list. -/
theorem rpop_eq_some_iff :
    s.rpop key = some (entry, s') ↔
      ∃ init, s.lists key = init ++ [entry] ∧
        s' = s.setList key init := by
  unfold rpop
  constructor
  · intro hPop
    rcases Option.map_eq_some_iff.mp hPop with
      ⟨last, hLast, hPair⟩
    cases hPair
    exact ⟨(s.lists key).dropLast,
      (List.dropLast_append_getLast? _ hLast).symm, rfl⟩
  · rintro ⟨init, hInit, rfl⟩
    simp [hInit]

theorem rpop_eq_none_iff :
    s.rpop key = none ↔ s.lists key = [] := by
  simp [rpop]

end Keyspace

------------------------------------------------------------
-- What Passes Through A List
------------------------------------------------------------

/-
  A list held `before` and holds `after`; in between `put`
  went in and `got` came out. Oldest entries first, what was
  there and what went in is what came out and what is left.
-/
def Passed
    {V : Type}
    (before put got after : List V) :
    Prop :=
  before.reverse ++ put = got ++ after.reverse

namespace Passed

variable {V : Type}
variable {before put got mid put' got' after : List V}
variable {entry : V}

theorem refl (entries : List V) :
    Passed entries [] [] entries := by
  simp [Passed]

theorem lpush
    (entries : List V)
    (entry : V) :
    Passed entries [entry] [] (entry :: entries) := by
  simp [Passed]

theorem rpop
    (init : List V)
    (entry : V) :
    Passed (init ++ [entry]) [] [entry] init := by
  simp [Passed]

theorem trans
    (hFirst : Passed before put got mid)
    (hThen : Passed mid put' got' after) :
    Passed before (put ++ put') (got ++ got') after := by
  unfold Passed at hFirst hThen ⊢
  rw [← List.append_assoc, hFirst, List.append_assoc,
    hThen, List.append_assoc]

end Passed

end Foundations
