import Mathlib.Order.Interval.Finset.Nat
import Sluice.Foundations.GoSlice
import Sluice.Worker.Fleet

/-
  The order in which a worker asks its tenants for a job:
  `weightedShuffle`.

  A round draws a number below the total weight that is left
  and cuts the tenant out whose stretch of the numbers the
  draw falls into. The tenants are cut out of a copy, in
  place. The draw is `rand.Intn`, of which any result in its
  range is possible.

  Key definitions include:
    * `intn`
    * `pick`
    * `shuffleRound`
    * `weightedShuffle`

  Key theorems include:
    * `Picks.exists_of_lt`
    * `shuffleRound_of_picks`
    * `card_draws`
    * `weightedShuffle_fair`
-/

------------------------------------------------------------
-- The Shuffle
------------------------------------------------------------

namespace Sluice

namespace Worker

open Foundations GoSlice

/-
  `rand.Intn`, with the state of the generator as `draw`. It
  panics if there is no number below `n`.
-/
def intn (n : Int) (draw : Nat) : Option Int :=
  if n ≤ 0 then none else some ((draw : Int) % n)

def totalWeight (tenants : List TenantWeight) : Int :=
  tenants.foldl (fun total t => total + t.weight) 0

/-
  The range over the tenants that are left, from index `i`
  on: the first one at which the weights go beyond `r`.
-/
def pick (r : Int) :
    Int → Nat → List TenantWeight → Option (Nat × Uuid)
| _, _, [] => none
| cum, i, t :: tenants =>
    if r < cum + t.weight then some (i, t.id)
    else pick r (cum + t.weight) (i + 1) tenants

/- The local variables of the loop. -/
structure Shuffling where
  memory : Memory TenantWeight
  remaining : Slice
  out : List Uuid

namespace Shuffling

/- The tenants that are left. -/
def left (s : Shuffling) : List TenantWeight :=
  s.memory.elems s.remaining

end Shuffling

/-
  A round, or `none` if it panics. A round in which no
  tenant is picked changes nothing.
-/
def shuffleRound
    (draw : Nat)
    (s : Shuffling) :
    Option Shuffling := do
  let r ← intn (totalWeight s.left) draw
  match pick r 0 0 s.left with
  | none => some s
  | some (i, id) =>
      let (remaining, memory) := s.memory.cut i s.remaining
      some ⟨memory, remaining, s.out ++ [id]⟩

inductive ShuffleOutcome
| panicked
| unfinished
| returned (out : List Uuid) (memory : Memory TenantWeight)

/- The rounds from number `k` on, as many as `fuel`. -/
def shuffleLoop (draws : Nat → Nat) :
    Nat → Nat → Shuffling → ShuffleOutcome
| 0, _, s =>
    if s.remaining.len > 0 then .unfinished
    else .returned s.out s.memory
| fuel + 1, k, s =>
    if s.remaining.len > 0 then
      match shuffleRound (draws k) s with
      | none => .panicked
      | some s => shuffleLoop draws fuel (k + 1) s
    else .returned s.out s.memory

/- The copy that the loop cuts tenants out of. -/
def shuffleStart
    (tenants : Slice)
    (memory : Memory TenantWeight) :
    Shuffling :=
  let (remaining, memory) := memory.clone ⟨0, 0⟩ tenants
  ⟨memory, remaining, []⟩

def weightedShuffle
    (draws : Nat → Nat)
    (fuel : Nat)
    (tenants : Slice)
    (memory : Memory TenantWeight) :
    ShuffleOutcome :=
  shuffleLoop draws fuel 0 (shuffleStart tenants memory)

/- The state after a number of rounds. -/
def shuffleAfter
    (draws : Nat → Nat)
    (s : Shuffling) :
    Nat → Option Shuffling
| 0 => some s
| k + 1 =>
    (shuffleAfter draws s k).bind (shuffleRound (draws k))

------------------------------------------------------------
-- Weights
------------------------------------------------------------

theorem foldl_add_weight
    (start : Int)
    (tenants : List TenantWeight) :
    tenants.foldl (fun total t => total + t.weight) start =
      start + totalWeight tenants := by
  induction tenants generalizing start with
  | nil => exact (Int.add_zero start).symm
  | cons t tenants ih =>
      unfold totalWeight
      rw [List.foldl_cons, List.foldl_cons, ih, ih]
      omega

@[simp] theorem totalWeight_nil : totalWeight [] = 0 := rfl

@[simp] theorem totalWeight_cons
    (t : TenantWeight)
    (tenants : List TenantWeight) :
    totalWeight (t :: tenants) =
      t.weight + totalWeight tenants := by
  rw [totalWeight, List.foldl_cons, foldl_add_weight]
  omega

theorem totalWeight_append
    (before after : List TenantWeight) :
    totalWeight (before ++ after) =
      totalWeight before + totalWeight after := by
  rw [totalWeight, List.foldl_append, foldl_add_weight]
  rfl

/- Every tenant has at least one number to itself. -/
def Weighty (tenants : List TenantWeight) : Prop :=
  ∀ t ∈ tenants, 1 ≤ t.weight

variable {tenants : List TenantWeight}
variable {r : Int}

theorem Weighty.totalWeight_nonneg
    (hWeighty : Weighty tenants) :
    0 ≤ totalWeight tenants := by
  induction tenants with
  | nil => exact Int.le_refl 0
  | cons t tenants ih =>
      have hHead := hWeighty t List.mem_cons_self
      have hTail :=
        ih (fun u hu =>
          hWeighty u (List.mem_cons_of_mem t hu))
      rw [totalWeight_cons]
      omega

theorem Weighty.totalWeight_pos
    (hWeighty : Weighty tenants)
    (hSome : tenants ≠ []) :
    0 < totalWeight tenants := by
  cases tenants with
  | nil => exact absurd rfl hSome
  | cons t tenants =>
      have hHead := hWeighty t List.mem_cons_self
      have hTail : 0 ≤ totalWeight tenants :=
        Weighty.totalWeight_nonneg
          (fun u hu =>
            hWeighty u (List.mem_cons_of_mem t hu))
      rw [totalWeight_cons]
      omega

theorem Weighty.sublist
    {tenants tenants' : List TenantWeight}
    (hWeighty : Weighty tenants)
    (hSub : tenants'.Sublist tenants) :
    Weighty tenants' :=
  fun t ht => hWeighty t (hSub.subset ht)

/- A weight that is not positive is loaded as 100. -/
theorem weighty_loadTenants
    (rows : List Storage.Tenant)
    (c : Cache) :
    Weighty (c.loadTenants rows).tenants := by
  intro t ht
  rcases List.mem_map.mp ht with ⟨row, _, rfl⟩
  unfold Cache.weightOf
  dsimp only
  split
  · decide
  · omega

------------------------------------------------------------
-- Stretches Of The Draws
------------------------------------------------------------

/- The number `r` lies in the stretch of tenant `t`. -/
structure Picks
    (tenants : List TenantWeight)
    (r : Int)
    (before : List TenantWeight)
    (t : TenantWeight)
    (after : List TenantWeight) :
    Prop where
  split : tenants = before ++ t :: after
  least : totalWeight before ≤ r
  below : r < totalWeight before + t.weight

/- The stretches leave no gap. -/
theorem Picks.exists_of_lt
    (hLeast : 0 ≤ r)
    (hBelow : r < totalWeight tenants) :
    ∃ before t after, Picks tenants r before t after := by
  induction tenants generalizing r with
  | nil =>
      rw [totalWeight_nil] at hBelow
      omega
  | cons t tenants ih =>
      rw [totalWeight_cons] at hBelow
      by_cases hHere : r < t.weight
      · refine ⟨[], t, tenants, rfl, hLeast, ?_⟩
        rw [totalWeight_nil]
        omega
      · have hRest : 0 ≤ r - t.weight := by omega
        have hRest' : r - t.weight < totalWeight tenants := by
          omega
        rcases ih hRest hRest' with
          ⟨before, u, after, hSplit, hLow, hHigh⟩
        refine ⟨t :: before, u, after, ?_, ?_, ?_⟩
        · rw [hSplit, List.cons_append]
        · rw [totalWeight_cons]
          omega
        · rw [totalWeight_cons]
          omega

/-
  The range stops at the tenant whose stretch it is: up to
  there the weights have not gone beyond the number.
-/
theorem pick_append
    {before after : List TenantWeight}
    {t : TenantWeight}
    (cum : Int)
    (i : Nat)
    (hWeighty : Weighty before)
    (hLeast : cum + totalWeight before ≤ r)
    (hBelow : r < cum + totalWeight before + t.weight) :
    pick r cum i (before ++ t :: after) =
      some (i + before.length, t.id) := by
  induction before generalizing cum i with
  | nil =>
      rw [totalWeight_nil, Int.add_zero] at hBelow
      rw [List.nil_append, pick, if_pos hBelow]
      rfl
  | cons u before ih =>
      have hTail : Weighty before :=
        hWeighty.sublist (List.sublist_cons_self u before)
      have hRest := hTail.totalWeight_nonneg
      rw [totalWeight_cons, ← Int.add_assoc]
        at hLeast hBelow
      have hNotYet : ¬r < cum + u.weight := by omega
      rw [List.cons_append, pick, if_neg hNotYet,
        ih (cum + u.weight) (i + 1) hTail hLeast hBelow,
        List.length_cons, Nat.add_assoc,
        Nat.add_comm 1 before.length]

theorem Picks.pick_eq
    {tenants before after : List TenantWeight}
    {t : TenantWeight}
    (hPicks : Picks tenants r before t after)
    (hWeighty : Weighty tenants) :
    pick r 0 0 tenants = some (before.length, t.id) := by
  have hBefore : Weighty before := by
    apply hWeighty.sublist
    rw [hPicks.split]
    exact List.sublist_append_left before _
  have hLeast := hPicks.least
  have hBelow := hPicks.below
  have hPick :
      pick r 0 0 (before ++ t :: after) =
        some (0 + before.length, t.id) :=
    pick_append 0 0 hBefore (by omega) (by omega)
  rw [hPicks.split, hPick, Nat.zero_add]

------------------------------------------------------------
-- Rounds
------------------------------------------------------------

section

variable {s s' : Shuffling}
variable {before after : List TenantWeight}
variable {t : TenantWeight}
variable {draw : Nat}

/- A round cuts out the tenant that its draw picks. -/
theorem shuffleRound_of_picks
    (hWeighty : Weighty s.left)
    (hTotal : 0 < totalWeight s.left)
    (hPicks :
      Picks s.left ((draw : Int) % totalWeight s.left)
        before t after) :
    shuffleRound draw s =
      some
        ⟨(s.memory.cut before.length s.remaining).2,
          (s.memory.cut before.length s.remaining).1,
          s.out ++ [t.id]⟩ := by
  have hIntn :
      intn (totalWeight s.left) draw =
        some ((draw : Int) % totalWeight s.left) :=
    if_neg (Int.not_le.mpr hTotal)
  unfold shuffleRound
  rw [hIntn, Option.bind_eq_bind, Option.bind_some,
    hPicks.pick_eq hWeighty]

/- The tenant goes to the output and no other one is lost. -/
theorem left_of_cut
    (hWithin : s.memory.Within s.remaining)
    (hSplit : s.left = before ++ t :: after) :
    before.length < s.remaining.len ∧
      (s.memory.cut before.length s.remaining).2.elems
          (s.memory.cut before.length s.remaining).1 =
        before ++ after := by
  have hLength := Memory.length_elems hWithin
  have hSplit' :
      s.memory.elems s.remaining = before ++ t :: after :=
    hSplit
  have hIndex : before.length < s.remaining.len := by
    rw [← hLength, hSplit', List.length_append,
      List.length_cons]
    omega
  refine ⟨hIndex, ?_⟩
  rw [Memory.elems_cut hWithin hIndex, hSplit',
    List.eraseIdx_append_of_length_le (Nat.le_refl _),
    Nat.sub_self]
  rfl

/- With distinct IDs a tenant stands in one place only. -/
theorem split_unique
    {tenants before' after' : List TenantWeight}
    {t' : TenantWeight}
    (hDistinct : (tenants.map TenantWeight.id).Nodup)
    (hSplit : tenants = before ++ t :: after)
    (hSplit' : tenants = before' ++ t' :: after')
    (hId : t'.id = t.id) :
    before' = before ∧ t' = t := by
  have hIds :
      before'.map TenantWeight.id ++
          t.id :: after'.map TenantWeight.id =
        before.map TenantWeight.id ++
          t.id :: after.map TenantWeight.id := by
    have hMap := congrArg (List.map TenantWeight.id)
      (hSplit'.symm.trans hSplit)
    simpa only [List.map_append, List.map_cons, hId]
      using hMap
  rw [hSplit', List.map_append, List.map_cons, hId]
    at hDistinct
  have hParts := List.nodup_append.mp hDistinct
  have hNotBefore :
      t.id ∉ before'.map TenantWeight.id :=
    fun hMem =>
      hParts.2.2 _ hMem _ List.mem_cons_self rfl
  have hNotAfter :
      t.id ∉ after'.map TenantWeight.id :=
    (List.nodup_cons.mp hParts.2.1).1
  have hFirst :=
    ((List.append_cons_inj_of_notMem hNotBefore
      hNotAfter).mp hIds).1
  have hLength : before'.length = before.length := by
    have hMapped := congrArg List.length hFirst
    simpa only [List.length_map] using hMapped
  rcases List.append_inj (hSplit'.symm.trans hSplit) hLength
    with ⟨hBefore, hRest⟩
  exact ⟨hBefore, (List.cons.inj hRest).1⟩

/-
  A draw puts tenant `t` out exactly if it is in the stretch
  behind the tenants before it.
-/
theorem shuffleRound_out_iff
    (hWeighty : Weighty s.left)
    (hDistinct : (s.left.map TenantWeight.id).Nodup)
    (hSplit : s.left = before ++ t :: after)
    (hDraw : (draw : Int) < totalWeight s.left) :
    (shuffleRound draw s).map Shuffling.out =
        some (s.out ++ [t.id]) ↔
      totalWeight before ≤ draw ∧
        draw < totalWeight before + t.weight := by
  have hTotal : 0 < totalWeight s.left := by omega
  have hMod :
      (draw : Int) % totalWeight s.left = draw :=
    Int.emod_eq_of_lt (Int.natCast_nonneg draw) hDraw
  constructor
  · intro hOut
    rcases Picks.exists_of_lt (Int.natCast_nonneg draw)
      hDraw with ⟨before', t', after', hPicks⟩
    rw [shuffleRound_of_picks hWeighty hTotal
      (hMod.symm ▸ hPicks)] at hOut
    have hId : t'.id = t.id := by
      simpa using hOut
    rcases split_unique hDistinct hSplit hPicks.split hId
      with ⟨rfl, rfl⟩
    exact ⟨hPicks.least, hPicks.below⟩
  · rintro ⟨hLeast, hBelow⟩
    have hPicks : Picks s.left draw before t after :=
      ⟨hSplit, hLeast, hBelow⟩
    rw [shuffleRound_of_picks hWeighty hTotal
      (hMod.symm ▸ hPicks)]
    rfl

/- Of all draws, as many put a tenant out as its weight. -/
theorem card_draws
    (hWeighty : Weighty s.left)
    (hDistinct : (s.left.map TenantWeight.id).Nodup)
    (ht : t ∈ s.left) :
    (((Finset.range (totalWeight s.left).toNat).filter
        (fun draw =>
          (shuffleRound draw s).map Shuffling.out =
            some (s.out ++ [t.id]))).card : Int) =
      t.weight := by
  rcases List.append_of_mem ht with ⟨before, after, hSplit⟩
  have hBefore : 0 ≤ totalWeight before := by
    apply Weighty.totalWeight_nonneg
    apply hWeighty.sublist
    rw [hSplit]
    exact List.sublist_append_left before _
  have hAfter : 0 ≤ totalWeight after := by
    apply Weighty.totalWeight_nonneg
    apply hWeighty.sublist
    rw [hSplit]
    exact (List.sublist_cons_self t after).trans
      (List.sublist_append_right before _)
  have hWeight := hWeighty t ht
  have hTotal :
      totalWeight s.left =
        totalWeight before +
          (t.weight + totalWeight after) := by
    rw [hSplit, totalWeight_append, totalWeight_cons]
  have hStretch :
      (Finset.range (totalWeight s.left).toNat).filter
          (fun draw =>
            (shuffleRound draw s).map Shuffling.out =
              some (s.out ++ [t.id])) =
        Finset.Ico (totalWeight before).toNat
          (totalWeight before + t.weight).toNat := by
    ext draw
    rw [Finset.mem_filter, Finset.mem_range,
      Finset.mem_Ico]
    constructor
    · rintro ⟨hDraw, hOut⟩
      have hBounds :=
        (shuffleRound_out_iff hWeighty hDistinct hSplit
          (by omega)).mp hOut
      omega
    · intro hBounds
      refine ⟨by omega, ?_⟩
      exact (shuffleRound_out_iff hWeighty hDistinct hSplit
        (by omega)).mpr (by omega)
  rw [hStretch, Nat.card_Ico]
  omega

end

------------------------------------------------------------
-- Whole Shuffles
------------------------------------------------------------

/-
  What holds after `k` rounds: the tenants that are left
  stand in an array that did not exist before, in the order
  of the input, and together with the output they are all.
-/
structure Shuffled
    (tenants : Slice)
    (memory : Memory TenantWeight)
    (k : Nat)
    (s : Shuffling) :
    Prop where
  within : s.memory.Within s.remaining
  fresh : memory.arrays.length ≤ s.remaining.array
  input : ∀ a < memory.arrays.length,
    s.memory.array a = memory.array a
  sublist : s.left.Sublist (memory.elems tenants)
  perm : (s.out ++ s.left.map TenantWeight.id).Perm
    ((memory.elems tenants).map TenantWeight.id)
  rounds : s.out.length = k

section

variable {tenants : Slice}
variable {memory : Memory TenantWeight}
variable {k : Nat}
variable {s : Shuffling}

theorem left_shuffleStart
    (hWithin : memory.Within tenants) :
    (shuffleStart tenants memory).left =
      memory.elems tenants :=
  Memory.elems_clone _ hWithin

theorem shuffled_start
    (hWithin : memory.Within tenants) :
    Shuffled tenants memory 0
      (shuffleStart tenants memory) where
  within := Memory.within_clone _ hWithin
  fresh := Nat.le_refl _
  input := fun _ ha => Memory.array_clone_of_lt _ ha
  sublist := by rw [left_shuffleStart hWithin]
  perm := by
    rw [left_shuffleStart hWithin]
    exact List.Perm.refl _
  rounds := rfl

theorem Shuffled.len_add
    (hShuffled : Shuffled tenants memory k s)
    (hWithin : memory.Within tenants) :
    k + s.remaining.len = tenants.len := by
  have hLength := hShuffled.perm.length_eq
  have hLeft : s.left.length = s.remaining.len :=
    Memory.length_elems hShuffled.within
  rw [List.length_append, List.length_map, List.length_map,
    Memory.length_elems hWithin, hShuffled.rounds, hLeft]
    at hLength
  exact hLength

theorem Shuffled.round
    (hShuffled : Shuffled tenants memory k s)
    (hWeighty : Weighty (memory.elems tenants))
    (hLeft : s.left ≠ [])
    (draw : Nat) :
    ∃ before t after s',
      s.left = before ++ t :: after ∧
        shuffleRound draw s = some s' ∧
          s'.out = s.out ++ [t.id] ∧
            s'.left = before ++ after ∧
              Shuffled tenants memory (k + 1) s' := by
  have hLeftWeighty := hWeighty.sublist hShuffled.sublist
  have hTotal := hLeftWeighty.totalWeight_pos hLeft
  rcases Picks.exists_of_lt
    (Int.emod_nonneg draw (Int.ne_of_gt hTotal))
    (Int.emod_lt_of_pos draw hTotal) with
    ⟨before, t, after, hPicks⟩
  have hRound :=
    shuffleRound_of_picks hLeftWeighty hTotal hPicks
  rcases left_of_cut hShuffled.within hPicks.split with
    ⟨hIndex, hCut⟩
  refine ⟨before, t, after, _, hPicks.split, hRound, rfl,
    hCut, ?_⟩
  constructor
  · exact Memory.within_cut hShuffled.within hIndex
  · rw [Memory.cut_eq hShuffled.within hIndex]
    exact hShuffled.fresh
  · intro a ha
    have hFresh := hShuffled.fresh
    have hNe : a ≠ s.remaining.array := by omega
    exact (Memory.array_cut_of_ne hShuffled.within hIndex
      hNe).trans (hShuffled.input a ha)
  · refine List.Sublist.trans ?_ hShuffled.sublist
    rw [hPicks.split]
    change ((s.memory.cut _ _).2.elems _).Sublist _
    rw [hCut]
    exact (List.sublist_cons_self t after).append_left before
  · refine List.Perm.trans ?_ hShuffled.perm
    rw [hPicks.split]
    change (s.out ++ [t.id] ++
      ((s.memory.cut _ _).2.elems _).map _).Perm _
    rw [hCut, List.append_assoc]
    apply List.Perm.append_left
    rw [List.map_append, List.map_append, List.map_cons,
      List.singleton_append]
    exact List.perm_middle.symm
  · rw [List.length_append, hShuffled.rounds]
    rfl

theorem Shuffled.left_ne_nil
    (hShuffled : Shuffled tenants memory k s)
    (hSome : 0 < s.remaining.len) :
    s.left ≠ [] := by
  have hLength : s.left.length = s.remaining.len :=
    Memory.length_elems hShuffled.within
  exact List.ne_nil_of_length_pos (hLength ▸ hSome)

/- The rounds up to the last one, from the start. -/
theorem shuffled_after
    (hWithin : memory.Within tenants)
    (hWeighty : Weighty (memory.elems tenants))
    (draws : Nat → Nat)
    (hk : k ≤ tenants.len) :
    ∃ s,
      shuffleAfter draws (shuffleStart tenants memory) k =
          some s ∧
        Shuffled tenants memory k s := by
  induction k with
  | zero => exact ⟨_, rfl, shuffled_start hWithin⟩
  | succ k ih =>
      rcases ih (Nat.le_of_succ_le hk) with
        ⟨s, hAfter, hShuffled⟩
      have hLen := hShuffled.len_add hWithin
      have hLeft :=
        hShuffled.left_ne_nil (by omega)
      rcases hShuffled.round hWeighty hLeft (draws k) with
        ⟨_, _, _, s', _, hRound, _, _, hShuffled'⟩
      refine ⟨s', ?_, hShuffled'⟩
      rw [shuffleAfter, hAfter, Option.bind_some, hRound]

/- Without a tenant left, it was the last round. -/
theorem Shuffled.loop_ends
    {last : Shuffling}
    {draws : Nat → Nat}
    (hShuffled : Shuffled tenants memory k s)
    (hWithin : memory.Within tenants)
    (hLast :
      shuffleAfter draws (shuffleStart tenants memory)
        tenants.len = some last)
    (hAfter :
      shuffleAfter draws (shuffleStart tenants memory) k =
        some s)
    (hDone : ¬s.remaining.len > 0)
    (fuel : Nat) :
    shuffleLoop draws fuel k s =
      .returned last.out last.memory := by
  have hLen := hShuffled.len_add hWithin
  have hk : k = tenants.len := by omega
  rw [← hk, hAfter] at hLast
  cases hLast
  cases fuel with
  | zero => rw [shuffleLoop, if_neg hDone]
  | succ fuel => rw [shuffleLoop, if_neg hDone]

/-
  The loop, from the state after `k` rounds on, returns with
  the last round: every round has taken one tenant away.
-/
theorem shuffleLoop_returns
    {last : Shuffling}
    (hWithin : memory.Within tenants)
    (hWeighty : Weighty (memory.elems tenants))
    (draws : Nat → Nat)
    (hLast :
      shuffleAfter draws (shuffleStart tenants memory)
        tenants.len = some last)
    (fuel : Nat)
    (hFuel : tenants.len ≤ k + fuel)
    (hAfter :
      shuffleAfter draws (shuffleStart tenants memory) k =
        some s)
    (hShuffled : Shuffled tenants memory k s) :
    shuffleLoop draws fuel k s =
      .returned last.out last.memory := by
  induction fuel generalizing k s with
  | zero =>
      have hLen := hShuffled.len_add hWithin
      exact hShuffled.loop_ends hWithin hLast hAfter
        (by omega) 0
  | succ fuel ih =>
      by_cases hMore : s.remaining.len > 0
      · have hLeft := hShuffled.left_ne_nil hMore
        rcases hShuffled.round hWeighty hLeft (draws k) with
          ⟨_, _, _, s', _, hRound, _, _, hShuffled'⟩
        have hAfter' :
            shuffleAfter draws (shuffleStart tenants memory)
              (k + 1) = some s' := by
          rw [shuffleAfter, hAfter, Option.bind_some, hRound]
        rw [shuffleLoop, if_pos hMore, hRound]
        exact ih (by omega) hAfter' hShuffled'
      · exact hShuffled.loop_ends hWithin hLast hAfter
          hMore (fuel + 1)

theorem totalWeight_le_of_sublist
    {left all : List TenantWeight}
    (hSub : left.Sublist all)
    (hWeighty : Weighty all) :
    totalWeight left ≤ totalWeight all := by
  induction hSub with
  | slnil => exact Int.le_refl _
  | cons t hSub ih =>
      have hHead := hWeighty t List.mem_cons_self
      have hTail :=
        ih (hWeighty.sublist (List.sublist_cons_self t _))
      rw [totalWeight_cons]
      omega
  | cons_cons t hSub ih =>
      have hTail :=
        ih (hWeighty.sublist (List.sublist_cons_self t _))
      rw [totalWeight_cons, totalWeight_cons]
      omega

/-
  A shuffle of tenants with positive weights returns, after
  as many rounds as there are tenants, a permutation of
  their IDs, and leaves all memory that was there before as
  it was. In every round the total is positive and at most
  that of all tenants; whatever is drawn, exactly one tenant
  is taken; and each tenant that is left is taken by as many
  of the possible draws as its weight.
-/
theorem weightedShuffle_fair
    (hWithin : memory.Within tenants)
    (hWeighty : Weighty (memory.elems tenants))
    (hDistinct :
      ((memory.elems tenants).map TenantWeight.id).Nodup)
    (draws : Nat → Nat) :
    (∃ last,
        shuffleAfter draws (shuffleStart tenants memory)
            tenants.len = some last ∧
          (∀ fuel, tenants.len ≤ fuel →
            weightedShuffle draws fuel tenants memory =
              .returned last.out last.memory) ∧
            last.out.Perm
              ((memory.elems tenants).map
                TenantWeight.id) ∧
              last.memory.elems tenants =
                  memory.elems tenants ∧
                ∀ a < memory.arrays.length,
                  last.memory.array a = memory.array a) ∧
      ∀ k < tenants.len,
        ∃ s,
          shuffleAfter draws (shuffleStart tenants memory)
              k = some s ∧
            (0 < totalWeight s.left ∧
              totalWeight s.left ≤
                totalWeight (memory.elems tenants)) ∧
              (∀ draw, ∃ before t after s',
                s.left = before ++ t :: after ∧
                  shuffleRound draw s = some s' ∧
                    s'.out = s.out ++ [t.id] ∧
                      s'.left = before ++ after) ∧
                ∀ t ∈ s.left,
                  (((Finset.range
                      (totalWeight s.left).toNat).filter
                      (fun draw =>
                        (shuffleRound draw s).map
                            Shuffling.out =
                          some (s.out ++ [t.id]))).card :
                    Int) = t.weight := by
  constructor
  · rcases shuffled_after hWithin hWeighty draws
      (Nat.le_refl _) with ⟨last, hLast, hShuffled⟩
    refine ⟨last, hLast, ?_, ?_, ?_, hShuffled.input⟩
    · intro fuel hFuel
      exact shuffleLoop_returns hWithin hWeighty draws hLast
        fuel (by omega) rfl (shuffled_start hWithin)
    · have hLen := hShuffled.len_add hWithin
      have hLength : last.left.length = last.remaining.len :=
        Memory.length_elems hShuffled.within
      have hNone : last.left = [] :=
        List.eq_nil_of_length_eq_zero (by omega)
      have hPerm := hShuffled.perm
      rw [hNone, List.map_nil, List.append_nil] at hPerm
      exact hPerm
    · exact Memory.elems_of_array_eq
        (hShuffled.input _ hWithin.allocated)
  · intro k hk
    rcases shuffled_after hWithin hWeighty draws
      (Nat.le_of_lt hk) with ⟨s, hAfter, hShuffled⟩
    have hLen := hShuffled.len_add hWithin
    have hLeft := hShuffled.left_ne_nil (by omega)
    have hLeftWeighty := hWeighty.sublist hShuffled.sublist
    refine ⟨s, hAfter, ⟨?_, ?_⟩, ?_, ?_⟩
    · exact hLeftWeighty.totalWeight_pos hLeft
    · exact totalWeight_le_of_sublist hShuffled.sublist
        hWeighty
    · intro draw
      rcases hShuffled.round hWeighty hLeft draw with
        ⟨before, t, after, s', hSplit, hRound, hOut, hRest,
          _⟩
      exact ⟨before, t, after, s', hSplit, hRound, hOut,
        hRest⟩
    · intro t ht
      exact card_draws hLeftWeighty
        (hDistinct.sublist
          (hShuffled.sublist.map TenantWeight.id)) ht

end

/- Two tenants, one of them without a weight. -/
def loadedTenants : Memory TenantWeight :=
  ⟨[(Cache.new.loadTenants
    [⟨7, "a", "ha", 10, 3, .active, "", 0⟩,
      ⟨8, "b", "hb", 10, 0, .active, "", 0⟩]).tenants]⟩

theorem weightedShuffle_of_loaded :
    ∃ last : Shuffling,
      weightedShuffle (fun _ => 5) 2 ⟨0, 0, 2⟩
          loadedTenants =
          .returned last.out last.memory ∧
        last.out.Perm [7, 8] := by
  have hWithin : loadedTenants.Within ⟨0, 0, 2⟩ :=
    ⟨by decide, by decide⟩
  have hWeighty :
      Weighty (loadedTenants.elems ⟨0, 0, 2⟩) :=
    weighty_loadTenants
      [⟨7, "a", "ha", 10, 3, .active, "", 0⟩,
        ⟨8, "b", "hb", 10, 0, .active, "", 0⟩] Cache.new
  rcases (weightedShuffle_fair hWithin hWeighty (by decide)
    (fun _ => 5)).1 with ⟨last, _, hReturns, hPerm, _⟩
  exact ⟨last, hReturns 2 (Nat.le_refl _), hPerm⟩

end Worker

end Sluice
