import Sluice.Api.Revocation

/-
  How old a tenant record can be that a lookup returns.

  Lookups run alone here, any number of them and for any
  keys, in steps that interleave with each other and with
  changes of the tenants. An observer records the tenants
  and the time of every state. A slow lookup may write an
  old record over the deletion of its entry; but an entry
  carries the time at which the lookup that wrote it began,
  and that is before its query.

  Key definitions include:
    * `Move` and `Lookup.move`
    * `Lookups`, `LookupLabel` and `lookups`
    * `Observation` and `SeenSince`

  Key theorems include:
    * `CallFresh.move`
    * `fresh_of_reachable`
    * `lookup_returns_recent_tenant`
-/

------------------------------------------------------------
-- Lookups On Their Own
------------------------------------------------------------

namespace Sluice

namespace Api

open Foundations Storage

/- The steps of a lookup that has begun. -/
inductive Move
| readEntry
| query (fails : Bool)
| finish
deriving DecidableEq, Repr

/- The lookup and the cache after a step. -/
def Lookup.move
    (tenants : Table Tenant)
    (cache : TenantCache)
    (l : Lookup) :
    Move → Option (Lookup × TenantCache)
| .readEntry => (l.readEntry cache).map (fun l => (l, cache))
| .query fails =>
    (l.query tenants fails).map (fun l => (l, cache))
| .finish => l.finish cache

/- The database, one cache, and the lookups in it. -/
structure Lookups where
  tenants : Table Tenant
  clock : Time
  cache : TenantCache
  calls : List Lookup

/- `drop` takes away the record of a call. -/
inductive LookupLabel
| start (apiKey : String)
| move (i : Nat) (m : Move)
| drop (i : Nat)
| change (c : TenantChange)
| tick (n : Nat)

namespace Lookups

def move
    (i : Nat)
    (m : Move)
    (s : Lookups) :
    Option Lookups :=
  match s.calls[i]? with
  | none => none
  | some l =>
      (l.move s.tenants s.cache m).map
        (fun p =>
          { s with
            calls := s.calls.set i p.1
            cache := p.2 })

def step
    (hashAPIKey : String → String) :
    LookupLabel → Lookups → Option Lookups
| .start apiKey, s =>
    some
      { s with
        calls :=
          s.calls ++ [⟨hashAPIKey apiKey, s.clock, .started⟩] }
| .move i m, s => s.move i m
| .drop i, s => some { s with calls := s.calls.eraseIdx i }
| .change c, s =>
    (c.perform s.tenants).map
      (fun tenants => { s with tenants := tenants })
| .tick n, s => some { s with clock := s.clock + n }

end Lookups

/- The cache is empty at first. -/
def lookups
    (hashAPIKey : String → String) :
    Machine Lookups LookupLabel where
  init := fun s => s.cache = (fun _ => none) ∧ s.calls = []
  step := Lookups.step hashAPIKey

/- A replica without what happens around its lookups. -/
def Replica.lookups (s : Replica) : Lookups where
  tenants := s.tenants
  clock := s.clock
  cache := s.cache
  calls := s.sessions.map Session.lookup

------------------------------------------------------------
-- What Has Been Seen
------------------------------------------------------------

/- The tenants at a time. -/
structure Observation where
  clock : Time
  tenants : Table Tenant

def Lookups.view (s : Lookups) : Observation :=
  ⟨s.clock, s.tenants⟩

/- The record was that of the active tenant with the key. -/
def SeenSince
    (seen : List Observation)
    (since : Time)
    (hash : String)
    (t : Tenant) :
    Prop :=
  ∃ o ∈ seen, since ≤ o.clock ∧
    getTenantByAPIKey hash o.tenants = some t

section

variable {seen : List Observation}
variable {since since' : Time}
variable {hash : String}
variable {t : Tenant}

theorem SeenSince.cons
    (o : Observation)
    (hSeen : SeenSince seen since hash t) :
    SeenSince (o :: seen) since hash t := by
  rcases hSeen with ⟨o', ho', hTenant⟩
  exact ⟨o', List.mem_cons_of_mem o ho', hTenant⟩

theorem SeenSince.mono
    (hSeen : SeenSince seen since hash t)
    (hLe : since' ≤ since) :
    SeenSince seen since' hash t := by
  rcases hSeen with ⟨o, ho, hTime, hTenant⟩
  exact ⟨o, ho, Int.le_trans hLe hTime, hTenant⟩

end

/-
  What a lookup knows has been seen: the answer of Postgres
  since the lookup began, and what it returns within the
  lifetime of an entry before that.
-/
structure CallFresh
    (seen : List Observation)
    (clock : Time)
    (l : Lookup) :
    Prop where
  begun : l.now ≤ clock
  queried :
    ∀ t ok, l.phase = .queried (some t) ok →
      SeenSince seen l.now l.hash t
  returned :
    ∀ t, l.phase = .returned (some t) →
      SeenSince seen (l.now - tenantCacheTTL) l.hash t

/- An entry has been seen since its writer began. -/
def EntriesFresh
    (seen : List Observation)
    (cache : TenantCache) :
    Prop :=
  ∀ hash e, cache hash = some e →
    SeenSince seen (e.expires - tenantCacheTTL) hash e.tenant

structure Fresh (p : Lookups × List Observation) : Prop where
  past : ∀ o ∈ p.2, o.clock ≤ p.1.clock
  entries : EntriesFresh p.2 p.1.cache
  calls : ∀ l ∈ p.1.calls, CallFresh p.2 p.1.clock l

------------------------------------------------------------
-- Steps
------------------------------------------------------------

section

variable {seen : List Observation}
variable {clock clock' : Time}
variable {tenants : Table Tenant}
variable {cache cache' : TenantCache}
variable {l l' : Lookup}

theorem CallFresh.cons
    (o : Observation)
    (hCall : CallFresh seen clock l)
    (hClock : clock ≤ clock') :
    CallFresh (o :: seen) clock' l where
  begun := Int.le_trans hCall.begun hClock
  queried := fun t ok hPhase =>
    (hCall.queried t ok hPhase).cons o
  returned := fun t hPhase => (hCall.returned t hPhase).cons o

theorem EntriesFresh.cons
    (o : Observation)
    (hEntries : EntriesFresh seen cache) :
    EntriesFresh (o :: seen) cache :=
  fun hash e hEntry => (hEntries hash e hEntry).cons o

/- What a step of a lookup has to show. -/
theorem CallFresh.continue_
    (hCall : CallFresh seen clock l)
    (hContinues : l.Continues l')
    (hQueried :
      ∀ t ok, l'.phase = .queried (some t) ok →
        SeenSince seen l.now l.hash t)
    (hReturned :
      ∀ t, l'.phase = .returned (some t) →
        SeenSince seen (l.now - tenantCacheTTL) l.hash t) :
    CallFresh seen clock l' := by
  rcases hContinues with ⟨hHash, hNow⟩
  constructor
  · rw [hNow]
    exact hCall.begun
  · rw [hHash, hNow]
    exact hQueried
  · rw [hHash, hNow]
    exact hReturned

theorem CallFresh.readEntry
    (hCall : CallFresh seen clock l)
    (hEntries : EntriesFresh seen cache)
    (hRead : l.readEntry cache = some l') :
    CallFresh seen clock l' := by
  rcases Lookup.readEntry_eq_some hRead with
    ⟨hContinues, ⟨ok, hPhase⟩ |
      ⟨e, hEntry, hLive, hPhase⟩⟩
  · refine hCall.continue_ hContinues ?_ ?_
    · rw [hPhase]
      rintro t ok' ⟨⟩
    · rw [hPhase]
      rintro t ⟨⟩
  · refine hCall.continue_ hContinues ?_ ?_
    · rw [hPhase]
      rintro t ok ⟨⟩
    · rw [hPhase]
      rintro t ⟨⟩
      -- the entry is still alive when the lookup begins
      exact (hEntries l.hash e hEntry).mono
        (Int.sub_le_sub_right (Int.le_of_lt hLive) _)

theorem CallFresh.query
    {fails : Bool}
    (hCall : CallFresh seen clock l)
    (hPresent : ⟨clock, tenants⟩ ∈ seen)
    (hQuery : l.query tenants fails = some l') :
    CallFresh seen clock l' := by
  rcases Lookup.query_eq_some hQuery with
    ⟨hContinues, answer, ok, hPhase, hAnswer⟩
  refine hCall.continue_ hContinues ?_ ?_
  · rw [hPhase]
    rintro t ok' ⟨⟩
    exact ⟨_, hPresent, hCall.begun, hAnswer t rfl⟩
  · rw [hPhase]
    rintro t ⟨⟩

theorem CallFresh.finish
    (hCall : CallFresh seen clock l)
    (hEntries : EntriesFresh seen cache)
    (hFinish : l.finish cache = some (l', cache')) :
    CallFresh seen clock l' ∧ EntriesFresh seen cache' := by
  have hTTL := tenantCacheTTL_pos
  rcases Lookup.finish_eq_some hFinish with
    ⟨hContinues, ⟨t, ok, hBefore, hPhase, hCache⟩ |
      ⟨hPhase, hCache⟩⟩
  · have hSeen := hCall.queried t ok hBefore
    constructor
    · refine hCall.continue_ hContinues ?_ ?_
      · rw [hPhase]
        rintro t' ok' ⟨⟩
      · rw [hPhase]
        rintro t' ⟨⟩
        exact hSeen.mono
          (Int.sub_le_self _ (Int.le_of_lt hTTL))
    · intro hash e hEntry
      rw [hCache] at hEntry
      by_cases hSame : hash = l.hash
      · rw [hSame, Function.update_self] at hEntry
        cases hEntry
        rw [hSame]
        -- the writer began before it asked
        exact hSeen.mono
          (Int.le_of_eq (Int.add_sub_cancel l.now _))
      · rw [Function.update_of_ne hSame] at hEntry
        exact hEntries hash e hEntry
  · constructor
    · refine hCall.continue_ hContinues ?_ ?_
      · rw [hPhase]
        rintro t ok ⟨⟩
      · rw [hPhase]
        rintro t ⟨⟩
    · intro hash e hEntry
      exact hEntries hash e (hCache hash e hEntry)

theorem CallFresh.move
    {m : Move}
    (hCall : CallFresh seen clock l)
    (hEntries : EntriesFresh seen cache)
    (hPresent : ⟨clock, tenants⟩ ∈ seen)
    (hMove : l.move tenants cache m = some (l', cache')) :
    CallFresh seen clock l' ∧ EntriesFresh seen cache' := by
  cases m with
  | readEntry =>
      rcases Option.map_eq_some_iff.mp hMove with
        ⟨l'', hRead, hNew⟩
      cases hNew
      exact ⟨hCall.readEntry hEntries hRead, hEntries⟩
  | query fails =>
      rcases Option.map_eq_some_iff.mp hMove with
        ⟨l'', hQuery, hNew⟩
      cases hNew
      exact ⟨hCall.query hPresent hQuery, hEntries⟩
  | finish => exact hCall.finish hEntries hMove

/- A step of a lookup keeps its key and its time. -/
theorem continues_of_move
    {m : Move}
    (hMove : l.move tenants cache m = some (l', cache')) :
    l.Continues l' := by
  cases m with
  | readEntry =>
      rcases Option.map_eq_some_iff.mp hMove with
        ⟨l'', hRead, hNew⟩
      cases hNew
      exact (Lookup.readEntry_eq_some hRead).1
  | query fails =>
      rcases Option.map_eq_some_iff.mp hMove with
        ⟨l'', hQuery, hNew⟩
      cases hNew
      exact (Lookup.query_eq_some hQuery).1
  | finish => exact (Lookup.finish_eq_some hMove).1

theorem Lookup.phase_of_tenant?
    {t : Tenant}
    (hTenant : l.tenant? = some t) :
    l.phase = .returned (some t) := by
  unfold tenant? at hTenant
  split at hTenant
  · rename_i result hPhase
    rw [hPhase, hTenant]
  · cases hTenant

theorem Lookups.move_eq_some
    {i : Nat}
    {m : Move}
    {s s' : Lookups}
    (hStep : s.move i m = some s') :
    ∃ l l' cache,
      s.calls[i]? = some l ∧
        l.move s.tenants s.cache m = some (l', cache) ∧
          s' =
            { s with
              calls := s.calls.set i l'
              cache := cache } := by
  unfold move at hStep
  split at hStep
  · cases hStep
  · rename_i l hGet
    rcases Option.map_eq_some_iff.mp hStep with
      ⟨⟨l', cache⟩, hMove, rfl⟩
    exact ⟨l, l', cache, hGet, hMove, rfl⟩

end

------------------------------------------------------------
-- Runs
------------------------------------------------------------

section

variable {hashAPIKey : String → String}
variable {p p' : Lookups × List Observation}

/- The state after a step, with what was seen before it. -/
theorem Fresh.next
    {s s' : Lookups}
    {seen : List Observation}
    (hFresh : Fresh (s, seen))
    (hClock : s.clock ≤ s'.clock)
    (hEntries : EntriesFresh seen s'.cache)
    (hCalls : ∀ l ∈ s'.calls, CallFresh seen s.clock l) :
    Fresh (s', s'.view :: seen) where
  past := by
    intro o ho
    rcases List.mem_cons.mp ho with rfl | hOld
    · exact Int.le_refl _
    · exact Int.le_trans (hFresh.past o hOld) hClock
  entries := hEntries.cons _
  calls := fun l hl => (hCalls l hl).cons _ hClock

theorem Fresh.step
    {s s' : Lookups}
    {seen : List Observation}
    {label : LookupLabel}
    (hFresh : Fresh (s, seen))
    (hPresent : s.view ∈ seen)
    (hStep : s.step hashAPIKey label = some s') :
    Fresh (s', s'.view :: seen) := by
  have hEntries := hFresh.entries
  have hCalls := hFresh.calls
  cases label with
  | start apiKey =>
      cases hStep
      refine hFresh.next (Int.le_refl _) hEntries ?_
      intro l hl
      rcases List.mem_append.mp hl with hOld | hNew
      · exact hCalls l hOld
      · rw [List.mem_singleton.mp hNew]
        refine ⟨Int.le_refl _, ?_, ?_⟩
        · rintro t ok ⟨⟩
        · rintro t ⟨⟩
  | move i m =>
      rcases Lookups.move_eq_some hStep with
        ⟨l, l', cache, hGet, hMove, rfl⟩
      rcases (hCalls l (List.mem_of_getElem? hGet)).move
        hEntries hPresent hMove with ⟨hCall, hCache⟩
      refine hFresh.next (Int.le_refl _) hCache ?_
      intro x hx
      rcases List.mem_or_eq_of_mem_set hx with hOld | hNew
      · exact hCalls x hOld
      · rw [hNew]
        exact hCall
  | drop i =>
      cases hStep
      refine hFresh.next (Int.le_refl _) hEntries ?_
      intro l hl
      exact hCalls l (List.mem_of_mem_eraseIdx hl)
  | change c =>
      rcases Option.map_eq_some_iff.mp hStep with
        ⟨tenants, _, rfl⟩
      exact hFresh.next (Int.le_refl _) hEntries hCalls
  | tick n =>
      cases hStep
      exact hFresh.next
        (Int.le_add_of_nonneg_right (Int.natCast_nonneg n))
        hEntries hCalls

theorem fresh_of_reachable
    (hReach :
      ((lookups hashAPIKey).observed
        Lookups.view).Reachable p) :
    Fresh p := by
  refine Machine.ReachableWith.invariant ?_ ?_ hReach
  · rintro ⟨s, seen⟩ ⟨⟨hCache, hCalls⟩, hSeen⟩
    dsimp only at hCache hCalls hSeen
    refine ⟨?_, ?_, ?_⟩
    · rw [hSeen]
      intro o ho
      rw [List.mem_singleton.mp ho]
      exact Int.le_refl _
    · intro hash e hEntry
      rw [hCache] at hEntry
      cases hEntry
    · intro l hl
      rw [hCalls] at hl
      cases hl
  · rintro ⟨s, seen⟩ label ⟨s', seen'⟩ hBefore hFresh _ hStep
    rcases Machine.step_of_observed hStep with
      ⟨hNext, hSeen⟩
    dsimp only at hNext hSeen
    rw [hSeen]
    exact hFresh.step (Machine.view_mem_of_observed hBefore)
      hNext

/-
  In any interleaving: whenever a lookup that began at time
  `l.now` returns a tenant, that record was the database's
  active tenant for the key at a time that had been seen by
  then and was not earlier than the lifetime of an entry
  before `l.now`; so it returns none if the key was valid at
  no such time. The records that have been returned stay as
  old as that.
-/
theorem lookup_returns_recent_tenant
    (hReach :
      ((lookups hashAPIKey).observed
        Lookups.view).Reachable p) :
    (∀ l ∈ p.1.calls, ∀ t, l.tenant? = some t →
        SeenSince p.2 (l.now - tenantCacheTTL) l.hash t) ∧
      ∀ i m l p' l',
        p.1.calls[i]? = some l →
          ((lookups hashAPIKey).observed Lookups.view).step
              (.move i m) p = some p' →
            p'.1.calls[i]? = some l' →
              (l.hash = l'.hash ∧ l.now = l'.now) ∧
                (∀ t, l'.tenant? = some t →
                  ∃ o ∈ p.2,
                    l.now - tenantCacheTTL ≤ o.clock ∧
                      o.clock ≤ p'.1.clock ∧
                        getTenantByAPIKey l.hash o.tenants =
                          some t) ∧
                  ((∀ o ∈ p.2,
                      l.now - tenantCacheTTL ≤ o.clock →
                        getTenantByAPIKey l.hash o.tenants =
                          none) →
                    l'.tenant? = none) := by
  have hFresh := fresh_of_reachable hReach
  have hPresent := Machine.view_mem_of_observed hReach
  constructor
  · intro l hl t hTenant
    exact (hFresh.calls l hl).returned t
      (Lookup.phase_of_tenant? hTenant)
  · intro i m l p' l' hBefore hStep hAfter
    have hNext := (Machine.step_of_observed hStep).1
    rcases Lookups.move_eq_some hNext with
      ⟨l₁, l₂, cache, hGet, hMove, hNew⟩
    rw [hBefore] at hGet
    cases hGet
    have hIndex : i < p.1.calls.length :=
      (List.getElem?_eq_some_iff.mp hBefore).1
    have hSame : l₂ = l' := by
      rw [hNew] at hAfter
      simpa [List.getElem?_set_self hIndex] using hAfter
    subst hSame
    have hClock : p'.1.clock = p.1.clock := by rw [hNew]
    have hContinues := continues_of_move hMove
    have hCall :=
      ((hFresh.calls l (List.mem_of_getElem? hBefore)).move
        hFresh.entries hPresent hMove).1
    have hReturned : ∀ t, l₂.tenant? = some t →
        SeenSince p.2 (l.now - tenantCacheTTL) l.hash t := by
      intro t hTenant
      rw [← hContinues.1, ← hContinues.2]
      exact hCall.returned t
        (Lookup.phase_of_tenant? hTenant)
    refine ⟨⟨hContinues.1.symm, hContinues.2.symm⟩, ?_, ?_⟩
    · intro t hTenant
      rcases hReturned t hTenant with
        ⟨o, ho, hSince, hValid⟩
      rw [hClock]
      exact ⟨o, ho, hSince, hFresh.past o ho, hValid⟩
    · intro hInvalid
      cases hTenant : l₂.tenant? with
      | none => rfl
      | some t =>
          rcases hReturned t hTenant with
            ⟨o, ho, hSince, hValid⟩
          rw [hInvalid o ho hSince] at hValid
          cases hValid

end

/-
  A lookup has the tenant from Postgres and is slow. The
  tenant is disabled, and another lookup finds that out; then
  the slow one writes its entry, which a third one uses.
-/
theorem recent_tenant_after_race :
    ∃ p : Lookups × List Observation,
      ∃ l ∈ p.1.calls, ∃ t,
        (l.now = 2 * second ∧ l.tenant? = some t) ∧
          SeenSince p.2 (l.now - tenantCacheTTL) l.hash
            t := by
  have hInit :
      ((lookups (fun key => key)).observed
          Lookups.view).init
        (Sample.start.lookups,
          [Sample.start.lookups.view]) :=
    ⟨⟨rfl, rfl⟩, rfl⟩
  rcases
    Machine.exists_reachable_of_run hInit
      [.start "sk_1", .move 0 .readEntry,
        .move 0 (.query false),
        .change (.setTenantStatus 1 .disabled),
        .tick 1000000, .start "sk_1",
        .move 1 .readEntry, .move 1 (.query false),
        .move 1 .finish, .move 0 .finish,
        .tick 1000000, .start "sk_1",
        .move 2 .readEntry]
      (fun p =>
        ∃ l ∈ p.1.calls,
          l.now = 2 * second ∧ l.tenant?.isSome = true)
      (by decide +kernel)
  with ⟨p, hReach, l, hl, hNow, hSome⟩
  rcases Option.isSome_iff_exists.mp hSome with ⟨t, ht⟩
  exact ⟨p, l, hl, t, ⟨hNow, ht⟩,
    (lookup_returns_recent_tenant hReach).1 l hl t ht⟩

end Api

end Sluice
