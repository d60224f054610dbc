import Sluice.Storage.RowInvariant

/-
  The lock protocol behind a tenant's concurrency cap.

  A capped claim locks the tenants row before it counts, so
  while one of them stands between its count and its commit
  no other can, and nothing else raises the count.

  Main declarations:
    * `Capped`
    * `CapHeld`
    * `runningCount_entry_le`
    * `tenant_cap_held`
-/

------------------------------------------------------------
-- The Count Across One Commit
------------------------------------------------------------

namespace Sluice

namespace Storage

open Foundations ReadCommitted

/-
  The number of running jobs of a tenant grows only by the
  claim of one of its jobs.
-/
theorem runningCount_entry_le
    (tenantId : Uuid)
    {c : Entry}
    {clock : Time}
    (hLawful : Lawful c)
    (hInsert :
      ∀ j, c.call = .insertJob j →
        j.insertable clock = true)
    (claimed : List Uuid)
    (hClaimed :
      ∀ a, c.call.claimArgs? = some a →
        ∀ old, c.before.job? a.jobId = some old →
          old.tenantId = tenantId → a.jobId ∈ claimed) :
    runningCount tenantId c.after ≤
      claimed.length + runningCount tenantId c.before := by
  unfold runningCount
  apply Table.countP_le_of_keys claimed
  intro new hNew hGuard
  simp only [Bool.and_eq_true, decide_eq_true_eq] at hGuard
  have hAfter : c.after.job? new.id = some new :=
    Table.find?_of_mem hNew
  cases hLawful.jobs new.id with
  | kept hSame =>
      refine .inr ⟨new, ?_, by simp [hGuard], rfl⟩
      exact Table.mem_of_find? (hSame.symm.trans hAfter)
  | inserted j hCall _ hSome =>
      cases hAfter.symm.trans hSome
      rw [inFlight_inserted (hInsert j hCall)] at hGuard
      cases hGuard.2
  | changed old new' hOld hSome hChange =>
      cases hAfter.symm.trans hSome
      have hFixed := Call.changes_fixed hChange
      have hTenant : old.tenantId = tenantId :=
        hFixed.tenantId.symm.trans hGuard.1
      cases hClaim : c.call.claimArgs? with
      | some a =>
          have hId := (Call.claim_changes hChange hClaim).1
          left
          rw [hFixed.id, hId] at hOld
          have hMem := hClaimed a hClaim old hOld hTenant
          rw [← hId, ← hFixed.id] at hMem
          exact hMem
      | none =>
          rcases Call.extends_of_inFlight hChange hClaim
            hGuard.2 with ⟨_, _, _, _, hFlight, _⟩
          exact .inr ⟨old, Table.mem_of_find? hOld,
            by simp [hTenant, hFlight], hFixed.id.symm⟩

------------------------------------------------------------
-- The Lock Protocol
------------------------------------------------------------

variable {tenantId : Uuid}
variable {limit : Nat}

/-
  Every claim made so far of one of the tenant's jobs is a
  `TryClaimLimited` with the tenant and the limit.
-/
def Capped
    (tenantId : Uuid)
    (limit : Nat)
    (s : Sys) :
    Prop :=
  ∀ call ∈ s.calls, ∀ a, call.claimArgs? = some a →
    ∀ j, s.db.job? a.jobId = some j →
      j.tenantId = tenantId →
        call = .tryClaimLimited a tenantId limit

/-
  A capped claim holds the tenant's lock from its first
  statement on, and the count stays below the limit from its
  second statement on.
-/
structure CapHeld
    (tenantId : Uuid)
    (limit : Nat)
    (s : Sys) : Prop where
  count_le : runningCount tenantId s.db ≤ limit
  locked : ∀ e ∈ s.sessions, ∀ a,
    e.call = .tryClaimLimited a tenantId limit →
      1 ≤ e.pc → .tenant tenantId ∈ e.locks
  below : ∀ e ∈ s.sessions, ∀ a,
    e.call = .tryClaimLimited a tenantId limit →
      2 ≤ e.pc → runningCount tenantId s.db < limit

theorem tenants_performAll
    (db : Db)
    (writes : List Write) :
    (postgres.performAll db writes).tenants =
      db.tenants := by
  induction writes generalizing db with
  | nil => rfl
  | cons w writes ih =>
      rw [Engine.performAll_cons, ih]
      exact Db.tenants_perform db w

/- Jobs stay, and stay with their tenant. -/
theorem Moves.tenant_fixed
    {c : Entry}
    {id : Uuid}
    {old : Job}
    (hMoves : Moves c id)
    (hBefore : c.before.job? id = some old) :
    ∃ new, c.after.job? id = some new ∧
      new.tenantId = old.tenantId := by
  cases hMoves with
  | kept hSame => exact ⟨old, hSame.trans hBefore, rfl⟩
  | inserted j _ hNone _ =>
      rw [hBefore] at hNone
      cases hNone
  | changed old' new hOld hNew hChange =>
      cases hBefore.symm.trans hOld
      exact
        ⟨new, hNew, (Call.changes_fixed hChange).tenantId⟩

/- A run that is capped to its end was capped before. -/
theorem Capped.of_committed
    {s : Sys}
    {e : Sess}
    {others : List Sess}
    (hLawful : Lawful (postgres.entry s.db e))
    (hCapped :
      Capped tenantId limit
        (postgres.committed s e others)) :
    Capped tenantId limit s := by
  intro call hCall a hArgs j hJob hTenant
  rcases (hLawful.jobs a.jobId).tenant_fixed hJob with
    ⟨new, hNew, hSame⟩
  exact hCapped call hCall a hArgs new hNew
    (hSame.trans hTenant)

/- One statement of a session keeps the protocol. -/
theorem CapHeld.statement
    {s : Sys}
    {l₁ l₂ : List Sess}
    {e : Sess}
    {scan : Scan}
    {locked : RowKey → Bool}
    {writes : List Write}
    {locks : List RowKey}
    (hHeld : CapHeld tenantId limit s)
    (hTenant : (s.db.tenants.find? tenantId).isSome = true)
    (hSplit : s.sessions = l₁ ++ e :: l₂)
    (hOutcome :
      e.call.statement e.pc e.start scan locked s.db =
        .proceed writes locks) :
    CapHeld tenantId limit
      { s with
        sessions := l₁ ++ e.advance writes locks :: l₂ } := by
  have hMem : e ∈ s.sessions := self_mem_of_split hSplit
  constructor
  · exact hHeld.count_le
  · intro f hf a hCall hPc
    rcases mem_split_iff.mp hf with hMoved | hOther
    · subst hMoved
      rw [Session.advance_call] at hCall
      rcases Nat.eq_zero_or_pos e.pc with hFirst | hLater
      · -- The first statement takes the lock.
        rw [hCall, hFirst] at hOutcome
        simp only [Call.statement, lockTenant, hTenant,
          if_true, Outcome.proceed.injEq] at hOutcome
        rw [Session.advance_locks, ← hOutcome.2]
        exact List.mem_append_right _ List.mem_cons_self
      · exact List.mem_append_left _
          (hHeld.locked e hMem a hCall hLater)
    · exact hHeld.locked f
        (mem_of_split hSplit hOther) a hCall hPc
  · intro f hf a hCall hPc
    rcases mem_split_iff.mp hf with hMoved | hOther
    · subst hMoved
      rw [Session.advance_call] at hCall
      rw [Session.advance_pc] at hPc
      rcases Nat.lt_or_ge e.pc 2 with hCount | hLater
      · -- The second statement has counted.
        have hOne : e.pc = 1 := by omega
        rw [hCall, hOne] at hOutcome
        simp only [Call.statement, countRunning]
          at hOutcome
        split at hOutcome
        · cases hOutcome
        · rename_i hBelow
          simp only
          omega
      · exact hHeld.below e hMem a hCall hLater
    · exact hHeld.below f
        (mem_of_split hSplit hOther) a hCall hPc

/-
  One commit keeps the protocol. The commit of a capped claim
  may raise the count by one, but then no other session holds
  the tenant's lock.
-/
theorem CapHeld.commit
    {s : Sys}
    {l₁ l₂ : List Sess}
    {e : Sess}
    {clock : Time}
    (hHeld : CapHeld tenantId limit s)
    (hCapped : Capped tenantId limit s)
    (hSplit : s.sessions = l₁ ++ e :: l₂)
    (hPc : e.pc = e.call.length)
    (hMade : e.call ∈ s.calls)
    (hLocks :
      ∀ f ∈ l₁ ++ l₂, ∀ k ∈ e.locks, k ∉ f.locks)
    (hLawful : Lawful (postgres.entry s.db e))
    (hInsert :
      ∀ j, e.call = .insertJob j →
        j.insertable clock = true) :
    CapHeld tenantId limit
      (postgres.committed s e (l₁ ++ l₂)) := by
  have hMem : e ∈ s.sessions := self_mem_of_split hSplit
  by_cases hClaim :
      ∃ a, e.call = .tryClaimLimited a tenantId limit
  · rcases hClaim with ⟨a, hCall⟩
    have hThree : e.pc = 3 := by
      rw [hPc, hCall]
      rfl
    have hLock := hHeld.locked e hMem a hCall (by omega)
    have hBelow := hHeld.below e hMem a hCall (by omega)
    have hCount := runningCount_entry_le tenantId hLawful
      hInsert [a.jobId] (by
        intro b hArgs _ _ _
        rw [Engine.entry_call, hCall] at hArgs
        cases hArgs
        exact List.mem_cons_self)
    constructor
    · simp only [Engine.committed]
      simp only [Engine.entry_after, Engine.entry_before,
        List.length_singleton] at hCount
      omega
    · intro f hf b hOther hPos
      exact hHeld.locked f (mem_of_split hSplit hf)
        b hOther hPos
    · intro f hf b hOther hPos
      have hBoth := hHeld.locked f
        (mem_of_split hSplit hf) b hOther (by omega)
      exact absurd hBoth (hLocks f hf _ hLock)
  · have hCount := runningCount_entry_le tenantId hLawful
      hInsert [] (by
        intro a hArgs old hOld hTenant
        exact absurd
          ⟨a, hCapped e.call hMade a hArgs old hOld hTenant⟩
          hClaim)
    simp only [Engine.entry_after, Engine.entry_before,
      List.length_nil, Nat.zero_add] at hCount
    constructor
    · exact Nat.le_trans hCount hHeld.count_le
    · intro f hf
      exact hHeld.locked f (mem_of_split hSplit hf)
    · intro f hf b hOther hPos
      exact Nat.lt_of_le_of_lt hCount
        (hHeld.below f (mem_of_split hSplit hf) b
          hOther hPos)

variable {ok : Sys → Step → Prop}
variable {s : Sys}

/- A run in which the tenant is capped keeps the protocol. -/
theorem capHeld
    (hReach : sluice.ReachableWith ok s)
    (hCapped : Capped tenantId limit s)
    (hTenant :
      (s.db.tenants.find? tenantId).isSome = true) :
    CapHeld tenantId limit s := by
  revert hCapped hTenant
  refine Engine.reachableWith_invariant
    (I := fun s : Sys => Capped tenantId limit s →
      (s.db.tenants.find? tenantId).isSome = true →
        CapHeld tenantId limit s)
    ?_ ?_ ?_ ?_ ?_ ?_ hReach
  · intro db clock hDb _ _
    constructor
    · simp [runningCount, hDb.1, Table.empty]
    · intro e he
      cases he
    · intro e he
      cases he
  · intro s call _ hInv _ _ hCapped hTenant
    have hHeld := hInv
      (fun c hc => hCapped c (List.mem_cons_of_mem _ hc))
      hTenant
    constructor
    · exact hHeld.count_le
    · intro e he a hCall hPc
      rcases List.mem_cons.mp he with hNew | hOld
      · subst hNew
        cases hPc
      · exact hHeld.locked e hOld a hCall hPc
    · intro e he a hCall hPc
      rcases List.mem_cons.mp he with hNew | hOld
      · subst hNew
        cases hPc
      · exact hHeld.below e hOld a hCall hPc
  · intro s l₁ e l₂ scan writes locks hPrev hInv _ hSplit _
      hOutcome _ hCapped hTenant
    have hSound := sessions_sound hPrev e
      (self_mem_of_split hSplit)
    have hView := statement_view hSound.shaped scan
      (lockedBy (l₁ ++ l₂)) s.db
    exact (hInv hCapped hTenant).statement hTenant hSplit
      (hView.symm.trans hOutcome)
  · intro s l₁ e l₂ _ hInv hSplit hCapped hTenant
    have hHeld := hInv hCapped hTenant
    constructor
    · exact hHeld.count_le
    · intro f hf
      exact hHeld.locked f (mem_of_split hSplit hf)
    · intro f hf
      exact hHeld.below f (mem_of_split hSplit hf)
  · intro s l₁ e l₂ hPrev hInv _ hSplit hPc hCapped hTenant
    have hMem : e ∈ s.sessions := self_mem_of_split hSplit
    have hLawful := lawful_entry hPrev hMem
    have hBefore := hCapped.of_committed hLawful
    have hExists :
        (s.db.tenants.find? tenantId).isSome = true := by
      rw [← tenants_performAll s.db e.writes]
      exact hTenant
    have hMade := ((Engine.booked hPrev).sessions e hMem).1
    refine (hInv hBefore hExists).commit hBefore hSplit hPc
      hMade ?_ hLawful (session_insertable hPrev hMem)
    intro f hf k hk
    exact Engine.not_mem_locks_of_split hPrev hSplit hf hk
  · intro s n _ hInv hCapped hTenant
    have hHeld := hInv hCapped hTenant
    exact ⟨hHeld.count_le, hHeld.locked, hHeld.below⟩

------------------------------------------------------------
-- What A Capped Claim Leaves
------------------------------------------------------------

/- A capped claim that reaches its commit has a job. -/
theorem sessions_claimLimited
    (hReach : sluice.ReachableWith ok s) :
    ∀ e ∈ s.sessions, ∀ a tenantId limit,
      e.call = .tryClaimLimited a tenantId limit →
        e.pc = 3 → e.writes ≠ [] := by
  refine Engine.sessions_invariant
    (P := fun _ e => ∀ a tenantId limit,
      e.call = .tryClaimLimited a tenantId limit →
        e.pc = 3 → e.writes ≠ [])
    ?_ ?_ ?_ hReach
  · intro db call clock a tenantId limit _ hPc
    cases hPc
  · intro db e scan locked writes locks _ hOutcome a
      tenantId limit hCall hPc
    rw [Session.advance_call] at hCall
    have hTwo : e.pc = 2 := Nat.succ.inj hPc
    rw [hCall, hTwo] at hOutcome
    simp only [postgres, Call.statement, claimLimited]
      at hOutcome
    split at hOutcome
    · cases hOutcome
    · cases hOutcome
      simp
  · intro db e f hP _ _
    exact hP

/- Two sessions never hold a claim of the same job. -/
theorem claims_exclusive
    (hReach : sluice.ReachableWith ok s) :
    s.sessions.Pairwise
      (fun e f =>
        ∀ a b, e.call.claimArgs? = some a →
          f.call.claimArgs? = some b → e.writes ≠ [] →
            f.writes ≠ [] → a.jobId ≠ b.jobId) := by
  have hSound := sessions_sound hReach
  apply (Engine.locks_disjoint hReach).imp_of_mem
  intro e f he hf hDisjoint a b ha hb hOne hTwo hSame
  rcases (hSound e he).claimWrites a ha with
    hNone | ⟨_, _, _, hLock, _⟩
  · exact hOne hNone
  · rcases (hSound f hf).claimWrites b hb with
      hNone | ⟨_, _, _, hLock', _⟩
    · exact hTwo hNone
    · rw [hSame] at hLock
      exact hDisjoint hLock hLock'

/-
  What the cap guarantees: the tenant has at most `limit`
  running jobs; a capped claim that returns an error or no
  job has changed nothing; one that commits has claimed a
  pending job; and no job is claimed by two transactions.
-/
structure CapGuaranteed
    (tenantId : Uuid)
    (limit : Nat)
    (s : Sys) : Prop where
  count_le : runningCount tenantId s.db ≤ limit
  refused : ∀ i e scan a, s.sessions[i]? = some e →
    e.call = .tryClaimLimited a tenantId limit →
      e.pc < e.call.length →
        e.call.statement e.pc e.start scan
            (lockedBy (s.sessions.eraseIdx i))
            (postgres.performAll s.db e.writes) =
          .abort →
          sluice.step (.statement i scan) s =
            some { s with sessions := s.sessions.eraseIdx i }
  granted : ∀ e ∈ s.sessions, ∀ a,
    e.call = .tryClaimLimited a tenantId limit →
      e.pc = e.call.length →
        ∃ old, s.db.job? a.jobId = some old ∧
          old.state = .pending ∧
            e.writes =
              [.updateJob (old.claim a),
                .insertRun (RunRow.opened a (old.claim a))]
  exclusive :
    s.sessions.Pairwise
      (fun e f =>
        ∀ a b, e.call.claimArgs? = some a →
          f.call.claimArgs? = some b → e.writes ≠ [] →
            f.writes ≠ [] → a.jobId ≠ b.jobId)
  claimed : ∀ c ∈ s.history, ∀ a,
    c.call.claimArgs? = some a → ClaimOpens c a

theorem tenant_cap_held
    (hReach : sluice.Reachable s)
    (hTenant :
      (s.db.tenants.find? tenantId).isSome = true)
    (hCapped : Capped tenantId limit s) :
    CapGuaranteed tenantId limit s where
  count_le := (capHeld hReach hCapped hTenant).count_le
  refused := by
    intro i e scan a hGet _ hPc hAbort
    have hStatement :
        postgres.statement e.call e.pc e.start scan
            (lockedBy (s.sessions.eraseIdx i))
            (postgres.performAll s.db e.writes) =
          .abort :=
      hAbort
    simp only [sluice, Engine.machine, Engine.step, hGet,
      hStatement]
    exact if_pos hPc
  granted := by
    intro e he a hCall hPc
    have hThree : e.pc = 3 := by
      rw [hPc, hCall]
      rfl
    have hArgs : e.call.claimArgs? = some a := by
      rw [hCall]
      rfl
    rcases (sessions_sound hReach e he).claimWrites a hArgs
      with hNone | ⟨old, hOld, hPending, _, hWrites⟩
    · exact absurd hNone
        (sessions_claimLimited hReach e he a tenantId limit
          hCall hThree)
    · exact ⟨old, hOld, hPending, hWrites⟩
  exclusive := claims_exclusive hReach
  claimed := fun c hc => (history_lawful hReach c hc).claims

/- A call that obeys the sample tenant's cap of one. -/
def Sample.capped (call : Call) : Bool :=
  call.claimArgs?.all
    (fun a => decide (call = .tryClaimLimited a 1 1))

/-
  Two capped claims overlap; the second waits for the lock
  and is then refused.
-/
theorem tenant_cap_held_overlap :
    ∃ s, sluice.Reachable s ∧
      (s.db.tenants.find? 1).isSome = true ∧
        Capped 1 1 s ∧ runningCount 1 s.db = 1 ∧
          s.calls.length = 4 ∧ s.sessions.length = 0 ∧
            CapGuaranteed 1 1 s := by
  rcases
    Machine.exists_reachable_of_run Sample.init_start
      ((Call.insertJob (Sample.job 7)).whole ++
        (Call.insertJob (Sample.job 8)).whole ++
          [Label.begin
              (.tryClaimLimited (Sample.claim 7 1) 1 1),
            .begin
              (.tryClaimLimited (Sample.claim 8 2) 1 1),
            .statement 1 id, .statement 1 id,
            .statement 1 id, .commit 1,
            .statement 0 id, .statement 0 id])
      (fun s =>
        (s.db.tenants.find? 1).isSome = true ∧
          (∀ call ∈ s.calls, Sample.capped call = true) ∧
            runningCount 1 s.db = 1 ∧ s.calls.length = 4 ∧
              s.sessions.length = 0)
      (by decide +kernel)
  with ⟨s, hReach, hTenant, hCalls, hOne, hFour, hDone⟩
  have hCapped : Capped 1 1 s := by
    intro call hCall a hArgs j _ _
    have hObeys := hCalls call hCall
    rw [Sample.capped, hArgs] at hObeys
    simpa using hObeys
  exact ⟨s, hReach, hTenant, hCapped, hOne, hFour, hDone,
    tenant_cap_held hReach hTenant hCapped⟩

end Storage

end Sluice
