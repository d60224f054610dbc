import Sluice.Api.TenantCache

/-
  How long a revoked key keeps working.

  A key is revoked when its tenant is disabled or its key is
  rotated: from then on no active tenant has it. Lookups stop
  finding the tenant within `tenantCacheTTL`, because an entry
  expires that long after the start of the lookup that wrote
  it. A WebSocket is looked up only once, and goes on.

  Key definitions include:
    * `RevocationHolds`
    * `socketsEnd`

  Key theorems include:
    * `revocation_holds_when_sockets_end`
    * `socket_outlives_revocation`
-/

------------------------------------------------------------
-- What Is Expected
------------------------------------------------------------

namespace Sluice

namespace Api

open Foundations Storage

/-
  Tenant data that is sent later than `tenantCacheTTL` after
  the key has been revoked is in the answer to an HTTP request
  that was looked up before that time.
-/
def RevocationHolds (s : Replica) : Prop :=
  ∀ d ∈ s.sent, ∀ r, d.invalidSince = some r →
    r + tenantCacheTTL < d.at_ →
      d.kind = .http ∧ d.lookedUp < r + tenantCacheTTL

/-
  Time passes the end of the grace period of a revoked key
  only when the WebSocket requests that began before it are
  over.
-/
def socketsEnd (s : Replica) : Label → Bool
| .tick n =>
    s.sessions.all
      (fun session =>
        session.kind ≠ .webSocket ||
          (s.invalidSince session.lookup.hash).all
            (fun r =>
              decide
                (session.lookup.now < r + tenantCacheTTL →
                  s.clock + n ≤ r + tenantCacheTTL)))
| _ => true

------------------------------------------------------------
-- The Steps Of A Lookup
------------------------------------------------------------

theorem tenantCacheTTL_pos : (0 : Int) < tenantCacheTTL := by
  decide

namespace Lookup

variable {cache cache' : TenantCache}
variable {l l' : Lookup}

/- A lookup keeps its key and its time. -/
def Continues (l l' : Lookup) : Prop :=
  l'.hash = l.hash ∧ l'.now = l.now

theorem readEntry_eq_some
    (hRead : l.readEntry cache = some l') :
    l.Continues l' ∧
      ((∃ ok, l'.phase = .missed ok) ∨
        ∃ e, cache l.hash = some e ∧ l.now < e.expires ∧
          l'.phase = .returned (some e.tenant)) := by
  unfold readEntry at hRead
  split at hRead
  · split at hRead
    · rename_i e hEntry
      split at hRead
      · rename_i hFresh
        cases hRead
        exact ⟨⟨rfl, rfl⟩, .inr ⟨e, hEntry, hFresh, rfl⟩⟩
      · cases hRead
        exact ⟨⟨rfl, rfl⟩, .inl ⟨true, rfl⟩⟩
    · cases hRead
      exact ⟨⟨rfl, rfl⟩, .inl ⟨false, rfl⟩⟩
  · cases hRead

theorem query_eq_some
    {tenants : Table Tenant}
    {fails : Bool}
    (hQuery : l.query tenants fails = some l') :
    l.Continues l' ∧
      ∃ answer ok, l'.phase = .queried answer ok ∧
        ∀ t, answer = some t →
          getTenantByAPIKey l.hash tenants = some t := by
  unfold query at hQuery
  split at hQuery
  · cases hQuery
    refine ⟨⟨rfl, rfl⟩, _, _, rfl, ?_⟩
    intro t hAnswer
    cases fails with
    | true => cases hAnswer
    | false => exact hAnswer
  · cases hQuery

theorem finish_eq_some
    (hFinish : l.finish cache = some (l', cache')) :
    l.Continues l' ∧
      ((∃ t ok, l.phase = .queried (some t) ok ∧
          l'.phase = .returned (some t) ∧
            cache' =
              Function.update cache l.hash
                (some ⟨t, l.now + tenantCacheTTL⟩)) ∨
        (l'.phase = .returned none ∧
          ∀ hash e, cache' hash = some e →
            cache hash = some e)) := by
  unfold finish at hFinish
  split at hFinish
  · rename_i t ok hPhase
    cases hFinish
    exact ⟨⟨rfl, rfl⟩, .inl ⟨t, ok, hPhase, rfl, rfl⟩⟩
  · rename_i ok hPhase
    cases hFinish
    refine ⟨⟨rfl, rfl⟩, .inr ⟨rfl, ?_⟩⟩
    intro hash e hEntry
    cases ok with
    | false => exact hEntry
    | true =>
        by_cases hSame : hash = l.hash
        · rw [hSame] at hEntry
          simp at hEntry
        · simpa [Function.update_of_ne hSame] using hEntry
  · cases hFinish

end Lookup

------------------------------------------------------------
-- The Steps Of A Session
------------------------------------------------------------

namespace Replica

variable {s s' : Replica}
variable {i : Nat}

theorem readEntry_eq_some
    (hStep : s.readEntry i = some s') :
    ∃ session l, s.sessions[i]? = some session ∧
      session.lookup.readEntry s.cache = some l ∧
        s' = s.setLookup i session l := by
  unfold readEntry at hStep
  split at hStep
  · cases hStep
  rename_i session hGet
  rcases Option.map_eq_some_iff.mp hStep with
    ⟨l, hRead, hNew⟩
  exact ⟨session, l, hGet, hRead, hNew.symm⟩

theorem query_eq_some
    {fails : Bool}
    (hStep : s.query i fails = some s') :
    ∃ session l, s.sessions[i]? = some session ∧
      session.lookup.query s.tenants fails = some l ∧
        s' = s.setLookup i session l := by
  unfold query at hStep
  split at hStep
  · cases hStep
  rename_i session hGet
  rcases Option.map_eq_some_iff.mp hStep with
    ⟨l, hQuery, hNew⟩
  exact ⟨session, l, hGet, hQuery, hNew.symm⟩

theorem finish_eq_some
    (hStep : s.finish i = some s') :
    ∃ session l cache, s.sessions[i]? = some session ∧
      session.lookup.finish s.cache = some (l, cache) ∧
        s' =
          { s.setLookup i session l with cache := cache } := by
  unfold finish at hStep
  split at hStep
  · cases hStep
  rename_i session hGet
  rcases Option.map_eq_some_iff.mp hStep with
    ⟨⟨l, cache⟩, hFinish, hNew⟩
  exact ⟨session, l, cache, hGet, hFinish, hNew.symm⟩

/- An upgrade changes no lookup. -/
theorem upgrade_eq_some
    (hStep : s.upgrade i = some s') :
    ∃ sessions, s' = { s with sessions := sessions } ∧
      ∀ x ∈ sessions, ∃ y ∈ s.sessions,
        x.kind = y.kind ∧ x.lookup = y.lookup := by
  unfold upgrade at hStep
  split at hStep
  · cases hStep
  rename_i session hGet
  split at hStep
  · cases hStep
    refine ⟨_, rfl, ?_⟩
    intro x hx
    rcases List.mem_or_eq_of_mem_set hx with hOld | hNew
    · exact ⟨x, hOld, rfl, rfl⟩
    · rw [hNew]
      exact ⟨session, List.mem_of_getElem? hGet, rfl, rfl⟩
  · cases hStep

theorem answer_eq_some
    (hStep : s.answer i = some s') :
    ∃ session ∈ s.sessions,
      session.lookup.tenant?.isSome = true ∧
        s' =
          { s.send session with
            sessions := s.sessions.eraseIdx i } := by
  unfold answer at hStep
  split at hStep
  · cases hStep
  rename_i session hGet
  split at hStep
  · rename_i hAuth
    cases hStep
    exact ⟨session, List.mem_of_getElem? hGet, hAuth.2, rfl⟩
  · cases hStep

theorem snapshot_eq_some
    (hStep : s.snapshot i = some s') :
    ∃ session ∈ s.sessions,
      session.lookup.tenant?.isSome = true ∧
        s' = s.send session := by
  unfold snapshot at hStep
  split at hStep
  · cases hStep
  rename_i session hGet
  split at hStep
  · rename_i hAuth
    cases hStep
    exact ⟨session, List.mem_of_getElem? hGet, hAuth.2.2,
      rfl⟩
  · cases hStep

end Replica

------------------------------------------------------------
-- Lookups Of Revoked Keys
------------------------------------------------------------

/-
  What a lookup knows of a key that is not valid any more: it
  has asked Postgres before the key was revoked, or it has
  begun before the grace period was over.
-/
structure LookupSound
    (clock : Time)
    (invalidSince : String → Option Time)
    (l : Lookup) :
    Prop where
  begun : l.now ≤ clock
  queried :
    ∀ t ok, l.phase = .queried (some t) ok →
      ∀ r, invalidSince l.hash = some r → l.now ≤ r
  returned :
    ∀ t, l.phase = .returned (some t) →
      ∀ r, invalidSince l.hash = some r →
        l.now < r + tenantCacheTTL

structure Inv (s : Replica) : Prop where
  valid :
    ∀ hash t, getTenantByAPIKey hash s.tenants = some t →
      s.invalidSince hash = none
  entries :
    ∀ hash e, s.cache hash = some e →
      e.expires ≤ s.clock + tenantCacheTTL ∧
        ∀ r, s.invalidSince hash = some r →
          e.expires ≤ r + tenantCacheTTL
  lookups :
    ∀ x ∈ s.sessions,
      LookupSound s.clock s.invalidSince x.lookup
  sent :
    ∀ d ∈ s.sent, ∀ r, d.invalidSince = some r →
      d.lookedUp < r + tenantCacheTTL

section

variable {s s' : Replica}
variable {clock : Time}
variable {since : String → Option Time}
variable {l : Lookup}
variable {tenants : Table Tenant}
variable {i : Nat}

/- A lookup that returned a tenant. -/
theorem LookupSound.of_tenant
    (hSound : LookupSound clock since l)
    (hTenant : l.tenant?.isSome = true)
    {r : Time}
    (hSince : since l.hash = some r) :
    l.now < r + tenantCacheTTL := by
  unfold Lookup.tenant? at hTenant
  split at hTenant
  · rename_i result hPhase
    rcases Option.isSome_iff_exists.mp hTenant with ⟨t, hSome⟩
    rw [hSome] at hPhase
    exact hSound.returned t hPhase r hSince
  · cases hTenant

/-
  A key that is revoked by a change is revoked now; all other
  keys keep their time.
-/
theorem reviseInvalid_eq_some
    {hash : String}
    {r : Time}
    (hSince :
      reviseInvalid clock tenants since hash = some r) :
    since hash = some r ∨ r = clock := by
  unfold reviseInvalid at hSince
  split at hSince
  · cases hSince
  · have hEq := Option.some.inj hSince
    cases hOld : since hash with
    | none =>
        rw [hOld] at hEq
        exact .inr hEq.symm
    | some r' =>
        rw [hOld] at hEq
        exact .inl (congrArg some hEq)

theorem lt_add_tenantCacheTTL
    (t : Time) :
    t < t + tenantCacheTTL :=
  Int.lt_add_of_pos_right t tenantCacheTTL_pos

theorem LookupSound.revise
    (hSound : LookupSound clock since l) :
    LookupSound clock (reviseInvalid clock tenants since) l where
  begun := hSound.begun
  queried := by
    intro t ok hPhase r hSince
    rcases reviseInvalid_eq_some hSince with hOld | hNow
    · exact hSound.queried t ok hPhase r hOld
    · rw [hNow]
      exact hSound.begun
  returned := by
    intro t hPhase r hSince
    rcases reviseInvalid_eq_some hSince with hOld | hNow
    · exact hSound.returned t hPhase r hOld
    · rw [hNow]
      exact Int.lt_of_le_of_lt hSound.begun
        (lt_add_tenantCacheTTL clock)

/- Replacing the lookup of one session. -/
theorem Inv.setLookup
    {session : Session}
    (hInv : Inv s)
    (hSound : LookupSound s.clock s.invalidSince l) :
    Inv (s.setLookup i session l) where
  valid := hInv.valid
  entries := hInv.entries
  lookups := by
    intro x hx
    rcases List.mem_or_eq_of_mem_set hx with hOld | hNew
    · exact hInv.lookups x hOld
    · rw [hNew]
      exact hSound
  sent := hInv.sent

theorem Inv.readEntry
    (hInv : Inv s)
    (hStep : s.readEntry i = some s') :
    Inv s' := by
  rcases Replica.readEntry_eq_some hStep with
    ⟨session, l, hGet, hRead, hNew⟩
  subst hNew
  have hMem := List.mem_of_getElem? hGet
  have hSound := hInv.lookups session hMem
  rcases Lookup.readEntry_eq_some hRead with
    ⟨⟨hHash, hNow⟩, hPhase⟩
  apply hInv.setLookup
  refine ⟨?_, ?_, ?_⟩
  · rw [hNow]
    exact hSound.begun
  · intro t ok hQueried
    rcases hPhase with ⟨_, hMissed⟩ | ⟨_, _, _, hReturned⟩
    · rw [hMissed] at hQueried
      cases hQueried
    · rw [hReturned] at hQueried
      cases hQueried
  · intro t hReturned r hSince
    rcases hPhase with ⟨_, hMissed⟩ | ⟨e, hEntry, hFresh, _⟩
    · rw [hMissed] at hReturned
      cases hReturned
    · rw [hHash] at hSince
      rw [hNow]
      exact Int.lt_of_lt_of_le hFresh
        ((hInv.entries _ e hEntry).2 r hSince)

/- An answer of Postgres means that the key is valid now. -/
theorem Inv.query
    {fails : Bool}
    (hInv : Inv s)
    (hStep : s.query i fails = some s') :
    Inv s' := by
  rcases Replica.query_eq_some hStep with
    ⟨session, l, hGet, hQuery, hNew⟩
  subst hNew
  have hMem := List.mem_of_getElem? hGet
  have hSound := hInv.lookups session hMem
  rcases Lookup.query_eq_some hQuery with
    ⟨⟨hHash, hNow⟩, answer, ok, hPhase, hAnswer⟩
  apply hInv.setLookup
  refine ⟨?_, ?_, ?_⟩
  · rw [hNow]
    exact hSound.begun
  · intro t ok' hQueried r hSince
    rw [hPhase] at hQueried
    cases hQueried
    have hValid := hInv.valid _ t (hAnswer t rfl)
    rw [hHash, hValid] at hSince
    cases hSince
  · intro t hReturned
    rw [hPhase] at hReturned
    cases hReturned

theorem Inv.finish
    (hInv : Inv s)
    (hStep : s.finish i = some s') :
    Inv s' := by
  rcases Replica.finish_eq_some hStep with
    ⟨session, l, cache, hGet, hFinish, hNew⟩
  subst hNew
  have hMem := List.mem_of_getElem? hGet
  have hSound := hInv.lookups session hMem
  rcases Lookup.finish_eq_some hFinish with
    ⟨⟨hHash, hNow⟩, hCases⟩
  have hNewSound : LookupSound s.clock s.invalidSince l := by
    refine ⟨?_, ?_, ?_⟩
    · rw [hNow]
      exact hSound.begun
    · intro t ok hQueried
      rcases hCases with ⟨_, _, _, hReturned, _⟩ |
        ⟨hReturned, _⟩ <;>
      · rw [hReturned] at hQueried
        cases hQueried
    · intro t hReturned r hSince
      rcases hCases with ⟨t', ok, hQueried, _, _⟩ |
        ⟨hNone, _⟩
      · rw [hHash] at hSince
        rw [hNow]
        exact Int.lt_of_le_of_lt
          (hSound.queried t' ok hQueried r hSince)
          (lt_add_tenantCacheTTL r)
      · rw [hNone] at hReturned
        cases hReturned
  have hSet : Inv (s.setLookup i session l) :=
    hInv.setLookup hNewSound
  refine { hSet with entries := ?_ }
  intro hash e hEntry
  rcases hCases with ⟨t, ok, hQueried, _, hCache⟩ |
    ⟨_, hKept⟩
  · change cache hash = some e at hEntry
    rw [hCache] at hEntry
    by_cases hSame : hash = session.lookup.hash
    · rw [hSame, Function.update_self] at hEntry
      rw [← Option.some.inj hEntry]
      refine ⟨Int.add_le_add_right hSound.begun _, ?_⟩
      intro r hSince
      rw [hSame] at hSince
      exact Int.add_le_add_right
        (hSound.queried t ok hQueried r hSince) _
    · rw [Function.update_of_ne hSame] at hEntry
      exact hInv.entries hash e hEntry
  · exact hInv.entries hash e (hKept hash e hEntry)

/- Sending to an authenticated session. -/
theorem Inv.send
    {session : Session}
    (hInv : Inv s)
    (hMem : session ∈ s.sessions)
    (hTenant : session.lookup.tenant?.isSome = true) :
    Inv (s.send session) where
  valid := hInv.valid
  entries := hInv.entries
  lookups := hInv.lookups
  sent := by
    intro d hd r hSince
    rcases List.mem_cons.mp hd with hNew | hOld
    · rw [hNew] at hSince ⊢
      exact (hInv.lookups session hMem).of_tenant hTenant
        hSince
    · exact hInv.sent d hOld r hSince

/- Sessions that only go, or change their connection. -/
theorem Inv.withSessions
    {sessions : List Session}
    (hInv : Inv s)
    (hLookups :
      ∀ x ∈ sessions, ∃ y ∈ s.sessions,
        x.lookup = y.lookup) :
    Inv { s with sessions := sessions } where
  valid := hInv.valid
  entries := hInv.entries
  lookups := by
    intro x hx
    rcases hLookups x hx with ⟨y, hy, hSame⟩
    rw [hSame]
    exact hInv.lookups y hy
  sent := hInv.sent

theorem Inv.change
    (hInv : Inv s) :
    Inv
      { s with
        tenants := tenants
        invalidSince :=
          reviseInvalid s.clock tenants s.invalidSince } where
  valid := by
    intro hash t hFound
    change reviseInvalid s.clock tenants s.invalidSince hash = _
    unfold reviseInvalid
    rw [hFound]
  entries := by
    intro hash e hEntry
    rcases hInv.entries hash e hEntry with ⟨hSoon, hOld⟩
    refine ⟨hSoon, ?_⟩
    intro r hSince
    rcases reviseInvalid_eq_some hSince with hSame | hNow
    · exact hOld r hSame
    · rw [hNow]
      exact hSoon
  lookups := fun x hx => (hInv.lookups x hx).revise
  sent := hInv.sent

theorem Inv.tick
    (hInv : Inv s)
    (n : Nat) :
    Inv { s with clock := s.clock + n } where
  valid := hInv.valid
  entries := by
    intro hash e hEntry
    rcases hInv.entries hash e hEntry with ⟨hSoon, hOld⟩
    refine ⟨Int.le_trans hSoon ?_, hOld⟩
    exact Int.add_le_add_right
      (Int.le_add_of_nonneg_right (Int.natCast_nonneg n)) _
  lookups := by
    intro x hx
    have hSound := hInv.lookups x hx
    exact
      ⟨Int.le_trans hSound.begun
          (Int.le_add_of_nonneg_right (Int.natCast_nonneg n)),
        hSound.queried, hSound.returned⟩
  sent := hInv.sent

/- One step of any party. -/
theorem Inv.step
    {hashAPIKey : String → String}
    {label : Label}
    (hInv : Inv s)
    (hStep : Api.step hashAPIKey label s = some s') :
    Inv s' := by
  cases label with
  | request kind apiKey =>
      simp only [Api.step] at hStep
      split at hStep
      · cases hStep
      · cases hStep
        refine { hInv with lookups := ?_ }
        intro x hx
        rcases List.mem_append.mp hx with hOld | hNew
        · exact hInv.lookups x hOld
        · rw [List.mem_singleton.mp hNew]
          refine ⟨Int.le_refl _, ?_, ?_⟩
          · intro t ok hPhase
            cases hPhase
          · intro t hPhase
            cases hPhase
  | readEntry i => exact hInv.readEntry hStep
  | query i fails => exact hInv.query hStep
  | finish i => exact hInv.finish hStep
  | upgrade i =>
      rcases Replica.upgrade_eq_some hStep with
        ⟨sessions, hNew, hFrom⟩
      subst hNew
      apply hInv.withSessions
      intro x hx
      rcases hFrom x hx with ⟨y, hy, _, hSame⟩
      exact ⟨y, hy, hSame⟩
  | answer i =>
      rcases Replica.answer_eq_some hStep with
        ⟨session, hMem, hTenant, hNew⟩
      subst hNew
      apply (hInv.send hMem hTenant).withSessions
      intro x hx
      exact ⟨x, List.mem_of_mem_eraseIdx hx, rfl⟩
  | snapshot i =>
      rcases Replica.snapshot_eq_some hStep with
        ⟨session, hMem, hTenant, hNew⟩
      subst hNew
      exact hInv.send hMem hTenant
  | close i =>
      cases hStep
      apply hInv.withSessions
      intro x hx
      exact ⟨x, List.mem_of_mem_eraseIdx hx, rfl⟩
  | change c =>
      rcases Option.map_eq_some_iff.mp hStep with
        ⟨tenants, _, hNew⟩
      subst hNew
      exact hInv.change
  | tick n =>
      cases hStep
      exact hInv.tick n

theorem inv_of_init
    (hInit : init s) :
    Inv s := by
  rcases hInit with ⟨hCache, hSessions, hSent, hSince⟩
  refine ⟨?_, ?_, ?_, ?_⟩
  · intro hash t hFound
    rw [hSince]
    unfold reviseInvalid
    rw [hFound]
  · intro hash e hEntry
    rw [hCache] at hEntry
    cases hEntry
  · intro x hx
    rw [hSessions] at hx
    cases hx
  · intro d hd
    rw [hSent] at hd
    cases hd

end

------------------------------------------------------------
-- WebSockets
------------------------------------------------------------

/-
  No WebSocket request that began in the grace period of a
  revoked key is still there after it.
-/
structure SocketsOver (s : Replica) : Prop where
  open_ :
    ∀ x ∈ s.sessions, x.kind = .webSocket →
      ∀ r, s.invalidSince x.lookup.hash = some r →
        x.lookup.now < r + tenantCacheTTL →
          s.clock ≤ r + tenantCacheTTL
  sent :
    ∀ d ∈ s.sent, d.kind = .webSocket →
      ∀ r, d.invalidSince = some r →
        d.at_ ≤ r + tenantCacheTTL

variable {s s' : Replica}

/- Steps that keep the kind, key and time of sessions. -/
theorem SocketsOver.withSessions
    {sessions : List Session}
    {cache : TenantCache}
    (hOver : SocketsOver s)
    (hFrom :
      ∀ x ∈ sessions, ∃ y ∈ s.sessions,
        x.kind = y.kind ∧ y.lookup.Continues x.lookup) :
    SocketsOver
      { s with sessions := sessions, cache := cache } where
  open_ := by
    intro x hx hKind r hSince hBegun
    rcases hFrom x hx with ⟨y, hy, hSame, hHash, hNow⟩
    change s.invalidSince x.lookup.hash = some r at hSince
    rw [hHash] at hSince
    rw [hNow] at hBegun
    exact hOver.open_ y hy (hSame.symm.trans hKind) r hSince
      hBegun
  sent := hOver.sent

theorem SocketsOver.setLookup
    {i : Nat}
    {session : Session}
    {l : Lookup}
    {cache : TenantCache}
    (hOver : SocketsOver s)
    (hMem : session ∈ s.sessions)
    (hContinues : session.lookup.Continues l) :
    SocketsOver
      { s.setLookup i session l with cache := cache } := by
  apply hOver.withSessions
  intro x hx
  rcases List.mem_or_eq_of_mem_set hx with hOld | hNew
  · exact ⟨x, hOld, rfl, rfl, rfl⟩
  · rw [hNew]
    exact ⟨session, hMem, rfl, hContinues⟩

/- An authenticated WebSocket began in the grace period. -/
theorem SocketsOver.send
    {session : Session}
    (hInv : Inv s)
    (hOver : SocketsOver s)
    (hMem : session ∈ s.sessions)
    (hTenant : session.lookup.tenant?.isSome = true) :
    SocketsOver (s.send session) where
  open_ := hOver.open_
  sent := by
    intro d hd hKind r hSince
    rcases List.mem_cons.mp hd with hNew | hOld
    · rw [hNew] at hKind hSince ⊢
      exact hOver.open_ session hMem hKind r hSince
        ((hInv.lookups session hMem).of_tenant hTenant hSince)
    · exact hOver.sent d hOld hKind r hSince

theorem SocketsOver.tick
    {n : Nat}
    (hOver : SocketsOver s)
    (hOk : socketsEnd s (.tick n) = true) :
    SocketsOver { s with clock := s.clock + n } where
  open_ := by
    intro x hx hKind r hSince hBegun
    have hEach := List.all_eq_true.mp hOk x hx
    change s.invalidSince x.lookup.hash = some r at hSince
    rw [hSince] at hEach
    simp only [hKind, ne_eq, not_true_eq_false,
      decide_false, Bool.false_or, Option.all_some,
      decide_eq_true_eq] at hEach
    exact hEach hBegun
  sent := hOver.sent

theorem SocketsOver.step
    {hashAPIKey : String → String}
    {label : Label}
    (hInv : Inv s)
    (hOver : SocketsOver s)
    (hOk : socketsEnd s label = true)
    (hStep : Api.step hashAPIKey label s = some s') :
    SocketsOver s' := by
  cases label with
  | request kind apiKey =>
      simp only [Api.step] at hStep
      split at hStep
      · cases hStep
      · cases hStep
        refine { hOver with open_ := ?_ }
        intro x hx hKind r hSince hBegun
        rcases List.mem_append.mp hx with hOld | hNew
        · exact hOver.open_ x hOld hKind r hSince hBegun
        · rw [List.mem_singleton.mp hNew] at hBegun
          exact Int.le_of_lt hBegun
  | readEntry i =>
      rcases Replica.readEntry_eq_some hStep with
        ⟨session, l, hGet, hRead, hNew⟩
      subst hNew
      have hMem := List.mem_of_getElem? hGet
      exact hOver.setLookup hMem
        (Lookup.readEntry_eq_some hRead).1
  | query i fails =>
      rcases Replica.query_eq_some hStep with
        ⟨session, l, hGet, hQuery, hNew⟩
      subst hNew
      have hMem := List.mem_of_getElem? hGet
      exact hOver.setLookup hMem
        (Lookup.query_eq_some hQuery).1
  | finish i =>
      rcases Replica.finish_eq_some hStep with
        ⟨session, l, cache, hGet, hFinish, hNew⟩
      subst hNew
      have hMem := List.mem_of_getElem? hGet
      exact hOver.setLookup hMem
        (Lookup.finish_eq_some hFinish).1
  | upgrade i =>
      rcases Replica.upgrade_eq_some hStep with
        ⟨sessions, hNew, hFrom⟩
      subst hNew
      apply hOver.withSessions
      intro x hx
      rcases hFrom x hx with ⟨y, hy, hKind, hSame⟩
      rw [hSame]
      exact ⟨y, hy, hKind, rfl, rfl⟩
  | answer i =>
      rcases Replica.answer_eq_some hStep with
        ⟨session, hMem, hTenant, hNew⟩
      subst hNew
      apply (hOver.send hInv hMem hTenant).withSessions
      intro x hx
      exact ⟨x, List.mem_of_mem_eraseIdx hx, rfl, rfl, rfl⟩
  | snapshot i =>
      rcases Replica.snapshot_eq_some hStep with
        ⟨session, hMem, hTenant, hNew⟩
      subst hNew
      exact hOver.send hInv hMem hTenant
  | close i =>
      cases hStep
      apply hOver.withSessions
      intro x hx
      exact ⟨x, List.mem_of_mem_eraseIdx hx, rfl, rfl, rfl⟩
  | change c =>
      rcases Option.map_eq_some_iff.mp hStep with
        ⟨tenants, _, hNew⟩
      subst hNew
      refine ⟨?_, hOver.sent⟩
      intro x hx hKind r hSince hBegun
      rcases reviseInvalid_eq_some hSince with hOld | hNow
      · exact hOver.open_ x hx hKind r hOld hBegun
      · rw [hNow]
        exact Int.le_of_lt (lt_add_tenantCacheTTL s.clock)
  | tick n =>
      cases hStep
      exact hOver.tick hOk

theorem revocationHolds_of_inv
    (hInv : Inv s)
    (hOver : SocketsOver s) :
    RevocationHolds s := by
  intro d hd r hSince hLate
  refine ⟨?_, hInv.sent d hd r hSince⟩
  cases hKind : d.kind with
  | http => rfl
  | webSocket =>
      have hSoon := hOver.sent d hd hKind r hSince
      exact absurd hLate (Int.not_lt.mpr hSoon)

/-
  When WebSocket connections of a revoked key end in time,
  revocation takes effect in every run.
-/
theorem revocation_holds_when_sockets_end
    (hashAPIKey : String → String)
    (s : Replica)
    (hReach :
      (replica hashAPIKey).ReachableWith
        (fun s label => socketsEnd s label = true) s) :
    RevocationHolds s := by
  have hBoth : Inv s ∧ SocketsOver s := by
    refine
      Machine.ReachableWith.invariant
        (I := fun s => Inv s ∧ SocketsOver s) ?_ ?_ hReach
    · intro s hInit
      refine ⟨inv_of_init hInit, ?_, ?_⟩
      · intro x hx
        rw [hInit.2.1] at hx
        cases hx
      · intro d hd
        rw [hInit.2.2.1] at hd
        cases hd
    · intro s label s' _ hBoth hOk hStep
      exact ⟨hBoth.1.step hStep,
        hBoth.2.step hBoth.1 hOk hStep⟩
  exact revocationHolds_of_inv hBoth.1 hBoth.2

------------------------------------------------------------
-- Runs
------------------------------------------------------------

namespace Sample

def tenants : Table Tenant :=
  Table.empty.insert
    { id := 1
      name := "acme"
      apiKeyHash := "sk_1"
      rateLimit := 100
      weight := 100
      status := .active
      webhookSecret := ""
      maxConcurrency := 0 }

/- A replica with one active tenant; digests are the keys. -/
def start : Replica where
  tenants := tenants
  clock := 0
  cache := fun _ => none
  sessions := []
  invalidSince := reviseInvalid 0 tenants (fun _ => none)
  sent := []

theorem init_start :
    (replica (fun key => key)).init start :=
  ⟨rfl, rfl, rfl, rfl⟩

/- A request and its lookup, up to its last step. -/
def lookUp (kind : Kind) (i : Nat) : List Label :=
  [.request kind "sk_1", .readEntry i, .query i false,
    .finish i]

def disable : Label :=
  .change (.setTenantStatus 1 .disabled)

end Sample

/-
  The tenant is disabled while an HTTP request is under way.
  Its answer is late; a WebSocket has ended before, and a
  later request is refused.
-/
theorem late_answer_only_to_earlier_request :
    ∃ s : Replica,
      (s.sent.map Sent.at_ = [11 * second, 0] ∧
        s.sessions.map (fun x => x.lookup.phase) =
          [.returned none]) ∧
        RevocationHolds s := by
  rcases
    Machine.exists_reachableWith_of_run Sample.init_start
      socketsEnd
      (Sample.lookUp .http 0 ++
        [.request .webSocket "sk_1", .readEntry 1,
          .upgrade 1, .snapshot 1, Sample.disable,
          .close 1, .tick 11000000, .answer 0] ++
          Sample.lookUp .webSocket 0)
      (fun s =>
        s.sent.map Sent.at_ = [11 * second, 0] ∧
          s.sessions.map (fun x => x.lookup.phase) =
            [.returned none])
      (by decide +kernel)
  with ⟨s, hReach, hEnd⟩
  exact
    ⟨s, hEnd,
      revocation_holds_when_sockets_end _ s hReach⟩

/-
  A WebSocket that is open when its tenant is disabled is
  sent a snapshot eleven seconds later.
-/
theorem socket_outlives_revocation :
    ∃ s, (replica (fun key => key)).Reachable s ∧
      ¬RevocationHolds s := by
  rcases
    Machine.exists_reachable_of_run Sample.init_start
      (Sample.lookUp .webSocket 0 ++
        [.upgrade 0, Sample.disable, .tick 11000000,
          .snapshot 0])
      (fun s =>
        ∃ d ∈ s.sent,
          d.kind = .webSocket ∧ d.invalidSince = some 0 ∧
            0 + tenantCacheTTL < d.at_)
      (by decide +kernel)
  with ⟨s, hReach, d, hSent, hKind, hSince, hAfter⟩
  refine ⟨s, hReach, ?_⟩
  intro hHolds
  have hHttp := (hHolds d hSent 0 hSince hAfter).1
  rw [hKind] at hHttp
  cases hHttp

end Api

end Sluice
