import Sluice.Foundations.Machine
import Sluice.Storage.Tenants

/-
  Authentication at one API replica.

  A lookup takes the time, reads the cache, may query
  Postgres, and then writes or deletes the cache entry. Each
  of these is a step of its own, so lookups race with each
  other and with changes of the tenants. An HTTP request
  looks its key up and is answered once. A WebSocket request
  looks its key up once and is then sent snapshots until the
  connection ends.

  Key definitions include:
    * `tenantCacheTTL`
    * `Lookup` and its steps
    * `Session`, `Replica`, `Label`, `step` and `replica`
-/

------------------------------------------------------------
-- Lookups
------------------------------------------------------------

namespace Sluice

namespace Api

open Foundations Storage

def tenantCacheTTL : Time := 10 * second

structure TenantCacheEntry where
  tenant : Tenant
  expires : Time
deriving DecidableEq, Repr

/- The entries by digest of the API key. -/
abbrev TenantCache := String → Option TenantCacheEntry

/-
  How far a lookup is: it has the time; it has found no entry
  that it may use, where `ok` tells that there was one; it
  has the answer of Postgres; it has returned.
-/
inductive LookupPhase
| started
| missed (ok : Bool)
| queried (answer : Option Tenant) (ok : Bool)
| returned (result : Option Tenant)
deriving DecidableEq, Repr

/- A call of `lookup` for a key with the digest `hash`. -/
structure Lookup where
  hash : String
  now : Time
  phase : LookupPhase
deriving DecidableEq, Repr

namespace Lookup

/- `if ok && now.Before(e.expires)`. -/
def readEntry
    (cache : TenantCache)
    (l : Lookup) :
    Option Lookup :=
  match l.phase with
  | .started =>
      match cache l.hash with
      | some e =>
          if l.now < e.expires then
            some { l with phase := .returned (some e.tenant) }
          else some { l with phase := .missed true }
      | none => some { l with phase := .missed false }
  | _ => none

/- The query may fail for other reasons than no row. -/
def query
    (tenants : Table Tenant)
    (fails : Bool)
    (l : Lookup) :
    Option Lookup :=
  match l.phase with
  | .missed ok =>
      let answer :=
        if fails then none
        else getTenantByAPIKey l.hash tenants
      some { l with phase := .queried answer ok }
  | _ => none

/- An error deletes the entry that had been found. -/
def finish
    (cache : TenantCache)
    (l : Lookup) :
    Option (Lookup × TenantCache) :=
  match l.phase with
  | .queried (some t) _ =>
      some
        ({ l with phase := .returned (some t) },
          Function.update cache l.hash
            (some ⟨t, l.now + tenantCacheTTL⟩))
  | .queried none ok =>
      some
        ({ l with phase := .returned none },
          if ok then Function.update cache l.hash none
          else cache)
  | _ => none

/- The tenant that the caller goes on with. -/
def tenant? (l : Lookup) : Option Tenant :=
  match l.phase with
  | .returned result => result
  | _ => none

end Lookup

------------------------------------------------------------
-- Requests
------------------------------------------------------------

inductive Kind
| http
| webSocket
deriving DecidableEq, Repr

/- A request; `upgraded` tells that it has a WebSocket. -/
structure Session where
  kind : Kind
  lookup : Lookup
  upgraded : Bool
deriving DecidableEq, Repr

/-
  Tenant data that was sent at time `at_` for a request that
  was looked up at time `lookedUp`. `invalidSince` tells since
  when no active tenant had the key.
-/
structure Sent where
  kind : Kind
  hash : String
  lookedUp : Time
  at_ : Time
  invalidSince : Option Time
deriving DecidableEq, Repr

/-
  A replica and the database. `invalidSince` and `sent` record
  what happened.
-/
structure Replica where
  tenants : Table Tenant
  clock : Time
  cache : TenantCache
  sessions : List Session
  invalidSince : String → Option Time
  sent : List Sent

/-
  `close` ends a request: its key is refused, its client has
  gone, or a call fails.
-/
inductive Label
| request (kind : Kind) (apiKey : String)
| readEntry (i : Nat)
| query (i : Nat) (fails : Bool)
| finish (i : Nat)
| upgrade (i : Nat)
| answer (i : Nat)
| snapshot (i : Nat)
| close (i : Nat)
| change (c : TenantChange)
| tick (n : Nat)

/- Since when a key is not valid, after a change at `clock`. -/
def reviseInvalid
    (clock : Time)
    (tenants : Table Tenant)
    (since : String → Option Time) :
    String → Option Time :=
  fun hash =>
    match getTenantByAPIKey hash tenants with
    | some _ => none
    | none => some ((since hash).getD clock)

namespace Replica

/- Replace the lookup of a session. -/
def setLookup
    (i : Nat)
    (session : Session)
    (l : Lookup)
    (s : Replica) :
    Replica :=
  { s with
    sessions := s.sessions.set i { session with lookup := l } }

/- Send tenant data for an authenticated request. -/
def send (session : Session) (s : Replica) : Replica :=
  { s with
    sent :=
      { kind := session.kind
        hash := session.lookup.hash
        lookedUp := session.lookup.now
        at_ := s.clock
        invalidSince :=
          s.invalidSince session.lookup.hash } ::
        s.sent }

def readEntry (i : Nat) (s : Replica) : Option Replica :=
  match s.sessions[i]? with
  | none => none
  | some session =>
      (session.lookup.readEntry s.cache).map
        (fun l => s.setLookup i session l)

def query
    (i : Nat)
    (fails : Bool)
    (s : Replica) :
    Option Replica :=
  match s.sessions[i]? with
  | none => none
  | some session =>
      (session.lookup.query s.tenants fails).map
        (fun l => s.setLookup i session l)

def finish (i : Nat) (s : Replica) : Option Replica :=
  match s.sessions[i]? with
  | none => none
  | some session =>
      (session.lookup.finish s.cache).map
        (fun p =>
          { s.setLookup i session p.1 with cache := p.2 })

/- Only an authenticated WebSocket request is upgraded. -/
def upgrade (i : Nat) (s : Replica) : Option Replica :=
  match s.sessions[i]? with
  | none => none
  | some session =>
      if
        session.kind = .webSocket ∧
          session.lookup.tenant?.isSome = true
      then
        some
          { s with
            sessions :=
              s.sessions.set i
                { session with upgraded := true } }
      else none

/- The answer to an HTTP request ends it. -/
def answer (i : Nat) (s : Replica) : Option Replica :=
  match s.sessions[i]? with
  | none => none
  | some session =>
      if
        session.kind = .http ∧
          session.lookup.tenant?.isSome = true
      then
        some
          { s.send session with
            sessions := s.sessions.eraseIdx i }
      else none

/- Snapshots go on until the connection ends. -/
def snapshot (i : Nat) (s : Replica) : Option Replica :=
  match s.sessions[i]? with
  | none => none
  | some session =>
      if
        session.kind = .webSocket ∧
          session.upgraded = true ∧
            session.lookup.tenant?.isSome = true
      then some (s.send session)
      else none

end Replica

variable (hashAPIKey : String → String)

def step : Label → Replica → Option Replica
| .request kind apiKey, s =>
    if apiKey = "" then none
    else
      some
        { s with
          sessions :=
            s.sessions ++
              [⟨kind, ⟨hashAPIKey apiKey, s.clock, .started⟩,
                false⟩] }
| .readEntry i, s => s.readEntry i
| .query i fails, s => s.query i fails
| .finish i, s => s.finish i
| .upgrade i, s => s.upgrade i
| .answer i, s => s.answer i
| .snapshot i, s => s.snapshot i
| .close i, s =>
    some { s with sessions := s.sessions.eraseIdx i }
| .change c, s =>
    (c.perform s.tenants).map
      (fun tenants =>
        { s with
          tenants := tenants
          invalidSince :=
            reviseInvalid s.clock tenants s.invalidSince })
| .tick n, s => some { s with clock := s.clock + n }

/- A replica that has just started. -/
def init (s : Replica) : Prop :=
  s.cache = (fun _ => none) ∧ s.sessions = [] ∧
    s.sent = [] ∧
      s.invalidSince =
        reviseInvalid s.clock s.tenants (fun _ => none)

def replica : Machine Replica Label where
  init := init
  step := step hashAPIKey

end Api

end Sluice
