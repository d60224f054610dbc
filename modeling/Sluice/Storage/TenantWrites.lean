import Sluice.Storage.Tenants

/-
  The writes of table `tenants`, with the errors they give.

  Operators change tenants through the admin API and through
  the command line, with the same statements. PostgreSQL
  keeps `api_key_hash` unique, `max_concurrency` at least 0
  and the three limits within `INT`; that weights are
  positive is left to the callers.

  Key definitions include:
    * `TenantChange.execute`
    * `enableDevTenant`
    * `TenantWrite.execute`
    * `TenantWrite.Yields`
    * `Tenant.Usable`
    * `OneTenantPerKey`
    * `lastKey`

  Key theorems include:
    * `TenantWrite.execute_eq_ok`
    * `TenantWrite.usable_of_execute`
    * `TenantWrite.oneTenantPerKey_of_execute`
    * `TenantWrite.keysMatch_of_execute`
    * `TenantWrite.isSome_find?_of_execute`
-/

------------------------------------------------------------
-- Writes
------------------------------------------------------------

namespace Sluice

namespace Storage

open Foundations

/- `ErrNotFound`, or any other error of a statement. -/
inductive TenantError
| notFound
| failed
deriving DecidableEq, Repr

/- The values of a column of type `INT`. -/
def int4 (n : Int) : Bool :=
  decide (-2147483648 ≤ n) && decide (n ≤ 2147483647)

namespace TenantChange

/- Parameters that do not fit their column are not sent. -/
def encodable : TenantChange → Bool
| .insertTenant t =>
    int4 t.rateLimit && int4 t.weight && int4 t.maxConcurrency
| .updateTenantLimits _ rateLimit weight maxConcurrency =>
    rateLimit.all int4 && weight.all int4 &&
      maxConcurrency.all int4
| _ => true

/- The row that is written. -/
def row : TenantChange → Uuid
| .insertTenant t => t.id
| .setTenantStatus id _ => id
| .updateTenantLimits id _ _ _ => id
| .rotateAPIKey id _ => id
| .rotateWebhookSecret id _ => id

def isInsert : TenantChange → Bool
| .insertTenant _ => true
| _ => false

/-
  An `UPDATE` of no row is `ErrNotFound`. A row that breaks
  a constraint is not written.
-/
def execute
    (tenants : Table Tenant)
    (c : TenantChange) :
    Except TenantError (Table Tenant) :=
  if !c.encodable then .error .failed
  else if !c.isInsert && (tenants.find? c.row).isNone then
    .error .notFound
  else
    match c.perform tenants with
    | none => .error .failed
    | some written =>
        if (written.find? c.row).all
            (fun t => decide (0 ≤ t.maxConcurrency)) then
          .ok written
        else .error .failed

end TenantChange

/- `00000000-0000-0000-0000-000000000001` -/
def devTenantId : Uuid := 1

/- The columns that the statement leaves out have defaults. -/
def devTenant (hash secret : String) : Tenant where
  id := devTenantId
  name := "dev"
  apiKeyHash := hash
  rateLimit := 1000
  weight := 100
  status := .active
  webhookSecret := secret
  maxConcurrency := 0

/-
  `INSERT .. ON CONFLICT (id) DO UPDATE`: a conflict on
  `api_key_hash` with another row is an error.
-/
def enableDevTenant
    (hash secret : String)
    (tenants : Table Tenant) :
    Except TenantError (Table Tenant) :=
  match tenants.find? devTenantId with
  | none =>
      if hashTaken hash tenants then .error .failed
      else .ok (tenants.insert (devTenant hash secret))
  | some row =>
      if tenants.rows.any
          (fun t =>
            t.apiKeyHash = hash && t.id ≠ devTenantId) then
        .error .failed
      else
        .ok
          (tenants.put
            { row with
              status := .active
              apiKeyHash := hash })

inductive TenantWrite
| change (c : TenantChange)
| enableDevTenant (hash secret : String)
deriving DecidableEq, Repr

namespace TenantWrite

def execute
    (tenants : Table Tenant) :
    TenantWrite → Except TenantError (Table Tenant)
| .change c => c.execute tenants
| .enableDevTenant hash secret =>
    Storage.enableDevTenant hash secret tenants

/- The digest that a write gives to a tenant, if any. -/
def gives : TenantWrite → Option (Uuid × String)
| .change (.insertTenant t) => some (t.id, t.apiKeyHash)
| .change (.rotateAPIKey id hash) => some (id, hash)
| .change _ => none
| .enableDevTenant hash _ => some (devTenantId, hash)

/-
  The row that a write makes of the row with its identifier,
  or of none.
-/
def Yields :
    TenantWrite → Option Tenant → Tenant → Prop
| .change (.insertTenant t), none, new =>
    new = { t with status := .active }
| .change (.setTenantStatus id status), some old, new =>
    old.id = id ∧ new = { old with status := status }
| .change (.updateTenantLimits id rateLimit weight maxConc),
    some old, new =>
    old.id = id ∧
      new =
        { old with
          rateLimit := rateLimit.getD old.rateLimit
          weight := weight.getD old.weight
          maxConcurrency :=
            maxConc.getD old.maxConcurrency }
| .change (.rotateAPIKey id hash), some old, new =>
    old.id = id ∧ new = { old with apiKeyHash := hash }
| .change (.rotateWebhookSecret id secret), some old, new =>
    old.id = id ∧ new = { old with webhookSecret := secret }
| .enableDevTenant hash secret, none, new =>
    new = devTenant hash secret
| .enableDevTenant hash _, some old, new =>
    old.id = devTenantId ∧
      new =
        { old with status := .active, apiKeyHash := hash }
| _, _, _ => False

/- Parameters that fit their columns. -/
def Fits : TenantWrite → Prop
| .change c => c.encodable = true
| .enableDevTenant _ _ => True

/- One row is new, and all others are as they were. -/
structure Leaves
    (w : TenantWrite)
    (tenants tenants' : Table Tenant)
    (new : Tenant) : Prop where
  yields : w.Yields (tenants.find? new.id) new
  fits : w.Fits
  maxConcurrency :
    ∀ c, w = .change c → 0 ≤ new.maxConcurrency
  unused :
    ∀ key, w.gives = some key →
      ∀ t ∈ tenants.rows, t.apiKeyHash = key.2 →
        t.id = new.id
  rows :
    ∀ t, t ∈ tenants'.rows ↔
      (t ∈ tenants.rows ∧ t.id ≠ new.id) ∨ t = new

end TenantWrite

------------------------------------------------------------
-- What A Write Does
------------------------------------------------------------

section

variable {tenants tenants' : Table Tenant}

theorem mem_put_tenant
    {old new : Tenant}
    (hOld : tenants.find? new.id = some old)
    (t : Tenant) :
    t ∈ (tenants.put new).rows ↔
      (t ∈ tenants.rows ∧ t.id ≠ new.id) ∨ t = new := by
  have hThere :
      ∃ old ∈ tenants.rows, Keyed.key old = Keyed.key new :=
    ⟨old, Table.mem_of_find? hOld, Table.key_of_find? hOld⟩
  rw [Table.mem_put_iff]
  simp only [hThere, and_true]
  exact Iff.rfl

theorem mem_insert_tenant
    {new : Tenant}
    (hNone : tenants.find? new.id = none)
    (t : Tenant) :
    t ∈ (tenants.insert new).rows ↔
      (t ∈ tenants.rows ∧ t.id ≠ new.id) ∨ t = new := by
  rw [Table.mem_insert_iff hNone]
  have hOther :
      ∀ r ∈ tenants.rows, r.id ≠ new.id :=
    Table.find?_eq_none_iff.mp hNone
  constructor
  · rintro (hMem | hNew)
    · exact .inl ⟨hMem, hOther t hMem⟩
    · exact .inr hNew
  · rintro (⟨hMem, _⟩ | hNew)
    · exact .inl hMem
    · exact .inr hNew

theorem hash_ne_of_not_taken
    {hash : String}
    (hFree : hashTaken hash tenants = false)
    {t : Tenant}
    (hMem : t ∈ tenants.rows) :
    t.apiKeyHash ≠ hash := by
  intro hSame
  have hTaken : hashTaken hash tenants = true :=
    List.any_eq_true.mpr ⟨t, hMem, by simp [hSame]⟩
  rw [hFree] at hTaken
  cases hTaken

/- What is left of a successful statement. -/
theorem TenantChange.execute_eq_ok
    {c : TenantChange}
    (hOk : c.execute tenants = .ok tenants') :
    c.encodable = true ∧ c.perform tenants = some tenants' ∧
      ∀ t, tenants'.find? c.row = some t →
        0 ≤ t.maxConcurrency := by
  unfold TenantChange.execute at hOk
  split at hOk
  · cases hOk
  · rename_i hFits
    split at hOk
    · cases hOk
    · split at hOk
      · cases hOk
      · rename_i written hPerform
        split at hOk
        · rename_i hAll
          cases hOk
          refine ⟨by simpa using hFits, hPerform, ?_⟩
          intro t hRow
          rw [hRow] at hAll
          simpa using hAll
        · cases hOk

theorem find?_put_self
    {old new : Tenant}
    (hOld : tenants.find? new.id = some old) :
    (tenants.put new).find? new.id = some new := by
  rw [Table.find?_put]
  simp only [Keyed.key, if_true, hOld, Option.map_some]

theorem find?_insert_self
    (new : Tenant)
    (hNone : tenants.find? new.id = none) :
    (tenants.insert new).find? new.id = some new := by
  rw [Table.find?_insert]
  simp only [Keyed.key, hNone, and_self, if_true]

/- An `UPDATE` leaves the row it rewrites. -/
theorem leaves_of_changeTenant
    {c : TenantChange}
    {change : Tenant → Tenant}
    (hOk : changeTenant c.row change tenants = some tenants')
    (hId : ∀ old, (change old).id = old.id)
    (hYields :
      ∀ old, old.id = c.row →
        (TenantWrite.change c).Yields (some old) (change old))
    (hFits : c.encodable = true)
    (hMax :
      ∀ t, tenants'.find? c.row = some t →
        0 ≤ t.maxConcurrency)
    (hFree :
      ∀ key, (TenantWrite.change c).gives = some key →
        hashTaken key.2 tenants = false) :
    ∃ new, (TenantWrite.change c).Leaves tenants tenants'
      new := by
  rcases Option.map_eq_some_iff.mp hOk with ⟨old, hRow, rfl⟩
  have hKey : old.id = c.row := Table.key_of_find? hRow
  have hOld : tenants.find? (change old).id = some old := by
    rw [hId, hKey]
    exact hRow
  have hNew :
      (tenants.put (change old)).find? c.row =
        some (change old) := by
    rw [← hKey, ← hId]
    exact find?_put_self hOld
  refine ⟨change old, ?_, hFits, fun _ _ => hMax _ hNew, ?_,
    mem_put_tenant hOld⟩
  · rw [hOld]
    exact hYields old hKey
  · intro key hGives t hMem hSame
    exact absurd hSame
      (hash_ne_of_not_taken (hFree key hGives) hMem)

theorem TenantChange.leaves_of_execute
    {c : TenantChange}
    (hOk : c.execute tenants = .ok tenants') :
    ∃ new, (TenantWrite.change c).Leaves tenants tenants'
      new := by
  rcases TenantChange.execute_eq_ok hOk with
    ⟨hFits, hPerform, hMax⟩
  cases c with
  | insertTenant t =>
      simp only [TenantChange.perform] at hPerform
      split at hPerform
      · cases hPerform
      · rename_i hNew
        split at hPerform
        · cases hPerform
        · rename_i hFree
          cases hPerform
          have hNone : tenants.find? t.id = none := by
            simpa using hNew
          have hRow :
              (tenants.insert
                  { t with status := .active }).find? t.id =
                some { t with status := .active } :=
            find?_insert_self { t with status := .active } hNone
          refine ⟨{ t with status := .active }, ?_, hFits,
            fun _ _ => hMax _ hRow, ?_,
            mem_insert_tenant hNone⟩
          · rw [hNone]
            rfl
          · intro key hGives r hMem hSame
            cases hGives
            exact absurd hSame
              (hash_ne_of_not_taken (by simpa using hFree)
                hMem)
  | setTenantStatus | updateTenantLimits |
      rotateWebhookSecret =>
      exact leaves_of_changeTenant hPerform (fun _ => rfl)
        (fun _ hId => ⟨hId, rfl⟩) hFits hMax
        (fun _ hGives => nomatch hGives)
  | rotateAPIKey id hash =>
      simp only [TenantChange.perform] at hPerform
      split at hPerform
      · cases hPerform
      · rename_i hFree
        refine leaves_of_changeTenant hPerform
          (fun _ => rfl) (fun _ hId => ⟨hId, rfl⟩) hFits hMax ?_
        intro key hGives
        cases hGives
        simpa using hFree

theorem leaves_of_enableDevTenant
    {hash secret : String}
    (hOk :
      enableDevTenant hash secret tenants = .ok tenants') :
    ∃ new,
      (TenantWrite.enableDevTenant hash secret).Leaves tenants
        tenants' new := by
  unfold enableDevTenant at hOk
  split at hOk
  · rename_i hNone
    split at hOk
    · cases hOk
    · rename_i hFree
      cases hOk
      refine ⟨devTenant hash secret, ?_, trivial,
        (fun _ hEq => nomatch hEq), ?_,
        mem_insert_tenant hNone⟩
      · rw [show (devTenant hash secret).id = devTenantId
          from rfl, hNone]
        rfl
      · intro key hGives t hMem hSame
        cases hGives
        exact absurd hSame
          (hash_ne_of_not_taken (by simpa using hFree) hMem)
  · rename_i row hRow
    have hId : row.id = devTenantId :=
      Table.key_of_find? hRow
    have hOld : tenants.find? row.id = some row := by
      rw [hId]
      exact hRow
    split at hOk
    · cases hOk
    · rename_i hFree
      cases hOk
      refine ⟨{ row with status := .active, apiKeyHash := hash },
        ?_, trivial, (fun _ hEq => nomatch hEq), ?_,
        mem_put_tenant hOld⟩
      · rw [hOld]
        exact ⟨hId, rfl⟩
      · intro key hGives t hMem hSame
        cases hGives
        rw [hId]
        by_contra hOther
        exact hFree
          (List.any_eq_true.mpr
            ⟨t, hMem, by simp [hSame, hOther]⟩)

/- Every write leaves one new row. -/
theorem TenantWrite.execute_eq_ok
    {w : TenantWrite}
    (hOk : w.execute tenants = .ok tenants') :
    ∃ new, w.Leaves tenants tenants' new := by
  cases w with
  | change c => exact TenantChange.leaves_of_execute hOk
  | enableDevTenant hash secret =>
      exact leaves_of_enableDevTenant hOk

end

------------------------------------------------------------
-- What Writes Keep
------------------------------------------------------------

/-
  The limits that workers and the rate limiter can use:
  `weightedShuffle` needs a positive weight.
-/
structure Tenant.Usable (t : Tenant) : Prop where
  rateLimit : int4 t.rateLimit = true
  weight : int4 t.weight = true
  maxConcurrency : int4 t.maxConcurrency = true
  weight_pos : 0 < t.weight
  maxConcurrency_nonneg : 0 ≤ t.maxConcurrency

/- A key belongs to one tenant. -/
def OneTenantPerKey (tenants : Table Tenant) : Prop :=
  ∀ t ∈ tenants.rows, ∀ t' ∈ tenants.rows,
    t.apiKeyHash = t'.apiKeyHash → t.id = t'.id

/- The key that was given to a tenant last, newest first. -/
def lastKey
    (id : Uuid)
    (keys : List (Uuid × String)) :
    Option String :=
  (keys.find? (fun key => key.1 = id)).map Prod.snd

/- Every tenant has the key that was given to it last. -/
def KeysMatch
    (keys : List (Uuid × String))
    (tenants : Table Tenant) : Prop :=
  ∀ t ∈ tenants.rows, lastKey t.id keys = some t.apiKeyHash

namespace TenantWrite

/- New weights are positive. -/
def WeightPos : TenantWrite → Prop
| .change (.insertTenant t) => 0 < t.weight
| .change (.updateTenantLimits _ _ weight _) =>
    ∀ n, weight = some n → 0 < n
| _ => True

/- New rate limits are 0 or positive. -/
def RateNonneg : TenantWrite → Prop
| .change (.insertTenant t) => 0 ≤ t.rateLimit
| .change (.updateTenantLimits _ rateLimit _ _) =>
    ∀ n, rateLimit = some n → 0 ≤ n
| _ => True

variable {tenants tenants' : Table Tenant}
variable {w : TenantWrite}
variable {new : Tenant}

/-
  What holds of all rows and of the row that a write makes
  of one of them holds of all rows afterwards.
-/
theorem Leaves.keeps
    {P : Tenant → Prop}
    (hLeaves : w.Leaves tenants tenants' new)
    (hRows : ∀ t ∈ tenants.rows, P t)
    (hNew :
      ∀ old?, (∀ old, old? = some old → P old) →
        w.Yields old? new → P new) :
    ∀ t ∈ tenants'.rows, P t := by
  intro t hMem
  rcases (hLeaves.rows t).mp hMem with ⟨hOld, _⟩ | rfl
  · exact hRows t hOld
  · refine hNew _ ?_ hLeaves.yields
    intro old hFind
    exact hRows old (Table.mem_of_find? hFind)

/- A value that is set, or else stays. -/
theorem getD_of_forall
    {P : Int → Prop}
    {n? : Option Int}
    {n : Int}
    (hSet : ∀ m, n? = some m → P m)
    (hElse : P n) :
    P (n?.getD n) := by
  cases n? with
  | none => exact hElse
  | some m => exact hSet m rfl

theorem rateNonneg_of_execute
    (hOk : w.execute tenants = .ok tenants')
    (hNonneg : w.RateNonneg)
    (hRows : ∀ t ∈ tenants.rows, 0 ≤ t.rateLimit) :
    ∀ t ∈ tenants'.rows, 0 ≤ t.rateLimit := by
  rcases execute_eq_ok hOk with ⟨new, hLeaves⟩
  refine hLeaves.keeps hRows ?_
  intro old? hOld hYields
  cases old? with
  | none =>
      cases w with
      | enableDevTenant hash secret =>
          cases hYields
          exact Int.natCast_nonneg 1000
      | change c =>
          cases c with
          | insertTenant t =>
              cases hYields
              exact hNonneg
          | _ => exact hYields.elim
  | some old =>
      have hRate := hOld old rfl
      cases w with
      | enableDevTenant hash secret =>
          cases hYields.2
          exact hRate
      | change c =>
          cases c with
          | insertTenant t => exact hYields.elim
          | updateTenantLimits id rateLimit weight maxConc =>
              cases hYields.2
              exact getD_of_forall hNonneg hRate
          | _ =>
              cases hYields.2
              exact hRate

/- The limits in a row that a write makes. -/
theorem usable_of_execute
    (hOk : w.execute tenants = .ok tenants')
    (hPos : w.WeightPos)
    (hRows : ∀ t ∈ tenants.rows, t.Usable) :
    ∀ t ∈ tenants'.rows, t.Usable := by
  rcases execute_eq_ok hOk with ⟨new, hLeaves⟩
  refine hLeaves.keeps hRows ?_
  intro old? hOld hYields
  have hFits := hLeaves.fits
  have hMax := hLeaves.maxConcurrency
  cases old? with
  | none =>
      cases w with
      | enableDevTenant hash secret =>
          cases hYields
          exact ⟨rfl, rfl, rfl, Int.natCast_pos.mpr (by decide),
            Int.le_refl 0⟩
      | change c =>
          cases c with
          | insertTenant t =>
              cases hYields
              simp only [Fits, TenantChange.encodable,
                Bool.and_eq_true] at hFits
              exact ⟨hFits.1.1, hFits.1.2, hFits.2, hPos,
                hMax _ rfl⟩
          | _ => exact hYields.elim
  | some old =>
      have hUsable := hOld old rfl
      cases w with
      | enableDevTenant hash secret =>
          cases hYields.2
          exact ⟨hUsable.1, hUsable.2, hUsable.3, hUsable.4,
            hUsable.5⟩
      | change c =>
          cases c with
          | insertTenant t => exact hYields.elim
          | updateTenantLimits id rateLimit weight maxConc =>
              cases hYields.2
              simp only [Fits, TenantChange.encodable,
                Bool.and_eq_true, Option.all_eq_true]
                at hFits
              refine ⟨?_, ?_, ?_, ?_, hMax _ rfl⟩
              · exact getD_of_forall hFits.1.1 hUsable.1
              · exact getD_of_forall hFits.1.2 hUsable.2
              · exact getD_of_forall hFits.2 hUsable.3
              · exact getD_of_forall hPos hUsable.4
          | _ =>
              cases hYields.2
              exact ⟨hUsable.1, hUsable.2, hUsable.3,
                hUsable.4, hUsable.5⟩

/- The key that a write gives is the key of its row. -/
theorem gives_of_yields
    {old? : Option Tenant}
    {key : Uuid × String}
    (hYields : w.Yields old? new)
    (hGives : w.gives = some key) :
    key = (new.id, new.apiKeyHash) := by
  cases w with
  | enableDevTenant hash secret =>
      cases hGives
      cases old? with
      | none =>
          cases hYields
          rfl
      | some old =>
          cases hYields.2
          rw [hYields.1]
  | change c =>
      cases c with
      | insertTenant t =>
          cases hGives
          cases old? with
          | none =>
              cases hYields
              rfl
          | some old => exact hYields.elim
      | rotateAPIKey id hash =>
          cases hGives
          cases old? with
          | none => exact hYields.elim
          | some old =>
              cases hYields.2
              rw [hYields.1]
      | _ => cases hGives

/- The other writes keep the key of their row. -/
theorem kept_of_yields
    {old? : Option Tenant}
    (hYields : w.Yields old? new)
    (hGives : w.gives = none) :
    ∃ old, old? = some old ∧ old.id = new.id ∧
      old.apiKeyHash = new.apiKeyHash := by
  cases w with
  | enableDevTenant hash secret => cases hGives
  | change c =>
      cases old? with
      | none =>
          cases c with
          | insertTenant t => cases hGives
          | _ => exact hYields.elim
      | some old =>
          cases c with
          | insertTenant t => cases hGives
          | rotateAPIKey id hash => cases hGives
          | _ =>
              cases hYields.2
              exact ⟨old, rfl, rfl, rfl⟩

/- No other tenant has the key of the row of a write. -/
theorem Leaves.hash_ne
    (hLeaves : w.Leaves tenants tenants' new)
    (hOne : OneTenantPerKey tenants)
    {t : Tenant}
    (hMem : t ∈ tenants.rows)
    (hOther : t.id ≠ new.id) :
    t.apiKeyHash ≠ new.apiKeyHash := by
  intro hSame
  cases hGives : w.gives with
  | none =>
      rcases kept_of_yields hLeaves.yields hGives with
        ⟨old, hFind, hId, hHash⟩
      have hOld := Table.mem_of_find? hFind
      have hEq := hOne t hMem old hOld (hSame.trans hHash.symm)
      exact hOther (hEq.trans hId)
  | some key =>
      have hKey := gives_of_yields hLeaves.yields hGives
      refine hOther (hLeaves.unused key hGives t hMem ?_)
      rw [hKey]
      exact hSame

theorem oneTenantPerKey_of_execute
    (hOk : w.execute tenants = .ok tenants')
    (hOne : OneTenantPerKey tenants) :
    OneTenantPerKey tenants' := by
  rcases execute_eq_ok hOk with ⟨new, hLeaves⟩
  intro t hMem t' hMem' hSame
  rcases (hLeaves.rows t).mp hMem with ⟨hOld, hId⟩ | rfl
  · rcases (hLeaves.rows t').mp hMem' with ⟨hOld', _⟩ | rfl
    · exact hOne t hOld t' hOld' hSame
    · exact absurd hSame (hLeaves.hash_ne hOne hOld hId)
  · rcases (hLeaves.rows t').mp hMem' with ⟨hOld', hId'⟩ | rfl
    · exact absurd hSame.symm
        (hLeaves.hash_ne hOne hOld' hId')
    · rfl

theorem keysMatch_of_execute
    {keys : List (Uuid × String)}
    (hOk : w.execute tenants = .ok tenants')
    (hMatch : KeysMatch keys tenants) :
    KeysMatch (w.gives.toList ++ keys) tenants' := by
  rcases execute_eq_ok hOk with ⟨new, hLeaves⟩
  intro t hMem
  cases hGives : w.gives with
  | none =>
      rcases (hLeaves.rows t).mp hMem with ⟨hOld, _⟩ | rfl
      · exact hMatch t hOld
      · rcases kept_of_yields hLeaves.yields hGives with
          ⟨old, hFind, hId, hHash⟩
        have hLast := hMatch old (Table.mem_of_find? hFind)
        rw [hId, hHash] at hLast
        exact hLast
  | some key =>
      have hKey := gives_of_yields hLeaves.yields hGives
      subst hKey
      rcases (hLeaves.rows t).mp hMem with ⟨hOld, hId⟩ | rfl
      · have hLast := hMatch t hOld
        simpa [lastKey, Ne.symm hId] using hLast
      · simp [lastKey]

/- No write removes a tenant. -/
theorem isSome_find?_of_execute
    {id : Uuid}
    (hOk : w.execute tenants = .ok tenants')
    (hThere : (tenants.find? id).isSome = true) :
    (tenants'.find? id).isSome = true := by
  rcases execute_eq_ok hOk with ⟨new, hLeaves⟩
  rcases Option.isSome_iff_exists.mp hThere with ⟨t, hFind⟩
  have hMem := Table.mem_of_find? hFind
  have hKey : t.id = id := Table.key_of_find? hFind
  by_cases hNew : t.id = new.id
  · have hRow := Table.find?_of_mem
      ((hLeaves.rows new).mpr (.inr rfl))
    rw [show Keyed.key new = id from hNew.symm.trans hKey]
      at hRow
    rw [hRow]
    rfl
  · have hRow := Table.find?_of_mem
      ((hLeaves.rows t).mpr (.inl ⟨hMem, hNew⟩))
    rw [show Keyed.key t = id from hKey] at hRow
    rw [hRow]
    rfl

end TenantWrite

end Storage

end Sluice
