import Sluice.Storage.Schema

/-
  The statements on table `tenants`.

  The column `api_key_hash` is unique and has the digest of
  the key, never the key.

  Key definitions include:
    * `getTenantByAPIKey`
    * `TenantChange`
    * `TenantChange.perform`
-/

------------------------------------------------------------
-- Tenants
------------------------------------------------------------

namespace Sluice

namespace Storage

open Foundations

/-
  `WHERE api_key_hash = $1 AND status = 'active'`, where
  `hash` is the digest of the key.
-/
def getTenantByAPIKey
    (hash : String)
    (tenants : Table Tenant) :
    Option Tenant :=
  tenants.rows.find?
    (fun t => t.apiKeyHash = hash && t.status = .active)

/-
  What operators and the admin API do to tenants. `none`
  leaves a limit unchanged.
-/
inductive TenantChange
| insertTenant (t : Tenant)
| setTenantStatus (id : Uuid) (status : TenantStatus)
| updateTenantLimits
    (id : Uuid) (rateLimit weight maxConcurrency : Option Int)
| rotateAPIKey (id : Uuid) (hash : String)
| rotateWebhookSecret (id : Uuid) (secret : String)
deriving DecidableEq, Repr

/- `UPDATE tenants SET .. WHERE id = $1`, or `ErrNotFound`. -/
def changeTenant
    (id : Uuid)
    (change : Tenant → Tenant)
    (tenants : Table Tenant) :
    Option (Table Tenant) :=
  (tenants.find? id).map (fun row => tenants.put (change row))

/- Whether a digest is taken. -/
def hashTaken
    (hash : String)
    (tenants : Table Tenant) :
    Bool :=
  tenants.rows.any (fun t => t.apiKeyHash = hash)

namespace TenantChange

def perform
    (tenants : Table Tenant) :
    TenantChange → Option (Table Tenant)
| .insertTenant t =>
    if (tenants.find? t.id).isSome then none
    else if hashTaken t.apiKeyHash tenants then none
    else some (tenants.insert { t with status := .active })
| .setTenantStatus id status =>
    changeTenant id (fun row => { row with status := status })
      tenants
| .updateTenantLimits id rateLimit weight maxConcurrency =>
    changeTenant id
      (fun row =>
        { row with
          rateLimit := rateLimit.getD row.rateLimit
          weight := weight.getD row.weight
          maxConcurrency :=
            maxConcurrency.getD row.maxConcurrency })
      tenants
| .rotateAPIKey id hash =>
    if hashTaken hash tenants then none
    else
      changeTenant id
        (fun row => { row with apiKeyHash := hash }) tenants
| .rotateWebhookSecret id secret =>
    changeTenant id
      (fun row => { row with webhookSecret := secret })
      tenants

end TenantChange

end Storage

end Sluice
