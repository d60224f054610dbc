import Mathlib.Algebra.Order.Field.Rat
import Sluice.Job.Basic

/-
  The token bucket of a tenant, kept in Redis.

  The script computes with floating-point numbers; here they
  are exact.

  Key definitions include:
    * `TokenBucket`
    * `takeScript`
    * `allow`
-/

------------------------------------------------------------
-- Token Buckets
------------------------------------------------------------

namespace Sluice

namespace Api

/- The hash `ratelimit:{tenant_id}`; `ts` is in ms. -/
structure TokenBucket where
  tokens : ℚ
  ts : Int
deriving DecidableEq, Repr

/- The buckets by tenant; a missing key is `none`. -/
abbrev TokenBuckets := Uuid → Option TokenBucket

/- Refill and take, at Redis's own time `now` in ms. -/
def takeScript
    (rate now : Int)
    (state : Option TokenBucket) :
    Bool × TokenBucket :=
  let tokens : ℚ := (state.map TokenBucket.tokens).getD rate
  let ts := (state.map TokenBucket.ts).getD now
  let filled :=
    min (rate : ℚ) (tokens + (now - ts : Int) * rate / 1000)
  if 1 ≤ filled then (true, ⟨filled - 1, now⟩)
  else (false, ⟨filled, now⟩)

/- A limit of zero or less means unlimited. -/
def allow
    (tenantId : Uuid)
    (limit now : Int)
    (buckets : TokenBuckets) :
    Bool × TokenBuckets :=
  if limit ≤ 0 then (true, buckets)
  else
    let taken := takeScript limit now (buckets tenantId)
    (taken.1,
      Function.update buckets tenantId (some taken.2))

end Api

end Sluice
