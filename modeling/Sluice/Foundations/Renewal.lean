import Mathlib.Algebra.Order.Ring.Int
import Mathlib.Tactic.Linarith

/-
  A right that expires unless it is renewed.

  The holder renews the right at the beats of a ticker. Beats
  are due at fixed distances, whatever the time at which they
  are served; a beat that is served extends the right from
  the time at which it was sent, and a beat may be missed.

  Key definitions include:
    * `Terms` and `Terms.Lasting`
    * `Holder`
    * `Holder.started`, `Holder.renew` and `Holder.miss`
    * `Holder.Safe`

  Key theorems include:
    * `Holder.safe_started`
    * `Holder.safe_renew`
    * `Holder.Safe.miss`
    * `Holder.Safe.unexpired`
-/

------------------------------------------------------------
-- Terms
------------------------------------------------------------

namespace Foundations

namespace Renewal

/-
  The distance of two beats and the time for which a renewal
  lasts; the most time between the first grant and the start
  of the ticker, and between a beat and its effect; the time
  for which the right is needed after the last beat; and the
  number of beats in a row that may be missed.
-/
structure Terms where
  interval : Int
  lifetime : Int
  lag : Int
  delay : Int
  grace : Int
  misses : Nat

/- The terms let a right last as long as it is renewed. -/
structure Terms.Lasting (T : Terms) : Prop where
  lag : 0 ≤ T.lag
  lifetime :
    T.lag + (T.misses + 1) * T.interval + T.delay +
        T.grace ≤
      T.lifetime

/-
  The time of the next beat, the number of beats missed since
  the last renewal, and the time at which the right expires.
-/
structure Holder where
  due : Int
  missed : Nat
  expires : Int

namespace Holder

/- The ticker starts for a right that was asked for before. -/
def started (T : Terms) (sent now : Int) : Holder where
  due := now + T.interval
  missed := 0
  expires := sent + T.lifetime

/- A beat takes effect. -/
def renew (T : Terms) (sent : Int) (h : Holder) : Holder where
  due := h.due + T.interval
  missed := 0
  expires := sent + T.lifetime

/- A beat is missed. -/
def miss (T : Terms) (h : Holder) : Holder :=
  { h with
    due := h.due + T.interval
    missed := h.missed + 1 }

/-
  The right outlasts the beats that may still be missed in a
  row, the next one after them and the time after that.
-/
structure Safe (T : Terms) (h : Holder) : Prop where
  missed : h.missed ≤ T.misses
  expires :
    h.due + (T.misses - h.missed) * T.interval + T.delay +
        T.grace ≤
      h.expires

------------------------------------------------------------
-- Safety
------------------------------------------------------------

variable {T : Terms}
variable {h : Holder}
variable {sent now : Int}

theorem safe_started
    (hLasting : T.Lasting)
    (hLag : now ≤ sent + T.lag) :
    (started T sent now).Safe T where
  missed := Nat.zero_le _
  expires := by
    have hLifetime := hLasting.lifetime
    simp only [started, Nat.cast_zero, sub_zero]
    linarith

/- A beat that takes effect was sent when it was due. -/
theorem safe_renew
    (hLasting : T.Lasting)
    (hSent : h.due ≤ sent) :
    (h.renew T sent).Safe T where
  missed := Nat.zero_le _
  expires := by
    have hLifetime := hLasting.lifetime
    have hLag := hLasting.lag
    simp only [renew, Nat.cast_zero, sub_zero]
    linarith

theorem Safe.miss
    (hSafe : h.Safe T)
    (hMissed : h.missed < T.misses) :
    (h.miss T).Safe T where
  missed := hMissed
  expires := by
    have hExpires := hSafe.expires
    simp only [Holder.miss, Nat.cast_add, Nat.cast_one]
    linarith

/- Up to the next beat and for some time after, it holds. -/
theorem Safe.unexpired
    (hSafe : h.Safe T)
    (hInterval : 0 ≤ T.interval)
    (hNow : now ≤ h.due + T.delay + T.grace) :
    now ≤ h.expires := by
  have hLeft :
      0 ≤ ((T.misses : Int) - h.missed) * T.interval :=
    mul_nonneg
      (sub_nonneg.mpr (Int.ofNat_le.mpr hSafe.missed))
      hInterval
  have hExpires := hSafe.expires
  linarith

end Holder

end Renewal

end Foundations
