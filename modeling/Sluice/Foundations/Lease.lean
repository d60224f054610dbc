import Mathlib.Data.List.Nodup
import Mathlib.Data.List.Count

/-
  Tickets that are worked on under leases.

  A ticket waits until it is due, is ready, is held under a
  lease by the owner of a token, or has ended. Each act on a
  ticket is atomic. A lease that is lost, because its holder
  reports a failure or lets the deadline pass, costs one try.

  Key definitions include:
    * `Lease.Phase` and `Lease.Ticket`
    * `Lease.Act` and `Lease.Ticket.step`
    * `Lease.replay`

  Key theorems include:
    * `Lease.Counted.step`
    * `Lease.settles_le_one`
-/

------------------------------------------------------------
-- Tickets
------------------------------------------------------------

namespace Foundations

namespace Lease

inductive Outcome
| succeeded
| exhausted
| withdrawn
deriving DecidableEq, Repr

inductive Phase (K : Type)
| waiting (due : Int)
| ready
| held (token : K) (deadline : Int)
| ended (outcome : Outcome)
deriving DecidableEq, Repr

/- `used` has the tokens of all leases, the last one first. -/
structure Ticket (K : Type) where
  phase : Phase K
  tries : Int
  limit : Int
  used : List K
deriving DecidableEq, Repr

/-
  What happens to a ticket:
    * `submit` makes it, to wait or ready;
    * `release` makes it ready when it is due;
    * `grant` gives a lease, with a new token;
    * `renew` sets the deadline of the holder's lease;
    * `succeed` and `fail` are the holder's reports;
    * `expire` takes back a lease after its deadline;
    * `withdraw` ends a ticket that nobody holds;
    * `kill` ends any ticket that has not ended;
    * `revive` starts an exhausted ticket again.
-/
inductive Act (K : Type)
| submit (due : Option Int) (limit : Int)
| release (now : Int)
| grant (token : K) (deadline : Int)
| renew (token : K) (deadline : Int)
| succeed (token : K)
| fail (token : K) (due : Int)
| expire (now : Int)
| withdraw
| kill
| revive
deriving DecidableEq, Repr

section

variable {K : Type}
variable [DecidableEq K]

def Phase.ofDue : Option Int → Phase K
| some due => .waiting due
| none => .ready

def Phase.heldBy (token : K) : Phase K → Bool
| .held k _ => k = token
| _ => false

namespace Ticket

def moveTo (t : Ticket K) (phase : Phase K) : Ticket K :=
  { t with phase := phase }

/- A try is lost; `next` is where the ticket goes if it was
   not the last one. -/
def lose (t : Ticket K) (next : Phase K) : Ticket K :=
  { t with
    tries := t.tries + 1
    phase :=
      if t.tries + 1 > t.limit then .ended .exhausted
      else next }

/- What an act makes of a ticket, where it is possible. -/
def step (t : Ticket K) : Act K → Option (Ticket K)
| .submit _ _ => none
| .release now =>
    match t.phase with
    | .waiting due =>
        if due ≤ now then some (t.moveTo .ready) else none
    | _ => none
| .grant token deadline =>
    match t.phase with
    | .ready =>
        if token ∈ t.used then none
        else
          some
            { t with
              phase := .held token deadline
              used := token :: t.used }
    | _ => none
| .renew token deadline =>
    if t.phase.heldBy token then
      some (t.moveTo (.held token deadline))
    else none
| .succeed token =>
    if t.phase.heldBy token then
      some (t.moveTo (.ended .succeeded))
    else none
| .fail token due =>
    if t.phase.heldBy token then some (t.lose (.waiting due))
    else none
| .expire now =>
    match t.phase with
    | .held _ deadline =>
        if deadline < now then some (t.lose .ready) else none
    | _ => none
| .withdraw =>
    match t.phase with
    | .waiting _ => some (t.moveTo (.ended .withdrawn))
    | .ready => some (t.moveTo (.ended .withdrawn))
    | _ => none
| .kill =>
    match t.phase with
    | .ended _ => none
    | _ => some (t.moveTo (.ended .exhausted))
| .revive =>
    match t.phase with
    | .ended .exhausted =>
        some { t with phase := .ready, tries := 0 }
    | _ => none

end Ticket

/- The ticket, if there is one, after an act. -/
def step (act : Act K) :
    Option (Ticket K) → Option (Option (Ticket K))
| some t => (t.step act).map some
| none =>
    match act with
    | .submit due limit =>
        some (some ⟨.ofDue due, 0, limit, []⟩)
    | _ => none

/- What acts, the last one first, make of no ticket. -/
def replay : List (Act K) → Option (Option (Ticket K))
| [] => some none
| act :: past => (replay past).bind (step act)

theorem replay_cons
    {act : Act K}
    {past : List (Act K)}
    {before : Option (Ticket K)}
    (hPast : replay past = some before) :
    replay (act :: past) = step act before := by
  unfold replay
  rw [hPast]
  rfl

------------------------------------------------------------
-- Every Lease Is Reported On At Most Once
------------------------------------------------------------

def Act.grants (token : K) : Act K → Bool
| .grant k _ => k = token
| _ => false

def Act.settles (token : K) : Act K → Bool
| .succeed k => k = token
| .fail k _ => k = token
| _ => false

/-
  The tokens of the leases, and the reports on each: a lease
  that is still held has not been reported on.
-/
structure Counted
    (token : K)
    (acts : List (Act K))
    (t : Ticket K) : Prop where
  nodup : t.used.Nodup
  grants : acts.countP (Act.grants token) = t.used.count token
  settles :
    acts.countP (Act.settles token) +
        (t.phase.heldBy token).toNat ≤
      acts.countP (Act.grants token)

variable {token : K}
variable {acts : List (Act K)}
variable {t t' : Ticket K}
variable {act : Act K}

/- An act that neither gives a lease nor reports on one. -/
theorem Counted.other
    (hCounted : Counted token acts t)
    (hGrants : act.grants token = false)
    (hSettles : act.settles token = false)
    (hUsed : t'.used = t.used)
    (hHeld :
      (t'.phase.heldBy token).toNat ≤
        (t.phase.heldBy token).toNat) :
    Counted token (act :: acts) t' := by
  have hBefore := hCounted.settles
  refine ⟨?_, ?_, ?_⟩
  · rw [hUsed]
    exact hCounted.nodup
  · rw [List.countP_cons_of_neg (by simp [hGrants]), hUsed]
    exact hCounted.grants
  · rw [List.countP_cons_of_neg (by simp [hSettles]),
      List.countP_cons_of_neg (by simp [hGrants])]
    omega

/- The holder reports, and holds no lease any more. -/
theorem Counted.report
    {holder : K}
    (hCounted : Counted token acts t)
    (hHolder : t.phase.heldBy holder = true)
    (hGrants : act.grants token = false)
    (hSettles : act.settles token = decide (holder = token))
    (hUsed : t'.used = t.used)
    (hHeld : t'.phase.heldBy token = false) :
    Counted token (act :: acts) t' := by
  by_cases hSame : holder = token
  · subst hSame
    have hBefore := hCounted.settles
    rw [hHolder] at hBefore
    refine ⟨?_, ?_, ?_⟩
    · rw [hUsed]
      exact hCounted.nodup
    · rw [List.countP_cons_of_neg (by simp [hGrants]), hUsed]
      exact hCounted.grants
    · rw [List.countP_cons_of_pos (by simp [hSettles]),
        List.countP_cons_of_neg (by simp [hGrants]), hHeld]
      exact hBefore
  · refine hCounted.other hGrants ?_ hUsed ?_
    · rw [hSettles]
      exact decide_eq_false hSame
    · rw [hHeld]
      exact Nat.zero_le _

/- A lease with a new token. -/
theorem Counted.grant
    {new : K}
    {deadline : Int}
    (hCounted : Counted token acts t)
    (hNew : new ∉ t.used)
    (hReady : t.phase = .ready) :
    Counted token (.grant new deadline :: acts)
      { t with
        phase := .held new deadline
        used := new :: t.used } := by
  have hBefore := hCounted.settles
  rw [hReady] at hBefore
  have hNodup : (new :: t.used).Nodup :=
    List.nodup_cons.mpr ⟨hNew, hCounted.nodup⟩
  have hSettled :
      (Act.grant new deadline :: acts).countP
          (Act.settles token) =
        acts.countP (Act.settles token) :=
    List.countP_cons_of_neg Bool.false_ne_true
  by_cases hSame : new = token
  · subst hSame
    have hGranted :
        (Act.grant new deadline :: acts).countP
            (Act.grants new) =
          acts.countP (Act.grants new) + 1 :=
      List.countP_cons_of_pos (decide_eq_true rfl)
    refine ⟨hNodup, ?_, ?_⟩
    · rw [hGranted, hCounted.grants, List.count_cons_self]
    · rw [hSettled, hGranted]
      simp only [Phase.heldBy, decide_true, Bool.toNat_true,
        Bool.toNat_false] at hBefore ⊢
      omega
  · have hGranted :
        (Act.grant new deadline :: acts).countP
            (Act.grants token) =
          acts.countP (Act.grants token) :=
      List.countP_cons_of_neg (by simpa [Act.grants])
    refine ⟨hNodup, ?_, ?_⟩
    · rw [hGranted, hCounted.grants,
        List.count_cons_of_ne hSame]
    · rw [hSettled, hGranted]
      simp only [Phase.heldBy, hSame, decide_false,
        Bool.toNat_false] at hBefore ⊢
      exact hBefore

theorem heldBy_lose
    {next : Phase K}
    (hNext : next.heldBy token = false) :
    (t.lose next).phase.heldBy token = false := by
  unfold Ticket.lose
  simp only
  split
  · rfl
  · exact hNext

theorem Counted.step
    (hCounted : Counted token acts t)
    (hStep : t.step act = some t') :
    Counted token (act :: acts) t' := by
  cases act with
  | submit due limit => cases hStep
  | release now =>
      simp only [Ticket.step] at hStep
      split at hStep
      · split at hStep
        · cases hStep
          exact hCounted.other rfl rfl rfl (Nat.zero_le _)
        · cases hStep
      · cases hStep
  | grant new deadline =>
      simp only [Ticket.step] at hStep
      split at hStep
      · rename_i hReady
        split at hStep
        · cases hStep
        · rename_i hNew
          cases hStep
          exact hCounted.grant hNew hReady
      · cases hStep
  | renew holder deadline =>
      simp only [Ticket.step] at hStep
      split at hStep
      · rename_i hHolder
        cases hStep
        refine hCounted.other rfl rfl rfl ?_
        by_cases hSame : holder = token
        · subst hSame
          rw [hHolder]
          exact Bool.toNat_le _
        · simp only [Ticket.moveTo, Phase.heldBy, hSame,
            decide_false]
          exact Nat.zero_le _
      · cases hStep
  | succeed holder =>
      simp only [Ticket.step] at hStep
      split at hStep
      · rename_i hHolder
        cases hStep
        exact hCounted.report hHolder rfl rfl rfl rfl
      · cases hStep
  | fail holder due =>
      simp only [Ticket.step] at hStep
      split at hStep
      · rename_i hHolder
        cases hStep
        exact hCounted.report hHolder rfl rfl rfl
          (heldBy_lose rfl)
      · cases hStep
  | expire now =>
      simp only [Ticket.step] at hStep
      split at hStep
      · split at hStep
        · cases hStep
          refine hCounted.other rfl rfl rfl ?_
          rw [heldBy_lose rfl]
          exact Nat.zero_le _
        · cases hStep
      · cases hStep
  | withdraw =>
      simp only [Ticket.step] at hStep
      split at hStep
      · cases hStep
        exact hCounted.other rfl rfl rfl (Nat.zero_le _)
      · cases hStep
        exact hCounted.other rfl rfl rfl (Nat.zero_le _)
      · cases hStep
  | kill =>
      simp only [Ticket.step] at hStep
      split at hStep
      · cases hStep
      · cases hStep
        exact hCounted.other rfl rfl rfl (Nat.zero_le _)
  | revive =>
      simp only [Ticket.step] at hStep
      split at hStep
      · cases hStep
        exact hCounted.other rfl rfl rfl (Nat.zero_le _)
      · cases hStep

/- Before the first act there is no ticket. -/
theorem counted
    (token : K)
    {o : Option (Ticket K)}
    (hReplay : replay acts = some o) :
    (o = none ∧ acts = []) ∨
      ∃ t, o = some t ∧ Counted token acts t := by
  induction acts generalizing o with
  | nil =>
      cases hReplay
      exact .inl ⟨rfl, rfl⟩
  | cons act past ih =>
      rcases Option.bind_eq_some_iff.mp hReplay with
        ⟨before, hPast, hStep⟩
      rcases ih hPast with ⟨rfl, rfl⟩ | ⟨t, rfl, hCounted⟩
      · cases act with
        | submit due limit =>
            cases hStep
            refine .inr ⟨_, rfl, List.nodup_nil, rfl, ?_⟩
            cases due <;> exact Nat.le_refl 0
        | release | grant | renew | succeed | fail | expire
        | withdraw | kill | revive => cases hStep
      · rcases Option.map_eq_some_iff.mp hStep with
          ⟨t', hNext, rfl⟩
        exact .inr ⟨t', rfl, hCounted.step hNext⟩

theorem settles_le_one
    (token : K)
    {o : Option (Ticket K)}
    (hReplay : replay acts = some o) :
    acts.countP (Act.settles token) ≤
        acts.countP (Act.grants token) ∧
      acts.countP (Act.grants token) ≤ 1 := by
  rcases counted token hReplay with
    ⟨_, rfl⟩ | ⟨t, _, hCounted⟩
  · exact ⟨Nat.le_refl _, Nat.zero_le _⟩
  · have hSettles := hCounted.settles
    have hOnce := List.nodup_iff_count_le_one.mp
      hCounted.nodup token
    rw [hCounted.grants] at hSettles ⊢
    exact ⟨by omega, hOnce⟩

end

end Lease

end Foundations
