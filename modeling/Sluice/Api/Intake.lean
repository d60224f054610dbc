import Sluice.Api.Service
import Sluice.Storage.Submissions

/-
  Submissions that overlap.

  `handleSubmitJob` makes up to three calls, between which
  other requests, the scheduler, workers and retention go on.
  A call may fail although it was carried out, and a process
  may stop at any point. Identifiers of jobs are new, as
  `uuid.New` makes them.

  Key definitions include:
    * `Submission` and `Submission.next`
    * `Intake` and `intake`
    * `HandledInSteps`
    * `Known` and `KeyKnown`
    * `Idempotent`

  Key theorems include:
    * `handledInSteps`
    * `intake_ok`
    * `submissions_are_idempotent`
-/

------------------------------------------------------------
-- A Submission In Steps
------------------------------------------------------------

namespace Sluice

namespace Api

open Foundations Storage Queue Scheduler.Cron

/-
  Where `handleSubmitJob` is after it has built the job:
    * about to ask the limiter;
    * about to insert the job;
    * about to look up the job that holds its key;
    * about to enqueue the job;
    * done, with a response.
-/
inductive SubmitPhase
| checking
| inserting
| duplicate
| inserted
| answered (response : Response)
deriving DecidableEq, Repr

/- A request of a tenant, with the job that it submits. -/
structure Submission where
  tenant : Tenant
  job : Job
  phase : SubmitPhase
deriving DecidableEq, Repr

namespace Submission

/- The job of a request, or the refusal of the request. -/
def build
    (P : RequestParsers)
    (env : Env)
    (t : Tenant)
    (body : Option SubmitJobRequest)
    (traceParent : Option String) :
    Except Response Job :=
  match body with
  | none => .error (writeError 400 "invalid request body")
  | some req =>
      if req.idempotencyKey.any badIdempotencyKey then
        .error
          (writeError 400
            "idempotency_key must be 1-255 characters")
      else
        match
          submitJob P.validateWebhookPayload req.template
            t.id env.newId env.now req.runAt
            req.idempotencyKey traceParent
        with
        | .error message => .error (writeError 400 message)
        | .ok j => .ok j

def moveTo
    (r : Submission)
    (phase : SubmitPhase) :
    Submission :=
  { r with phase := phase }

def rateLimited : Response :=
  ⟨429, some "1", .error "rate limit exceeded"⟩

def insertFailed : Response :=
  writeError 500 "failed to create job"

/-
  `InsertJob`. If the call fails, `executed` tells whether
  the job was stored all the same.
-/
def insert
    (env : Env)
    (executed : Bool)
    (s : Store)
    (r : Submission) :
    Store × Submission :=
  match insertJob r.job s.db with
  | .abort =>
      if env.fails .insertJob then
        (s, r.moveTo (.answered insertFailed))
      else (s, r.moveTo .duplicate)
  | .proceed writes _ =>
      if env.fails .insertJob then
        if executed then
          ({ s with db := postgres.performAll s.db writes },
            r.moveTo (.answered insertFailed))
        else (s, r.moveTo (.answered insertFailed))
      else
        ({ s with db := postgres.performAll s.db writes },
          r.moveTo .inserted)

/- The next call of a request. -/
def next
    (env : Env)
    (executed : Bool)
    (s : Store)
    (r : Submission) :
    Store × Submission :=
  match r.phase with
  | .checking =>
      let limited := checkLimit env r.tenant s
      if limited.1 then (limited.2, r.moveTo .inserting)
      else (limited.2, r.moveTo (.answered rateLimited))
  | .inserting => r.insert env executed s
  | .duplicate =>
      (s,
        r.moveTo
          (.answered
            (duplicateResponse env r.tenant
              r.job.idempotencyKey s)))
  | .inserted =>
      ({ s with
          redis :=
            if r.job.state = .pending ∧
                env.fails .enqueue = false then
              s.redis.enqueue r.job.tenantId r.job.id
                r.job.priority
            else s.redis },
        r.moveTo (.answered (writeJSON 201 (.job r.job))))
  | .answered _ => (s, r)

/- The calls of a request that nothing interleaves with. -/
def alone
    (env : Env) :
    Nat → Store × Submission → Store × Submission
| 0, p => p
| n + 1, p => alone env n (p.2.next env false p.1)

/-
  A job that the client has been told of, or is about to be:
  the stored job, or the one that a key stands for.
-/
def acknowledged? (r : Submission) : Option Job :=
  match r.phase with
  | .inserted => some r.job
  | .answered ⟨201, _, .job j⟩ => some j
  | .answered ⟨200, _, .job j⟩ => some j
  | _ => none

end Submission

section

variable (env : Env)
variable (t : Tenant)
variable (j : Job)
variable (s : Store)

@[simp] theorem Submission.alone_answered
    (n : Nat)
    (response : Response) :
    alone env n (s, ⟨t, j, .answered response⟩) =
      (s, ⟨t, j, .answered response⟩) := by
  induction n with
  | zero => rfl
  | succ n ih => exact ih

/- From the insertion on, a request alone does this. -/
theorem Submission.alone_inserting :
    alone env 2 (s, ⟨t, j, .inserting⟩) =
      ((storeSubmitted env t j s).2,
        ⟨t, j, .answered (storeSubmitted env t j s).1⟩) := by
  have hFirst :
      alone env 2 (s, ⟨t, j, .inserting⟩) =
        alone env 1
          (insert env false s ⟨t, j, .inserting⟩) :=
    rfl
  rw [hFirst]
  unfold storeSubmitted insert
  by_cases hFails : env.fails .insertJob = true
  · simp only [if_pos hFails, Bool.false_eq_true, if_false]
    cases insertJob j s.db with
    | abort => rfl
    | proceed writes locks => rfl
  · simp only [if_neg hFails]
    cases insertJob j s.db with
    | abort => rfl
    | proceed writes locks => rfl

/-
  The handler refuses the request, or it does what the steps
  of the request do if it runs alone.
-/
def HandledInSteps
    (P : RequestParsers)
    (body : Option SubmitJobRequest)
    (traceParent : Option String) :
    Prop :=
  match Submission.build P env t body traceParent with
  | .error response =>
      handleSubmitJob P env t body traceParent s =
        (response, s)
  | .ok j =>
      ∃ response store,
        handleSubmitJob P env t body traceParent s =
            (response, store) ∧
          Submission.alone env 3 (s, ⟨t, j, .checking⟩) =
            (store, ⟨t, j, .answered response⟩)

theorem handledInSteps
    (P : RequestParsers)
    (body : Option SubmitJobRequest)
    (traceParent : Option String) :
    HandledInSteps env t s P body traceParent := by
  unfold HandledInSteps Submission.build handleSubmitJob
  cases body with
  | none => rfl
  | some req =>
      dsimp only
      by_cases hKey :
          req.idempotencyKey.any badIdempotencyKey = true
      · simp only [hKey, if_true]
      · simp only [hKey, if_false, Bool.false_eq_true]
        cases submitJob P.validateWebhookPayload req.template
            t.id env.newId env.now req.runAt
            req.idempotencyKey traceParent with
        | error message => rfl
        | ok j =>
            dsimp only
            rw [Submission.alone]
            simp only [Submission.next, Submission.moveTo]
            by_cases hLimit :
                (checkLimit env t s).1 = true
            · rw [if_pos hLimit, if_pos hLimit]
              exact ⟨_, _, rfl,
                Submission.alone_inserting env t j _⟩
            · rw [if_neg hLimit, if_neg hLimit]
              exact ⟨_, _, rfl,
                Submission.alone_answered env t j _ 2 _⟩

end

------------------------------------------------------------
-- Overlapping Submissions
------------------------------------------------------------

/-
  The stores and the requests in progress or answered. `used`
  has the identifiers that jobs were built with, and `pruned`
  the rows that statements have deleted.
-/
structure Intake where
  store : Store
  requests : List Submission
  used : List Uuid
  pruned : List Job

namespace Intake

/-
  A request arrives; it makes its next call; the process that
  serves it stops, or forgets it; any statement of the other
  processes takes effect; and Redis changes in any way.
-/
inductive Label
| receive
    (env : Env) (t : Tenant)
    (body : Option SubmitJobRequest)
    (traceParent : Option String)
| next (i : Nat) (env : Env) (executed : Bool)
| drop (i : Nat)
| statement (statement : Statement)
| changeRedis (redis : Redis) (buckets : TokenBuckets)

/- A statement; jobs that it inserts have new identifiers. -/
def perform
    (statement : Statement)
    (s : Intake) :
    Option Intake :=
  if statement.inserts?.any (fun j => j.id ∈ s.used) then
    none
  else
    (statement.step s.store.db).map
      (fun db =>
        { s with
          store := { s.store with db := db }
          used :=
            (statement.inserts?.map Job.id).toList ++ s.used
          pruned :=
            deletedRows s.store.db db ++ s.pruned })

def step
    (P : RequestParsers)
    (label : Label)
    (s : Intake) :
    Option Intake :=
  match label with
  | .receive env t body traceParent =>
      match Submission.build P env t body traceParent with
      | .error _ => some s
      | .ok j =>
          if env.newId ∈ s.used then none
          else
            some
              { s with
                requests := ⟨t, j, .checking⟩ :: s.requests
                used := env.newId :: s.used }
  | .next i env executed =>
      match s.requests[i]? with
      | none => none
      | some r =>
          some
            { s with
              store := (r.next env executed s.store).1
              requests :=
                s.requests.set i
                  (r.next env executed s.store).2 }
  | .drop i =>
      some { s with requests := s.requests.eraseIdx i }
  | .statement statement => s.perform statement
  | .changeRedis redis buckets =>
      some
        { s with
          store :=
            { s.store with
              redis := redis
              buckets := buckets } }

end Intake

/- No job has been submitted. -/
def intake
    (P : RequestParsers) :
    Machine Intake Intake.Label where
  init := fun s =>
    s.store.db.initial ∧ s.requests = [] ∧ s.used = [] ∧
      s.pruned = []
  step := Intake.step P

/- The row of a job is stored, or has been pruned. -/
def Known (s : Intake) (j : Job) : Prop :=
  (∃ row, s.store.db.job? j.id = some row ∧
      row.submission = j.submission) ∨
    ∃ row ∈ s.pruned, row.submission = j.submission

/- A row that holds a key is stored, or has been pruned. -/
def KeyKnown
    (s : Intake)
    (tenantId : Uuid)
    (key : String) :
    Prop :=
  (∃ id row, s.store.db.job? id = some row ∧
      HoldsKey tenantId key row) ∨
    ∃ row ∈ s.pruned, HoldsKey tenantId key row

------------------------------------------------------------
-- What Stays Known
------------------------------------------------------------

/- Rows stay with what was submitted, or are pruned. -/
structure Intake.Extends (s s' : Intake) : Prop where
  rows :
    ∀ id j, s.store.db.job? id = some j →
      (∃ row, s'.store.db.job? id = some row ∧
          row.submission = j.submission) ∨
        ∃ row ∈ s'.pruned, row.submission = j.submission
  pruned : s.pruned ⊆ s'.pruned

variable {s s' : Intake}

theorem Intake.Extends.of_same
    (hDb : s'.store.db = s.store.db)
    (hPruned : s'.pruned = s.pruned) :
    s.Extends s' where
  rows := by
    intro id j hJob
    refine .inl ⟨j, ?_, rfl⟩
    rw [hDb]
    exact hJob
  pruned := by
    rw [hPruned]
    exact List.Subset.refl _

variable {j : Job}
variable {r : Submission}
variable {P : RequestParsers}

theorem Known.extends
    (hKnown : Known s j)
    (hExtends : s.Extends s') :
    Known s' j := by
  rcases hKnown with ⟨row, hRow, hSame⟩ | ⟨row, hRow, hSame⟩
  · rcases hExtends.rows j.id row hRow with
      ⟨row', hRow', hSame'⟩ | ⟨row', hRow', hSame'⟩
    · exact .inl ⟨row', hRow', hSame'.trans hSame⟩
    · exact .inr ⟨row', hRow', hSame'.trans hSame⟩
  · exact .inr ⟨row, hExtends.pruned hRow, hSame⟩

theorem KeyKnown.extends
    {tenantId : Uuid}
    {key : String}
    (hKnown : KeyKnown s tenantId key)
    (hExtends : s.Extends s') :
    KeyKnown s' tenantId key := by
  rcases hKnown with
    ⟨id, row, hRow, hHolds⟩ | ⟨row, hRow, hHolds⟩
  · rcases hExtends.rows id row hRow with
      ⟨row', hRow', hSame⟩ | ⟨row', hRow', hSame⟩
    · exact .inl ⟨id, row', hRow',
        hHolds.of_submission hSame.symm⟩
    · exact .inr ⟨row', hRow',
        hHolds.of_submission hSame.symm⟩
  · exact .inr ⟨row, hExtends.pruned hRow, hHolds⟩

/- What holds of every request. -/
structure RequestOk (s : Intake) (r : Submission) :
    Prop where
  used : r.job.id ∈ s.used
  tenant : r.job.tenantId = r.tenant.id
  unstored :
    r.phase = .checking ∨ r.phase = .inserting →
      s.store.db.job? r.job.id = none
  duplicate :
    r.phase = .duplicate →
      ∃ key, r.job.idempotencyKey = some key ∧
        KeyKnown s r.tenant.id key
  acknowledged :
    ∀ j, r.acknowledged? = some j →
      Known s j ∧ j.tenantId = r.tenant.id ∧
        j.idempotencyKey = r.job.idempotencyKey

/- A request that will make no call that stores a job. -/
theorem RequestOk.of_settled
    (hUsed : r.job.id ∈ s.used)
    (hTenant : r.job.tenantId = r.tenant.id)
    (hPhase :
      r.phase = .inserted ∨
        ∃ response, r.phase = .answered response)
    (hAck :
      ∀ j, r.acknowledged? = some j →
        Known s j ∧ j.tenantId = r.tenant.id ∧
          j.idempotencyKey = r.job.idempotencyKey) :
    RequestOk s r where
  used := hUsed
  tenant := hTenant
  unstored := by
    intro hOther
    rcases hPhase with hPhase | ⟨response, hPhase⟩ <;>
      simp [hPhase] at hOther
  duplicate := by
    intro hOther
    rcases hPhase with hPhase | ⟨response, hPhase⟩ <;>
      simp [hPhase] at hOther
  acknowledged := hAck

theorem RequestOk.extends
    (hOk : RequestOk s r)
    (hExtends : s.Extends s')
    (hUsed : s.used ⊆ s'.used)
    (hUnstored :
      s.store.db.job? r.job.id = none →
        s'.store.db.job? r.job.id = none) :
    RequestOk s' r where
  used := hUsed hOk.used
  tenant := hOk.tenant
  unstored := fun hPhase =>
    hUnstored (hOk.unstored hPhase)
  duplicate := by
    intro hPhase
    rcases hOk.duplicate hPhase with ⟨key, hKey, hKnown⟩
    exact ⟨key, hKey, hKnown.extends hExtends⟩
  acknowledged := by
    intro j hAck
    rcases hOk.acknowledged j hAck with ⟨hKnown, hSame⟩
    exact ⟨hKnown.extends hExtends, hSame⟩

------------------------------------------------------------
-- The Calls Of A Request
------------------------------------------------------------

section

variable {env : Env}
variable {executed : Bool}
variable {store : Store}
variable {r : Submission}

theorem checkLimit_db
    (env : Env)
    (t : Tenant)
    (store : Store) :
    (checkLimit env t store).2.db = store.db := by
  unfold checkLimit
  split <;> rfl

/- The moves of a request, one for each outcome of a call. -/
inductive Submission.Moves
    (env : Env)
    (store : Store)
    (r : Submission) :
    Store → Submission → Prop
| allowed {store' : Store} :
    r.phase = .checking → store'.db = store.db →
      Moves env store r store' (r.moveTo .inserting)
| refused {store' : Store} {response : Response} :
    store'.db = store.db →
      response = rateLimited ∨ response = insertFailed →
        Moves env store r store'
          (r.moveTo (.answered response))
| lost :
    store.db.job? r.job.id = none → KeyFree store.db r.job →
      Moves env store r
        { store with
          db := store.db.perform (.insertJob r.job.inserted) }
        (r.moveTo (.answered insertFailed))
| stored :
    store.db.job? r.job.id = none → KeyFree store.db r.job →
      Moves env store r
        { store with
          db := store.db.perform (.insertJob r.job.inserted) }
        (r.moveTo .inserted)
| duplicate :
    r.phase = .inserting →
      insertJob r.job store.db = .abort →
        Moves env store r store (r.moveTo .duplicate)
| lookedUp :
    r.phase = .duplicate →
      Moves env store r store
        (r.moveTo
          (.answered
            (duplicateResponse env r.tenant
              r.job.idempotencyKey store)))
| enqueued {redis : Redis} :
    r.phase = .inserted →
      Moves env store r { store with redis := redis }
        (r.moveTo (.answered (writeJSON 201 (.job r.job))))
| done : Moves env store r store r

theorem Submission.moves_next :
    r.Moves env store (r.next env executed store).1
      (r.next env executed store).2 := by
  unfold next
  split
  · rename_i hPhase
    have hDb := checkLimit_db env r.tenant store
    dsimp only
    split
    · exact .allowed hPhase hDb
    · exact .refused hDb (.inl rfl)
  · rename_i hPhase
    unfold insert
    split
    · rename_i hInsert
      split
      · exact .refused rfl (.inr rfl)
      · exact .duplicate hPhase hInsert
    · rename_i writes locks hInsert
      rcases insertJob_proceeds hInsert with
        ⟨rfl, hNew, hFree⟩
      split
      · split
        · exact .lost hNew hFree
        · exact .refused rfl (.inr rfl)
      · exact .stored hNew hFree
  · rename_i hPhase
    exact .lookedUp hPhase
  · rename_i hPhase
    exact .enqueued hPhase
  · exact .done

section

variable {store' : Store}
variable {r' : Submission}

theorem Submission.Moves.fixed
    (hMoves : r.Moves env store store' r') :
    r'.job = r.job ∧ r'.tenant = r.tenant := by
  cases hMoves <;> exact ⟨rfl, rfl⟩

/- The jobs are kept, or the request's job is added. -/
theorem Submission.Moves.db
    (hMoves : r.Moves env store store' r') :
    store'.db = store.db ∨
      (store.db.job? r.job.id = none ∧
        KeyFree store.db r.job ∧
          store'.db =
            store.db.perform
              (.insertJob r.job.inserted)) := by
  cases hMoves with
  | allowed _ hDb => exact .inl hDb
  | refused hDb _ => exact .inl hDb
  | lost hNew hFree => exact .inr ⟨hNew, hFree, rfl⟩
  | stored hNew hFree => exact .inr ⟨hNew, hFree, rfl⟩
  | duplicate | lookedUp | enqueued | done => exact .inl rfl

end

/- A repeated submission is answered with the key's job. -/
theorem acknowledged_of_duplicateResponse
    {t : Tenant}
    {key : Option String}
    {j job : Job}
    (hAck :
      (Submission.mk t job
        (.answered
          (duplicateResponse env t key store))).acknowledged? =
        some j) :
    store.db.job? j.id = some j ∧ j.tenantId = t.id ∧
      j.idempotencyKey = key := by
  unfold duplicateResponse at hAck
  dsimp only at hAck
  split at hAck
  · rename_i existing hFound
    cases hAck
    split at hFound
    · cases hFound
    · rcases Option.bind_eq_some_iff.mp hFound with
        ⟨key', hKey, hRow⟩
      rcases getJobByIdempotencyKey_eq_some hRow with
        ⟨hJob, hHolds⟩
      exact ⟨hJob, hHolds.1, hHolds.2.trans hKey.symm⟩
  · cases hAck

end

------------------------------------------------------------
-- Steps
------------------------------------------------------------

/- What holds in every state reached. -/
structure IntakeOk (s : Intake) : Prop where
  unique : OneJobPerKey s.store.db
  rows :
    ∀ id j, s.store.db.job? id = some j → id ∈ s.used
  finished :
    ∀ row ∈ s.pruned,
      row.state = .succeeded ∨ row.state = .cancelled ∨
        row.state = .dead
  distinct : (s.requests.map (fun r => r.job.id)).Nodup
  requests : ∀ r ∈ s.requests, RequestOk s r

section Next

variable {env : Env}
variable {r r' : Submission}
variable {store' : Store}

/- The origins of rows after a call of a request. -/
theorem Submission.Moves.origins
    (hMoves : r.Moves env s.store store' r') :
    ∀ id j, store'.db.job? id = some j →
      Origin s.store.db (some r.job) id j := by
  intro id j hJob
  rcases hMoves.db with hSame | ⟨hNew, hFree, hDb⟩
  · rw [hSame] at hJob
    exact .kept j hJob rfl
  · rw [hDb, job?_insert id hNew] at hJob
    split at hJob
    · rename_i hId
      cases hJob
      subst hId
      exact .inserted r.job rfl rfl rfl hNew hFree
    · exact .kept j hJob rfl

theorem Submission.Moves.extends
    (hMoves : r.Moves env s.store store' r')
    (requests : List Submission) :
    s.Extends
      { s with store := store', requests := requests } where
  rows := by
    intro id j hJob
    rcases hMoves.db with hSame | ⟨hNew, _, hDb⟩
    · refine .inl ⟨j, ?_, rfl⟩
      change store'.db.job? id = some j
      rw [hSame]
      exact hJob
    · refine .inl ⟨j, ?_, rfl⟩
      change store'.db.job? id = some j
      rw [hDb, job?_insert id hNew, if_neg]
      · exact hJob
      · rintro rfl
        rw [hJob] at hNew
        cases hNew
  pruned := List.Subset.refl _

/- Another request's job is not stored by the call. -/
theorem Submission.Moves.unstored
    (hMoves : r.Moves env s.store store' r')
    {id : Uuid}
    (hOther : id ≠ r.job.id)
    (hNone : s.store.db.job? id = none) :
    store'.db.job? id = none := by
  apply job?_eq_none_of_origins hMoves.origins ?_ hNone
  intro new hInserts
  cases hInserts
  exact hOther.symm

/- The request itself after its call. -/
theorem RequestOk.next
    (hOk : RequestOk s r)
    (hMoves : r.Moves env s.store store' r')
    (requests : List Submission) :
    RequestOk
      { s with store := store', requests := requests }
      r' := by
  have hExtends := hMoves.extends requests
  cases hMoves with
  | allowed hPhase hDb =>
      refine ⟨hOk.used, hOk.tenant, ?_, by rintro ⟨⟩,
        by rintro j ⟨⟩⟩
      intro _
      change store'.db.job? r.job.id = none
      rw [hDb]
      exact hOk.unstored (.inl hPhase)
  | refused hDb hResponse =>
      refine .of_settled hOk.used hOk.tenant
        (.inr ⟨_, rfl⟩) ?_
      intro j hAck
      rcases hResponse with rfl | rfl <;> cases hAck
  | lost hNew hFree =>
      exact .of_settled hOk.used hOk.tenant
        (.inr ⟨_, rfl⟩) (by rintro j ⟨⟩)
  | stored hNew hFree =>
      refine .of_settled hOk.used hOk.tenant (.inl rfl) ?_
      intro j hAck
      cases hAck
      have hRow :=
        (job?_insert r.job.id hNew).trans (if_pos rfl)
      exact ⟨.inl ⟨r.job.inserted, hRow, rfl⟩, hOk.tenant,
        rfl⟩
  | duplicate hPhase hInsert =>
      refine ⟨hOk.used, hOk.tenant, by rintro (⟨⟨⟩⟩ | ⟨⟨⟩⟩),
        ?_, by rintro j ⟨⟩⟩
      intro _
      -- Its identifier is new, so its key was taken.
      rcases insertJob_aborts hInsert
          (hOk.unstored (.inr hPhase)) with
        ⟨key, id, row, hKey, hRow, hHolds⟩
      rw [hOk.tenant] at hHolds
      exact ⟨key, hKey, .inl ⟨id, row, hRow, hHolds⟩⟩
  | lookedUp hPhase =>
      refine .of_settled hOk.used hOk.tenant
        (.inr ⟨_, rfl⟩) ?_
      intro j hAck
      rcases acknowledged_of_duplicateResponse hAck with
        ⟨hJob, hSame⟩
      exact ⟨.inl ⟨j, hJob, rfl⟩, hSame⟩
  | enqueued hPhase =>
      refine .of_settled hOk.used hOk.tenant
        (.inr ⟨_, rfl⟩) ?_
      intro j hAck
      cases hAck
      have hBefore : r.acknowledged? = some r.job := by
        unfold Submission.acknowledged?
        rw [hPhase]
      exact
        ⟨(hOk.acknowledged _ hBefore).1.extends hExtends,
          hOk.tenant, rfl⟩
  | done =>
      exact hOk.extends hExtends (List.Subset.refl _)
        (fun hNone => hNone)

/- A call of one request keeps all of this. -/
theorem IntakeOk.next
    {l₁ l₂ : List Submission}
    (hOk : IntakeOk s)
    (hSplit : s.requests = l₁ ++ r :: l₂)
    (hMoves : r.Moves env s.store store' r') :
    IntakeOk
      { s with
        store := store'
        requests := l₁ ++ r' :: l₂ } := by
  have hRequest :=
    hOk.requests r (self_mem_of_split hSplit)
  have hDistinct := hOk.distinct
  rw [hSplit, List.map_append, List.map_cons] at hDistinct
  refine ⟨?_, ?_, hOk.finished, ?_, ?_⟩
  · exact hOk.unique.of_origins hMoves.origins
  · intro id j hJob
    cases hMoves.origins id j hJob with
    | kept old hOld _ => exact hOk.rows id old hOld
    | inserted new hInserts _ hId _ _ =>
        cases hInserts
        rw [← hId]
        exact hRequest.used
  · simpa [hMoves.fixed.1] using hDistinct
  · intro f hf
    rcases mem_split_iff.mp hf with rfl | hOther
    · exact hRequest.next hMoves _
    · have hNe : f.job.id ≠ r.job.id := by
        have hApart := List.nodup_middle.mp hDistinct
        intro hSame
        refine (List.nodup_cons.mp hApart).1 ?_
        rw [← List.map_append, ← hSame]
        exact List.mem_map_of_mem hOther
      exact (hOk.requests f
        (mem_of_split hSplit hOther)).extends
        (hMoves.extends _) (List.Subset.refl _)
        (hMoves.unstored hNe)

end Next

/- A statement of another process keeps all of this. -/
theorem IntakeOk.perform
    {statement : Statement}
    (hOk : IntakeOk s)
    (hStep : s.perform statement = some s') :
    IntakeOk s' := by
  unfold Intake.perform at hStep
  split at hStep
  · cases hStep
  rename_i hFresh
  rcases Option.map_eq_some_iff.mp hStep with
    ⟨db, hDb, rfl⟩
  have hNew :
      ∀ new, statement.inserts? = some new →
        new.id ∉ s.used := by
    intro new hInserts hUsed
    apply hFresh
    simp [hInserts, hUsed]
  have hOrigins :
      ∀ id j, db.job? id = some j →
        Origin s.store.db statement.inserts? id j := by
    intro id j hJob
    exact Statement.step_job hDb hJob
  have hExtends :
      s.Extends
        { s with
          store := { s.store with db := db }
          used :=
            (statement.inserts?.map Job.id).toList ++ s.used
          pruned :=
            deletedRows s.store.db db ++ s.pruned } := by
    refine ⟨?_, List.subset_append_right _ _⟩
    intro id j hJob
    rcases kept_or_deleted hDb hJob with hKept | hDeleted
    · exact .inl hKept
    · exact .inr
        ⟨j, List.mem_append_left _ hDeleted, rfl⟩
  refine ⟨hOk.unique.step hDb, ?_, ?_, hOk.distinct, ?_⟩
  · intro id j hJob
    cases hOrigins id j hJob with
    | kept old hOld _ =>
        exact List.mem_append_right _ (hOk.rows id old hOld)
    | inserted new hInserts _ hId _ _ =>
        apply List.mem_append_left
        simp [hInserts, hId]
  · intro row hRow
    rcases List.mem_append.mp hRow with hDeleted | hBefore
    · exact finished_of_deleted hDb hDeleted
    · exact hOk.finished row hBefore
  · intro r hr
    have hRequest := hOk.requests r hr
    refine hRequest.extends hExtends
      (List.subset_append_right _ _) ?_
    apply job?_eq_none_of_origins hOrigins
    intro new hInserts hId
    apply hNew new hInserts
    rw [hId]
    exact hRequest.used

/- The job of a request has the request's new identifier. -/
theorem Submission.build_eq_ok
    {env : Env}
    {t : Tenant}
    {body : Option SubmitJobRequest}
    {traceParent : Option String}
    (hBuild : build P env t body traceParent = .ok j) :
    j.id = env.newId ∧ j.tenantId = t.id := by
  unfold build at hBuild
  split at hBuild
  · cases hBuild
  split at hBuild
  · cases hBuild
  split at hBuild
  · cases hBuild
  · rename_i hSubmit
    cases hBuild
    exact submitJob_ids hSubmit

/- A new request keeps all of this. -/
theorem IntakeOk.receive
    {t : Tenant}
    (hOk : IntakeOk s)
    (hNew : j.id ∉ s.used)
    (hTenant : j.tenantId = t.id) :
    IntakeOk
      { s with
        requests := ⟨t, j, .checking⟩ :: s.requests
        used := j.id :: s.used } := by
  have hUsed := List.subset_cons_self j.id s.used
  refine ⟨hOk.unique, ?_, hOk.finished, ?_, ?_⟩
  · intro id row hJob
    exact hUsed (hOk.rows id row hJob)
  · refine List.nodup_cons.mpr ⟨?_, hOk.distinct⟩
    intro hMem
    rcases List.mem_map.mp hMem with ⟨r, hr, hSame⟩
    refine hNew ?_
    rw [show j.id = r.job.id from hSame.symm]
    exact (hOk.requests r hr).used
  · intro r hr
    rcases List.mem_cons.mp hr with rfl | hOld
    · refine ⟨List.mem_cons_self, hTenant, ?_,
        by rintro ⟨⟩, by rintro j ⟨⟩⟩
      intro _
      change s.store.db.job? j.id = none
      cases hJob : s.store.db.job? j.id with
      | none => rfl
      | some row => exact absurd (hOk.rows _ row hJob) hNew
    · exact (hOk.requests r hOld).extends
        (.of_same rfl rfl) hUsed (fun hNone => hNone)

theorem IntakeOk.step
    {label : Intake.Label}
    (hOk : IntakeOk s)
    (hStep : Intake.step P label s = some s') :
    IntakeOk s' := by
  unfold Intake.step at hStep
  split at hStep
  · split at hStep
    · cases hStep
      exact hOk
    · rename_i j hBuild
      rcases Submission.build_eq_ok hBuild with
        ⟨hId, hTenant⟩
      split at hStep
      · cases hStep
      · rename_i hNew
        cases hStep
        rw [← hId] at hNew ⊢
        exact hOk.receive hNew hTenant
  · split at hStep
    · cases hStep
    · rename_i r hGet
      cases hStep
      rcases exists_split_of_getElem? hGet with
        ⟨l₁, l₂, hSplit, _, _, hSet⟩
      rw [hSet]
      exact hOk.next hSplit Submission.moves_next
  · cases hStep
    refine ⟨hOk.unique, hOk.rows, hOk.finished, ?_, ?_⟩
    · exact hOk.distinct.sublist
        ((List.eraseIdx_sublist _ _).map _)
    · intro r hr
      exact (hOk.requests r
        ((List.eraseIdx_sublist _ _).subset hr)).extends
        (.of_same rfl rfl) (List.Subset.refl _)
        (fun hNone => hNone)
  · exact hOk.perform hStep
  · cases hStep
    refine ⟨hOk.unique, hOk.rows, hOk.finished,
      hOk.distinct, ?_⟩
    intro r hr
    exact (hOk.requests r hr).extends (.of_same rfl rfl)
      (List.Subset.refl _) (fun hNone => hNone)

theorem intake_ok
    (hReach : (intake P).Reachable s) :
    IntakeOk s := by
  refine hReach.invariant ?_ ?_
  · rintro s ⟨hDb, hRequests, _, hPruned⟩
    refine ⟨?_, ?_, ?_, ?_, ?_⟩
    · intro tenantId key id id' j j' hJob
      rw [hDb.job?] at hJob
      cases hJob
    · intro id j hJob
      rw [hDb.job?] at hJob
      cases hJob
    · intro row hRow
      rw [hPruned] at hRow
      cases hRow
    · rw [hRequests]
      exact List.nodup_nil
    · intro r hr
      rw [hRequests] at hr
      cases hr
  · intro s label s' _ hOk _ hStep
    exact hOk.step hStep

------------------------------------------------------------
-- Idempotence
------------------------------------------------------------

/-
  What a client can rely on:
    * a tenant has at most one stored job for a key;
    * a job that was acknowledged is stored, with all that
      was submitted, until it is pruned;
    * answers to requests with the same key name the same
      job, unless one of the jobs has been pruned;
    * a submission whose key is free is stored and answered
      with its job, if the insertion does not fail;
    * a submission whose key is taken is answered with the
      job that has it, if no call fails in between; a job of
      that key may be pruned before the lookup;
    * only finished jobs are pruned.
-/
structure Idempotent (s : Intake) : Prop where
  one_job : OneJobPerKey s.store.db
  durable :
    ∀ r ∈ s.requests, ∀ j, r.acknowledged? = some j →
      Known s j
  agreed :
    ∀ r ∈ s.requests, ∀ r' ∈ s.requests, ∀ j j' key,
      r.acknowledged? = some j →
        r'.acknowledged? = some j' →
          r.tenant.id = r'.tenant.id →
            r.job.idempotencyKey = some key →
              r'.job.idempotencyKey = some key →
                j.id = j'.id ∨
                  ∃ row ∈ s.pruned,
                    HoldsKey r.tenant.id key row
  created :
    ∀ r ∈ s.requests, r.phase = .inserting →
      KeyFree s.store.db r.job →
        ∀ (env : Env) executed,
          env.fails .insertJob = false →
            (r.next env executed s.store).2 =
                r.moveTo .inserted ∧
              (r.next env executed s.store).1.db.job?
                  r.job.id =
                some r.job.inserted ∧
              ∀ env' executed' store,
                ((r.moveTo .inserted).next env' executed'
                    store).2.phase =
                  .answered (writeJSON 201 (.job r.job))
  taken :
    ∀ r ∈ s.requests, r.phase = .inserting →
      ∀ key id row, r.job.idempotencyKey = some key →
        s.store.db.job? id = some row →
          HoldsKey r.tenant.id key row →
            ∀ (env : Env) executed,
              env.fails .insertJob = false →
                r.next env executed s.store =
                    (s.store, r.moveTo .duplicate) ∧
                  ∀ (env' : Env) executed',
                    env'.fails .getJobByIdempotencyKey =
                        false →
                      ((r.moveTo .duplicate).next env'
                          executed' s.store).2.phase =
                        .answered (writeJSON 200 (.job row))
  repeated :
    ∀ r ∈ s.requests, r.phase = .duplicate →
      ∀ (env : Env) executed,
        env.fails .getJobByIdempotencyKey = false →
          ∃ key, r.job.idempotencyKey = some key ∧
            ((∃ row, HoldsKey r.tenant.id key row ∧
                s.store.db.job? row.id = some row ∧
                  (r.next env executed s.store).2.phase =
                    .answered
                      (writeJSON 200 (.job row))) ∨
              ∃ row ∈ s.pruned,
                HoldsKey r.tenant.id key row)
  finished :
    ∀ row ∈ s.pruned,
      row.state = .succeeded ∨ row.state = .cancelled ∨
        row.state = .dead

/- An acknowledged job of a key: stored, or pruned. -/
theorem RequestOk.holdsKey
    {key : String}
    (hOk : RequestOk s r)
    (hAck : r.acknowledged? = some j)
    (hKey : r.job.idempotencyKey = some key) :
    (∃ row, s.store.db.job? j.id = some row ∧
        HoldsKey r.tenant.id key row) ∨
      ∃ row ∈ s.pruned, HoldsKey r.tenant.id key row := by
  rcases hOk.acknowledged j hAck with
    ⟨hKnown, hTenant, hSame⟩
  have hHolds : HoldsKey r.tenant.id key j :=
    ⟨hTenant, hSame.trans hKey⟩
  rcases hKnown with ⟨row, hRow, hCols⟩ | ⟨row, hRow, hCols⟩
  · exact .inl ⟨row, hRow,
      hHolds.of_submission hCols.symm⟩
  · exact .inr ⟨row, hRow,
      hHolds.of_submission hCols.symm⟩

section

variable {r : Submission}
variable {env : Env}
variable {executed : Bool}

/- A submission whose key is free is stored. -/
theorem next_of_keyFree
    (hPhase : r.phase = .inserting)
    (hNew : s.store.db.job? r.job.id = none)
    (hFree : KeyFree s.store.db r.job)
    (hFails : env.fails .insertJob = false) :
    (r.next env executed s.store).2 =
        r.moveTo .inserted ∧
      (r.next env executed s.store).1.db.job? r.job.id =
        some r.job.inserted := by
  unfold Submission.next
  rw [hPhase]
  dsimp only
  unfold Submission.insert
  cases hInsert : insertJob r.job s.store.db with
  | abort =>
      rcases insertJob_aborts hInsert hNew with
        ⟨key, id, row, hKey, hRow, hHolds⟩
      exact absurd hHolds (hFree key hKey id row hRow)
  | proceed writes locks =>
      rcases insertJob_proceeds hInsert with ⟨rfl, _, _⟩
      rw [hFails]
      exact
        ⟨rfl, (job?_insert r.job.id hNew).trans (if_pos rfl)⟩

/- A submission whose key is taken is a duplicate. -/
theorem next_of_taken
    {key : String}
    {id : Uuid}
    {row : Job}
    (hPhase : r.phase = .inserting)
    (hTenant : r.job.tenantId = r.tenant.id)
    (hKey : r.job.idempotencyKey = some key)
    (hRow : s.store.db.job? id = some row)
    (hHolds : HoldsKey r.tenant.id key row)
    (hFails : env.fails .insertJob = false) :
    r.next env executed s.store =
      (s.store, r.moveTo .duplicate) := by
  unfold Submission.next
  rw [hPhase]
  dsimp only
  unfold Submission.insert
  cases hInsert : insertJob r.job s.store.db with
  | abort => simp only [hFails, Bool.false_eq_true, if_false]
  | proceed writes locks =>
      have hFree := (insertJob_proceeds hInsert).2.2
      rw [← hTenant] at hHolds
      exact absurd hHolds (hFree key hKey id row hRow)

/- The answer to a repeated submission. -/
theorem next_of_duplicate
    {key : String}
    {id : Uuid}
    {row : Job}
    (hUnique : OneJobPerKey s.store.db)
    (hPhase : r.phase = .duplicate)
    (hKey : r.job.idempotencyKey = some key)
    (hFails : env.fails .getJobByIdempotencyKey = false)
    (hRow : s.store.db.job? id = some row)
    (hHolds : HoldsKey r.tenant.id key row) :
    (r.next env executed s.store).2.phase =
      .answered (writeJSON 200 (.job row)) := by
  rcases Option.isSome_iff_exists.mp
      (getJobByIdempotencyKey_isSome env.scan hRow hHolds)
    with ⟨found, hFound⟩
  rcases getJobByIdempotencyKey_eq_some hFound with
    ⟨hJob, hFoundHolds⟩
  have hSame : found = row :=
    hUnique.eq_of_mem (Table.mem_of_find? hJob)
      (Table.mem_of_find? hRow) hFoundHolds hHolds
  subst hSame
  unfold Submission.next
  rw [hPhase]
  simp [Submission.moveTo, duplicateResponse, hFails, hKey,
    hFound]

end

/-
  The handler is taken apart into its calls. Whatever
  requests, statements and failures interleave with them, a
  client that repeats a submission with a key gets one job.
-/
theorem submissions_are_idempotent (P : RequestParsers) :
    (∀ env t store body traceParent,
      HandledInSteps env t store P body traceParent) ∧
      ∀ s, (intake P).Reachable s → Idempotent s := by
  constructor
  · intro env t store body traceParent
    exact handledInSteps env t store P body traceParent
  intro s hReach
  have hOk := intake_ok hReach
  refine ⟨hOk.unique, ?_, ?_, ?_, ?_, ?_, hOk.finished⟩
  · intro r hr j hAck
    exact ((hOk.requests r hr).acknowledged j hAck).1
  · intro r hr r' hr' j j' key hAck hAck' hTenant hKey hKey'
    rcases (hOk.requests r hr).holdsKey hAck hKey with
      ⟨row, hRow, hHolds⟩ | hPruned
    · rcases (hOk.requests r' hr').holdsKey hAck' hKey' with
        ⟨row', hRow', hHolds'⟩ | hPruned'
      · rw [← hTenant] at hHolds'
        exact .inl (hOk.unique _ _ _ _ row row' hRow hRow'
          hHolds hHolds')
      · rw [← hTenant] at hPruned'
        exact .inr hPruned'
    · exact .inr hPruned
  · intro r hr hPhase hFree env executed hFails
    have hNew :=
      (hOk.requests r hr).unstored (.inr hPhase)
    rcases next_of_keyFree hPhase hNew hFree hFails with
      ⟨hNext, hRow⟩
    exact ⟨hNext, hRow, fun _ _ _ => rfl⟩
  · intro r hr hPhase key id row hKey hRow hHolds env
      executed hFails
    have hTenant := (hOk.requests r hr).tenant
    refine
      ⟨next_of_taken hPhase hTenant hKey hRow hHolds hFails,
        ?_⟩
    intro env' executed' hFails'
    exact next_of_duplicate (r := r.moveTo .duplicate)
      hOk.unique rfl hKey hFails' hRow hHolds
  · intro r hr hPhase env executed hFails
    rcases (hOk.requests r hr).duplicate hPhase with
      ⟨key, hKey, ⟨id, row, hRow, hHolds⟩ | hPruned⟩
    · have hId := Db.id_of_job? hRow
      have hAnswer :
          (r.next env executed s.store).2.phase = _ :=
        next_of_duplicate hOk.unique hPhase hKey hFails hRow
          hHolds
      rw [← hId] at hRow
      exact ⟨key, hKey, .inl ⟨row, hHolds, hRow, hAnswer⟩⟩
    · exact ⟨key, hKey, .inr hPruned⟩

namespace Sample

/- Nothing has been submitted. -/
def idle : Intake where
  store := quiet
  requests := []
  used := []
  pruned := []

/- A submission of the first tenant with a key. -/
def keyed (newId : Uuid) : Intake.Label :=
  .receive (env newId) (tenant 1)
    (some
      ⟨⟨"webhook", "", none, none, none⟩, none,
        some "order-1"⟩)
    none

/-
  Two requests with one key: both pass the limiter, the first
  stores its job, and the second is answered before it.
-/
def twice : List Intake.Label :=
  [keyed 7, keyed 8, .next 1 (env 7) false,
    .next 0 (env 8) false, .next 1 (env 7) false,
    .next 0 (env 8) false, .next 0 (env 8) false,
    .next 1 (env 7) false]

end Sample

/- Both requests are answered with the first one's job. -/
theorem repeated_submission_gets_one_job :
    ∃ s, (intake Sample.parsers).Reachable s ∧
      s.requests.map
          (fun r => r.acknowledged?.map Job.id) =
        [some 7, some 7] ∧
      Idempotent s := by
  have hInit : (intake Sample.parsers).init Sample.idle :=
    ⟨⟨rfl, rfl, rfl⟩, rfl, rfl, rfl⟩
  rcases
    Machine.exists_reachable_of_run hInit Sample.twice
      (fun s =>
        s.requests.map
            (fun r => r.acknowledged?.map Job.id) =
          [some 7, some 7])
      (by decide +kernel)
  with ⟨s, hReach, hIds⟩
  exact ⟨s, hReach, hIds,
    (submissions_are_idempotent Sample.parsers).2 s hReach⟩

end Api

end Sluice
