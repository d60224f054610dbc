import Sluice.Api.Admin

/-
  What holds while operators change tenants through the admin
  API and the command line.

  Key definitions include:
    * `Desk.Writes` and `Desk.Effect`
    * `Desk.keys`
    * `freshKeys`
    * `devUntouched`

  Key theorems include:
    * `Desk.step_effect`
    * `Desk.Effect.recorded`
    * `tenants_stay_usable`
    * `keys_find_their_tenant`
    * `dev_token_is_refused`
-/

------------------------------------------------------------
-- What A Step Does
------------------------------------------------------------

namespace Sluice

namespace Api

namespace Admin

open Foundations Storage

namespace Desk

/- A write takes effect and is recorded. -/
structure Writes
    (s : Desk)
    (by_ : Option Nat)
    (w : TenantWrite)
    (s' : Desk) : Prop where
  execute : w.execute s.tenants = .ok s'.tenants
  eq :
    s' =
      { s with
        tenants := s'.tenants
        log := (by_, w) :: s.log }

/-
  What a handler sees of a statement that changed nothing.
-/
inductive Sees
    (cfg : Config)
    (fresh : Fresh)
    (s : Desk)
    (phase : Phase) :
    Except TenantError (Table Tenant) → Prop
| failed : Sees cfg fresh s phase (.error .failed)
| refused {stmt : Statement} {err : TenantError} :
    phase.statement cfg fresh = some stmt →
      stmt.result s.tenants = .error err →
        Sees cfg fresh s phase (.error err)
| read {stmt : Statement} :
    phase.statement cfg fresh = some stmt →
      (∀ w, stmt ≠ .write w) →
        stmt.result s.tenants = .ok s.tenants →
          Sees cfg fresh s phase (.ok s.tenants)

/- The effect of a step, by what it writes. -/
inductive Effect (cfg : Config) (s : Desk) : Label → Desk → Prop
| arrives {hdr : String} {r : Request} {phase : Phase} :
    (adminAuth cfg s.adminTokenHash hdr = none ∧
        phase = r.start ∨
      ∃ answer,
        adminAuth cfg s.adminTokenHash hdr = some answer ∧
          phase = .answered answer) →
      Effect cfg s (.request hdr r)
        { s with calls := s.calls ++ [⟨r, phase⟩] }
| passes
    {i : Nat} {fresh : Fresh} {outcome : Outcome}
    {call : Call}
    {res : Except TenantError (Table Tenant)} :
    s.calls[i]? = some call →
      s.Sees cfg fresh call.phase res →
        Effect cfg s (.statement i fresh outcome)
          (s.setPhase i call (call.phase.resume cfg fresh res))
| writes
    {i : Nat} {fresh : Fresh} {outcome : Outcome}
    {call : Call} {w : TenantWrite} {s' : Desk}
    {res : Except TenantError (Table Tenant)} :
    s.calls[i]? = some call →
      call.phase.statement cfg fresh = some (.write w) →
        s.Writes (some i) w s' →
          (res = .ok s'.tenants ∨ res = .error .failed) →
            Effect cfg s (.statement i fresh outcome)
              (s'.setPhase i call
                (call.phase.resume cfg fresh res))
| idles {c : Command} {fresh : Fresh} {outcome : Outcome} :
    Effect cfg s (.command c fresh outcome) s
| commands
    {c : Command} {fresh : Fresh} {outcome : Outcome}
    {w : TenantWrite} {s' : Desk} :
    c.write cfg fresh = .ok w →
      s.Writes none w s' →
        Effect cfg s (.command c fresh outcome) s'

variable {cfg : Config}
variable {s s' : Desk}
variable {w : TenantWrite}
variable {i : Nat}
variable {fresh : Fresh}
variable {outcome : Outcome}

theorem writes_of_perform
    (s : Desk)
    (by_ : Option Nat)
    {tenants : Table Tenant}
    (hOk : w.execute s.tenants = .ok tenants) :
    s.Writes by_ w (s.perform by_ w) ∧
      (s.perform by_ w).tenants = tenants := by
  have hEq :
      s.perform by_ w =
        { s with
          tenants := tenants
          log := (by_, w) :: s.log } := by
    simp only [perform, hOk]
  rw [hEq]
  exact ⟨⟨hOk, rfl⟩, rfl⟩

theorem perform_of_error
    (s : Desk)
    (by_ : Option Nat)
    {err : TenantError}
    (hErr : w.execute s.tenants = .error err) :
    s.perform by_ w = s := by
  simp only [perform, hErr]

/- A handler whose statement is made. -/
theorem effect_of_write
    {call : Call}
    (hCall : s.calls[i]? = some call)
    (hWrite :
      call.phase.statement cfg fresh = some (.write w)) :
    Effect cfg s (.statement i fresh outcome)
      ((if outcome = .failed then s
          else s.execute i (.write w)).setPhase i call
        (call.phase.resume cfg fresh
          (outcome.seen (w.execute s.tenants)))) := by
  cases hRes : w.execute s.tenants with
  | error err =>
      have hSame :
          (if outcome = .failed then s
            else s.execute i (.write w)) = s := by
        split
        · rfl
        · exact s.perform_of_error (some i) hRes
      rw [hSame]
      cases outcome with
      | done =>
          exact .passes hCall (.refused hWrite hRes)
      | failed => exact .passes hCall .failed
      | lost => exact .passes hCall .failed
  | ok tenants =>
      rcases s.writes_of_perform (some i) hRes with
        ⟨hWrites, hTenants⟩
      cases outcome with
      | failed => exact .passes hCall .failed
      | lost =>
          exact .writes hCall hWrite hWrites (.inr rfl)
      | done =>
          exact .writes hCall hWrite hWrites
            (.inl (congrArg Except.ok hTenants.symm))

/- A handler whose statement only reads. -/
theorem effect_of_read
    {call : Call}
    {stmt : Statement}
    (hCall : s.calls[i]? = some call)
    (hStmt : call.phase.statement cfg fresh = some stmt)
    (hRead : ∀ w, stmt ≠ .write w) :
    Effect cfg s (.statement i fresh outcome)
      (s.setPhase i call
        (call.phase.resume cfg fresh
          (outcome.seen (stmt.result s.tenants)))) := by
  cases outcome with
  | failed => exact .passes hCall .failed
  | lost => exact .passes hCall .failed
  | done =>
      cases hRes : stmt.result s.tenants with
      | error err =>
          exact .passes hCall (.refused hStmt hRes)
      | ok tenants =>
          have hSame : tenants = s.tenants := by
            cases stmt with
            | write w => exact absurd rfl (hRead w)
            | list =>
                cases hRes
                rfl
            | get id =>
                simp only [Statement.result] at hRes
                split at hRes
                · cases hRes
                  rfl
                · cases hRes
          subst hSame
          exact .passes hCall (.read hStmt hRead hRes)

theorem statement_effect
    (hStep : s.statement cfg i fresh outcome = some s') :
    Effect cfg s (.statement i fresh outcome) s' := by
  unfold statement at hStep
  split at hStep
  · cases hStep
  · rename_i call hCall
    split at hStep
    · cases hStep
    · split at hStep
      · cases hStep
        exact .passes hCall .failed
      · rename_i stmt hStmt
        cases hStep
        cases stmt with
        | write w => exact effect_of_write hCall hStmt
        | list =>
            simp only [execute, ite_self]
            exact effect_of_read hCall hStmt
              (fun _ hEq => nomatch hEq)
        | get id =>
            simp only [execute, ite_self]
            exact effect_of_read hCall hStmt
              (fun _ hEq => nomatch hEq)

theorem step_effect
    {label : Label}
    (hStep : step cfg label s = some s') :
    Effect cfg s label s' := by
  cases label with
  | request hdr r =>
      cases hStep
      cases hAuth : adminAuth cfg s.adminTokenHash hdr with
      | none => exact .arrives (.inl ⟨hAuth, rfl⟩)
      | some answer =>
          exact .arrives (.inr ⟨answer, hAuth, rfl⟩)
  | statement i fresh outcome => exact statement_effect hStep
  | command c fresh outcome =>
      simp only [step] at hStep
      split at hStep
      · cases hStep
        exact .idles
      · rename_i w hWrite
        split at hStep
        · cases hStep
          exact .idles
        · cases hStep
          cases hRes : w.execute s.tenants with
          | error err =>
              rw [s.perform_of_error none hRes]
              exact .idles
          | ok tenants =>
              exact .commands hWrite
                (s.writes_of_perform none hRes).1

/- The writes that a step may make. -/
inductive Issues
    (cfg : Config)
    (s : Desk) :
    Label → TenantWrite → Prop
| statement
    {i : Nat} {fresh : Fresh} {outcome : Outcome}
    {call : Call} {w : TenantWrite} :
    call ∈ s.calls →
      call.phase.statement cfg fresh = some (.write w) →
        Issues cfg s (.statement i fresh outcome) w
| command
    {c : Command} {fresh : Fresh} {outcome : Outcome}
    {w : TenantWrite} :
    c.write cfg fresh = .ok w →
      Issues cfg s (.command c fresh outcome) w

variable {label : Label}

/- The table changes by recorded writes only. -/
theorem Effect.recorded
    (hEffect : Effect cfg s label s') :
    s'.start = s.start ∧
      ((s'.tenants = s.tenants ∧ s'.log = s.log) ∨
        ∃ by_ w, s.Issues cfg label w ∧
          w.execute s.tenants = .ok s'.tenants ∧
            s'.log = (by_, w) :: s.log) := by
  cases hEffect with
  | arrives _ => exact ⟨rfl, .inl ⟨rfl, rfl⟩⟩
  | passes _ _ => exact ⟨rfl, .inl ⟨rfl, rfl⟩⟩
  | idles => exact ⟨rfl, .inl ⟨rfl, rfl⟩⟩
  | @writes i _ _ call w s₁ _ hCall hStmt hWrites _ =>
      have hMem : call ∈ s.calls := List.mem_of_getElem? hCall
      have hStart : s₁.start = s.start := by
        rw [hWrites.eq]
      have hLog : s₁.log = (some i, w) :: s.log := by
        rw [hWrites.eq]
      exact ⟨hStart, .inr ⟨some i, w, .statement hMem hStmt,
        hWrites.execute, hLog⟩⟩
  | @commands _ _ _ w _ hWrite hWrites =>
      have hStart : s'.start = s.start := by
        rw [hWrites.eq]
      have hLog : s'.log = (none, w) :: s.log := by
        rw [hWrites.eq]
      exact ⟨hStart, .inr ⟨none, w, .command hWrite,
        hWrites.execute, hLog⟩⟩

/-
  What all phases have in common is kept by a step, if new
  requests have it and the handlers keep it.
-/
theorem Effect.phases
    {P : Phase → Prop}
    (hEffect : Effect cfg s label s')
    (hCalls : ∀ call ∈ s.calls, P call.phase)
    (hStart :
      ∀ hdr r, label = .request hdr r →
        adminAuth cfg s.adminTokenHash hdr = none →
          P r.start)
    (hAnswered : ∀ answer, P (.answered answer))
    (hResume :
      ∀ phase fresh res, P phase →
        P (phase.resume cfg fresh res)) :
    ∀ call ∈ s'.calls, P call.phase := by
  have hSet :
      ∀ (i : Nat) (call : Call) (fresh : Fresh)
        (res : Except TenantError (Table Tenant)),
        s.calls[i]? = some call →
          ∀ c ∈ s.calls.set i
              { call with
                phase := call.phase.resume cfg fresh res },
            P c.phase := by
    intro i call fresh res hCall c hMem
    rcases List.mem_or_eq_of_mem_set hMem with hOld | rfl
    · exact hCalls c hOld
    · exact hResume _ _ _
        (hCalls call (List.mem_of_getElem? hCall))
  cases hEffect with
  | arrives hPhase =>
      intro call hMem
      rcases List.mem_append.mp hMem with hOld | hNew
      · exact hCalls call hOld
      · cases List.mem_singleton.mp hNew
        rcases hPhase with ⟨hAuth, rfl⟩ | ⟨answer, _, rfl⟩
        · exact hStart _ _ rfl hAuth
        · exact hAnswered answer
  | passes hCall _ => exact hSet _ _ _ _ hCall
  | idles => exact hCalls
  | @writes i fresh _ call _ s₁ res hCall _ hWrites _ =>
      have hSame : s₁.calls = s.calls := by
        rw [hWrites.eq]
      intro c hMem
      refine hSet i call fresh res hCall c ?_
      rw [← hSame]
      exact hMem
  | commands _ hWrites =>
      have hSame : s'.calls = s.calls := by
        rw [hWrites.eq]
      rw [hSame]
      exact hCalls

end Desk

------------------------------------------------------------
-- Limits
------------------------------------------------------------

variable {cfg : Config}

/-
  The phase that a request begins in: it is refused, or its
  first statement follows from what was checked.
-/
inductive Request.Starts : Request → Phase → Prop
| refused {r : Request} {code : Nat} {message : String} :
    400 ≤ code → code < 500 →
      Starts r (.answered (refuse code message))
| create {body : CreateTenantRequest} :
    validate body.limits = .ok () →
      Starts (.createTenant (some body))
        (.insertTenant body.name
          (body.limits.rateLimit.getD 100)
          (body.limits.weight.getD 100)
          (body.limits.maxConcurrency.getD 0))
| list : Starts .listTenants .listAllTenants
| get {id : Uuid} :
    Starts (.getTenant (some id)) (.getTenantAnyStatus id)
| update {id : Uuid} {body : UpdateTenantRequest} :
    validate body.limits = .ok () →
      Starts (.updateTenant (some id) (some body))
        (updateLimits id body.limits
          (body.status.bind parseStatus))
| rotateKey {id : Uuid} :
    Starts (.rotateKey (some id)) (.rotateAPIKey id)
| rotateSecret {id : Uuid} :
    Starts (.rotateWebhookSecret (some id))
      (.rotateWebhookSecret id)

theorem starts_startUpdate
    (id : Uuid)
    (body : UpdateTenantRequest) :
    Request.Starts (.updateTenant (some id) (some body))
      (startUpdate id body) := by
  unfold startUpdate
  split
  · exact .refused (by decide) (by decide)
  · rename_i hOk
    have hUpdate := @Request.Starts.update id body hOk
    split
    · rename_i hNone
      rw [hNone] at hUpdate
      exact hUpdate
    · rename_i text hText
      split
      · exact .refused (by decide) (by decide)
      · rename_i status hParse
        rw [hText, Option.bind_some, hParse] at hUpdate
        exact hUpdate

theorem Request.starts
    (r : Request) :
    r.Starts r.start := by
  cases r with
  | createTenant body =>
      cases body with
      | none => exact .refused (by decide) (by decide)
      | some body =>
          simp only [Request.start, withBody, startCreate]
          split
          · exact .refused (by decide) (by decide)
          · split
            · exact .refused (by decide) (by decide)
            · rename_i hOk
              exact .create hOk
  | listTenants => exact .list
  | getTenant id =>
      cases id with
      | none => exact .refused (by decide) (by decide)
      | some id => exact .get
  | updateTenant id body =>
      cases id with
      | none => exact .refused (by decide) (by decide)
      | some id =>
          cases body with
          | none => exact .refused (by decide) (by decide)
          | some body => exact starts_startUpdate id body
  | rotateKey id =>
      cases id with
      | none => exact .refused (by decide) (by decide)
      | some id => exact .rotateKey
  | rotateWebhookSecret id =>
      cases id with
      | none => exact .refused (by decide) (by decide)
      | some id => exact .rotateSecret

/- The limits that `validate` accepts. -/
structure TenantLimits.Valid (l : TenantLimits) : Prop where
  rateLimit : ∀ n, l.rateLimit = some n → 0 ≤ n
  weight : ∀ n, l.weight = some n → 0 < n

theorem valid_of_validate
    {l : TenantLimits}
    (hOk : validate l = .ok ()) :
    l.Valid := by
  unfold validate at hOk
  split at hOk
  · cases hOk
  · rename_i hRate
    split at hOk
    · cases hOk
    · rename_i hWeight
      constructor
      · intro n hSome
        rw [hSome] at hRate
        simpa using hRate
      · intro n hSome
        rw [hSome] at hWeight
        simpa using hWeight

/- The limits in a phase have been checked. -/
def Phase.Checked : Phase → Prop
| .insertTenant _ rateLimit weight _ =>
    0 ≤ rateLimit ∧ 0 < weight
| .updateTenantLimits _ limits _ => limits.Valid
| _ => True

theorem checked_updateStatus
    (id : Uuid)
    (status : Option TenantStatus) :
    (updateStatus id status).Checked := by
  cases status with
  | none => trivial
  | some status => trivial

theorem checked_updateLimits
    {limits : TenantLimits}
    (hValid : limits.Valid)
    (id : Uuid)
    (status : Option TenantStatus) :
    (updateLimits id limits status).Checked := by
  unfold updateLimits
  split
  · exact hValid
  · exact checked_updateStatus id status

theorem Request.checked_start
    (r : Request) :
    r.start.Checked := by
  have hStarts := r.starts
  generalize r.start = phase at hStarts ⊢
  cases hStarts with
  | create hOk =>
      have hValid := valid_of_validate hOk
      exact
        ⟨TenantWrite.getD_of_forall hValid.rateLimit
            (Int.natCast_nonneg 100),
          TenantWrite.getD_of_forall hValid.weight
            (Int.natCast_pos.mpr (by decide))⟩
  | update hOk =>
      exact checked_updateLimits (valid_of_validate hOk) _ _
  | refused _ _ | list | get | rotateKey | rotateSecret =>
      trivial

theorem onError_eq_answered
    (message : String)
    (err : TenantError) :
    ∃ answer, onError message err = .answered answer := by
  cases err with
  | notFound => exact ⟨_, rfl⟩
  | failed => exact ⟨_, rfl⟩

/- Only an update has a second and a third statement. -/
theorem Phase.resume_cases
    (cfg : Config)
    (phase : Phase)
    (fresh : Fresh)
    (res : Except TenantError (Table Tenant)) :
    (∃ answer, phase.resume cfg fresh res = .answered answer) ∨
      (∃ id limits status,
        phase = .updateTenantLimits id limits status ∧
          phase.resume cfg fresh res =
            updateStatus id status) ∨
        ∃ id status, phase = .setTenantStatus id status ∧
          phase.resume cfg fresh res =
            .getTenantAnyStatus id := by
  cases phase with
  | insertTenant name rateLimit weight maxConcurrency =>
      simp only [resume]
      split
      · exact .inl ⟨_, rfl⟩
      · exact .inl ⟨_, rfl⟩
  | listAllTenants =>
      cases res with
      | error err => exact .inl ⟨_, rfl⟩
      | ok tenants => exact .inl ⟨_, rfl⟩
  | updateTenantLimits id limits status =>
      cases res with
      | error err => exact .inl (onError_eq_answered _ err)
      | ok tenants =>
          exact .inr (.inl ⟨id, limits, status, rfl, rfl⟩)
  | setTenantStatus id status =>
      cases res with
      | error err => exact .inl (onError_eq_answered _ err)
      | ok tenants =>
          exact .inr (.inr ⟨id, status, rfl, rfl⟩)
  | getTenantAnyStatus id =>
      cases res with
      | error err => exact .inl (onError_eq_answered _ err)
      | ok tenants =>
          simp only [resume, showTenant]
          split
          · exact .inl ⟨_, rfl⟩
          · exact .inl (onError_eq_answered _ _)
  | rotateAPIKey id | rotateWebhookSecret id =>
      cases res with
      | error err => exact .inl (onError_eq_answered _ err)
      | ok tenants =>
          simp only [resume]
          split
          · exact .inl ⟨_, rfl⟩
          · exact .inl (onError_eq_answered _ _)
  | answered answer => exact .inl ⟨answer, rfl⟩

theorem Phase.checked_resume
    (phase : Phase)
    (fresh : Fresh)
    (res : Except TenantError (Table Tenant)) :
    (phase.resume cfg fresh res).Checked := by
  rcases phase.resume_cases cfg fresh res with
    ⟨answer, hEq⟩ | ⟨id, _, status, _, hEq⟩ | ⟨id, _, _, hEq⟩
  · rw [hEq]
    trivial
  · rw [hEq]
    exact checked_updateStatus id status
  · rw [hEq]
    trivial

variable {fresh : Fresh}
variable {w : TenantWrite}
variable {id : Uuid}
variable {phase : Phase}
variable {c : Command}

/- The write of `InsertTenant`, if its keys were drawn. -/
theorem insertTenant_eq_ok
    {name : String}
    {rateLimit weight maxConcurrency : Int}
    (hOk :
      insertTenant cfg fresh name rateLimit weight
        maxConcurrency = .ok w) :
    ∃ key secret, fresh.apiKey = .ok key ∧
      fresh.webhookSecret = .ok secret ∧
        w =
          .change
            (.insertTenant
              (newTenant cfg fresh.id key secret name
                rateLimit weight maxConcurrency)) := by
  unfold insertTenant at hOk
  split at hOk
  · cases hOk
  · cases hOk
  · rename_i key secret hKey hSecret
    cases hOk
    exact ⟨key, secret, hKey, hSecret, rfl⟩

theorem rotateAPIKey_eq_ok
    (hOk : rotateAPIKey cfg fresh id = .ok w) :
    ∃ key, fresh.apiKey = .ok key ∧
      w = .change (.rotateAPIKey id (cfg.digest key)) := by
  unfold rotateAPIKey at hOk
  cases hKey : fresh.apiKey with
  | error err =>
      rw [hKey] at hOk
      cases hOk
  | ok key =>
      rw [hKey] at hOk
      cases hOk
      exact ⟨key, rfl, rfl⟩

theorem rotateWebhookSecret_eq_ok
    (hOk : rotateWebhookSecret fresh id = .ok w) :
    ∃ secret, fresh.webhookSecret = .ok secret ∧
      w = .change (.rotateWebhookSecret id secret) := by
  unfold rotateWebhookSecret at hOk
  cases hSecret : fresh.webhookSecret with
  | error err =>
      rw [hSecret] at hOk
      cases hOk
  | ok secret =>
      rw [hSecret] at hOk
      cases hOk
      exact ⟨secret, rfl, rfl⟩

/- The writes of a handler, by phase. -/
inductive Phase.WritesAs
    (cfg : Config)
    (fresh : Fresh) :
    Phase → TenantWrite → Prop
| insertTenant
    {name : String} {rateLimit weight maxConcurrency : Int}
    {key secret : String} :
    fresh.apiKey = .ok key →
      fresh.webhookSecret = .ok secret →
        Phase.WritesAs cfg fresh
          (.insertTenant name rateLimit weight maxConcurrency)
          (.change
            (.insertTenant
              (newTenant cfg fresh.id key secret name
                rateLimit weight maxConcurrency)))
| limits
    {id : Uuid} {limits : TenantLimits}
    {status : Option TenantStatus} :
    Phase.WritesAs cfg fresh
      (.updateTenantLimits id limits status)
      (setLimits id limits)
| status {id : Uuid} {status : TenantStatus} :
    Phase.WritesAs cfg fresh (.setTenantStatus id status)
      (setStatus id status)
| rotateAPIKey {id : Uuid} {key : String} :
    fresh.apiKey = .ok key →
      Phase.WritesAs cfg fresh (.rotateAPIKey id)
        (.change (.rotateAPIKey id (cfg.digest key)))
| rotateWebhookSecret {id : Uuid} {secret : String} :
    fresh.webhookSecret = .ok secret →
      Phase.WritesAs cfg fresh (.rotateWebhookSecret id)
        (.change (.rotateWebhookSecret id secret))

theorem ok_of_toOption_map
    {E A B : Type}
    {x : Except E A}
    {f : A → B}
    {b : B}
    (hMap : x.toOption.map f = some b) :
    ∃ a, x = .ok a ∧ f a = b := by
  cases x with
  | error err => cases hMap
  | ok a => exact ⟨a, rfl, Option.some.inj hMap⟩

theorem Phase.writesAs_of_statement
    (hStmt : phase.statement cfg fresh = some (.write w)) :
    phase.WritesAs cfg fresh w := by
  cases phase with
  | insertTenant name rateLimit weight maxConcurrency =>
      rcases ok_of_toOption_map hStmt with ⟨_, hOk, hEq⟩
      cases hEq
      rcases insertTenant_eq_ok hOk with
        ⟨key, secret, hKey, hSecret, rfl⟩
      exact .insertTenant hKey hSecret
  | listAllTenants => cases hStmt
  | updateTenantLimits id limits status =>
      cases hStmt
      exact .limits
  | setTenantStatus id status =>
      cases hStmt
      exact .status
  | getTenantAnyStatus id => cases hStmt
  | rotateAPIKey id =>
      rcases ok_of_toOption_map hStmt with ⟨_, hOk, hEq⟩
      cases hEq
      rcases rotateAPIKey_eq_ok hOk with ⟨key, hKey, rfl⟩
      exact .rotateAPIKey hKey
  | rotateWebhookSecret id =>
      rcases ok_of_toOption_map hStmt with ⟨_, hOk, hEq⟩
      cases hEq
      rcases rotateWebhookSecret_eq_ok hOk with
        ⟨secret, hSecret, rfl⟩
      exact .rotateWebhookSecret hSecret
  | answered answer => cases hStmt

/- The writes of a command. -/
inductive Command.WritesAs
    (cfg : Config)
    (fresh : Fresh) :
    Command → TenantWrite → Prop
| createTenant
    {name : String} {rateLimit weight maxConcurrency : Int}
    {key secret : String} :
    0 < weight →
      fresh.apiKey = .ok key →
        Command.WritesAs cfg fresh
          (.createTenant rateLimit weight maxConcurrency [name])
          (.change
            (.insertTenant
              (newTenant cfg fresh.id key secret name
                rateLimit weight maxConcurrency)))
| limits
    {rateLimit weight maxConcurrency : Int}
    {args : List (Except String Uuid)}
    {id : Uuid} {l : TenantLimits} :
    l.Valid →
      Command.WritesAs cfg fresh
        (.setTenantLimits rateLimit weight maxConcurrency args)
        (setLimits id l)
| rotateAPIKey
    {args : List (Except String Uuid)}
    {id : Uuid} {key : String} :
    fresh.apiKey = .ok key →
      Command.WritesAs cfg fresh (.rotateKey args)
        (.change (.rotateAPIKey id (cfg.digest key)))
| rotateWebhookSecret
    {args : List (Except String Uuid)}
    {id : Uuid} {secret : String} :
    Command.WritesAs cfg fresh (.rotateWebhookSecret args)
      (.change (.rotateWebhookSecret id secret))
| enableDevTenant {secret : String} :
    Command.WritesAs cfg fresh .enableDevTenant
      (.enableDevTenant (cfg.digest devToken) secret)

theorem nonneg_of_flagValue
    {v n : Int}
    (hFlag : flagValue v = some n) :
    0 ≤ n := by
  unfold flagValue at hFlag
  split at hFlag
  · cases hFlag
  · rename_i hNonneg
    cases hFlag
    exact Int.not_lt.mp hNonneg

theorem cmdSetTenantLimits_eq_ok
    {rateLimit weight maxConcurrency : Int}
    {args : List (Except String Uuid)}
    (hOk :
      cmdSetTenantLimits rateLimit weight maxConcurrency args =
        .ok w) :
    ∃ id l, TenantLimits.Valid l ∧ w = setLimits id l := by
  unfold cmdSetTenantLimits at hOk
  split at hOk
  · cases hOk
  · rename_i id _
    simp only at hOk
    split at hOk
    · cases hOk
    · split at hOk
      · cases hOk
      · rename_i hZero
        cases hOk
        refine ⟨id, _, ⟨?_, ?_⟩, rfl⟩
        · intro n hSome
          exact nonneg_of_flagValue hSome
        · intro n hSome
          have hNonneg := nonneg_of_flagValue hSome
          have hNe : n ≠ 0 := by
            rintro rfl
            exact hZero hSome
          omega

theorem cmdRotate_eq_ok
    {usage failed : String}
    {write : Uuid → Except String TenantWrite}
    {args : List (Except String Uuid)}
    (hOk : cmdRotate usage failed write args = .ok w) :
    ∃ id, write id = .ok w := by
  unfold cmdRotate at hOk
  split at hOk
  · cases hOk
  · rename_i id _
    split at hOk
    · rename_i hWrite
      cases hOk
      exact ⟨id, hWrite⟩
    · cases hOk

theorem Command.writesAs_of_write
    (hWrite : c.write cfg fresh = .ok w) :
    c.WritesAs cfg fresh w := by
  cases c with
  | createTenant rateLimit weight maxConcurrency args =>
      simp only [write] at hWrite
      unfold cmdCreateTenant at hWrite
      split at hWrite
      · split at hWrite
        · cases hWrite
        · rename_i hPos
          split at hWrite
          · cases hWrite
          · split at hWrite
            · rename_i hInsert
              cases hWrite
              rcases insertTenant_eq_ok hInsert with
                ⟨key, secret, hKey, _, rfl⟩
              exact .createTenant (Int.not_le.mp hPos) hKey
            · cases hWrite
      · cases hWrite
  | setTenantLimits rateLimit weight maxConcurrency args =>
      rcases cmdSetTenantLimits_eq_ok hWrite with
        ⟨id, l, hValid, rfl⟩
      exact .limits hValid
  | rotateKey args =>
      rcases cmdRotate_eq_ok hWrite with ⟨id, hRotate⟩
      rcases rotateAPIKey_eq_ok hRotate with ⟨key, hKey, rfl⟩
      exact .rotateAPIKey hKey
  | rotateWebhookSecret args =>
      rcases cmdRotate_eq_ok hWrite with ⟨id, hRotate⟩
      rcases rotateWebhookSecret_eq_ok hRotate with
        ⟨secret, _, rfl⟩
      exact .rotateWebhookSecret
  | enableDevTenant =>
      simp only [write, cmdEnableDevTenant] at hWrite
      split at hWrite
      · cases hWrite
        exact .enableDevTenant
      · cases hWrite

theorem weightPos_of_setLimits
    {l : TenantLimits}
    (hValid : l.Valid)
    (id : Uuid) :
    (setLimits id l).WeightPos ∧
      (setLimits id l).RateNonneg :=
  ⟨hValid.weight, hValid.rateLimit⟩

theorem Phase.WritesAs.limits_of_checked
    (hWrites : phase.WritesAs cfg fresh w)
    (hChecked : phase.Checked) :
    w.WeightPos ∧ w.RateNonneg := by
  cases hWrites with
  | insertTenant _ _ => exact ⟨hChecked.2, hChecked.1⟩
  | limits => exact weightPos_of_setLimits hChecked _
  | status => exact ⟨trivial, trivial⟩
  | rotateAPIKey _ => exact ⟨trivial, trivial⟩
  | rotateWebhookSecret _ => exact ⟨trivial, trivial⟩

/-
  Commands that create a tenant are given a rate limit that
  the admin API would accept.
-/
def rateChecked : Label → Bool
| .command (.createTenant rateLimit _ _ _) _ _ =>
    decide (0 ≤ rateLimit)
| _ => true

theorem Command.WritesAs.weightPos
    (hWrites : c.WritesAs cfg fresh w) :
    w.WeightPos := by
  cases hWrites with
  | createTenant hPos _ => exact hPos
  | limits hValid => exact (weightPos_of_setLimits hValid _).1
  | rotateAPIKey _ => trivial
  | rotateWebhookSecret => trivial
  | enableDevTenant => trivial

theorem Command.WritesAs.rateNonneg
    {outcome : Outcome}
    (hWrites : c.WritesAs cfg fresh w)
    (hRate : rateChecked (.command c fresh outcome) = true) :
    w.RateNonneg := by
  cases hWrites with
  | @createTenant _ rateLimit =>
      have hNonneg : 0 ≤ rateLimit := of_decide_eq_true hRate
      exact hNonneg
  | limits hValid => exact (weightPos_of_setLimits hValid _).2
  | rotateAPIKey _ => trivial
  | rotateWebhookSecret => trivial
  | enableDevTenant => trivial

namespace Desk

variable {s s' : Desk}
variable {label : Label}

/- The rows, and the limits that are still to be written. -/
structure Limited (s : Desk) : Prop where
  checked : ∀ call ∈ s.calls, call.phase.Checked
  usable : ∀ t ∈ s.tenants.rows, t.Usable
  oneTenantPerKey : OneTenantPerKey s.tenants

theorem Issues.weightPos
    {w : TenantWrite}
    (hIssues : s.Issues cfg label w)
    (hChecked : ∀ call ∈ s.calls, call.phase.Checked) :
    w.WeightPos := by
  cases hIssues with
  | statement hMem hStmt =>
      exact ((Phase.writesAs_of_statement hStmt).limits_of_checked
        (hChecked _ hMem)).1
  | command hWrite =>
      exact (Command.writesAs_of_write hWrite).weightPos

theorem Issues.rateNonneg
    {w : TenantWrite}
    (hIssues : s.Issues cfg label w)
    (hChecked : ∀ call ∈ s.calls, call.phase.Checked)
    (hRate : rateChecked label = true) :
    w.RateNonneg := by
  cases hIssues with
  | statement hMem hStmt =>
      exact ((Phase.writesAs_of_statement hStmt).limits_of_checked
        (hChecked _ hMem)).2
  | command hWrite =>
      exact (Command.writesAs_of_write hWrite).rateNonneg hRate

theorem Effect.checked
    (hEffect : Effect cfg s label s')
    (hChecked : ∀ call ∈ s.calls, call.phase.Checked) :
    ∀ call ∈ s'.calls, call.phase.Checked :=
  hEffect.phases hChecked (fun _ r _ _ => r.checked_start)
    (fun _ => trivial)
    (fun phase fresh res _ => phase.checked_resume fresh res)

theorem Limited.step
    (hLimited : s.Limited)
    (hEffect : Effect cfg s label s') :
    s'.Limited := by
  have hChecked := hEffect.checked hLimited.checked
  rcases hEffect.recorded.2 with
    ⟨hSame, _⟩ | ⟨_, w, hIssues, hOk, _⟩
  · exact ⟨hChecked, by rw [hSame]; exact hLimited.usable,
      by rw [hSame]; exact hLimited.oneTenantPerKey⟩
  · exact ⟨hChecked,
      TenantWrite.usable_of_execute hOk
        (hIssues.weightPos hLimited.checked) hLimited.usable,
      TenantWrite.oneTenantPerKey_of_execute hOk
        hLimited.oneTenantPerKey⟩

theorem limited_of_init
    (hInit : (desk cfg).init s) :
    s.Limited := by
  rcases hInit with ⟨_, hMigrated, _, hCalls, _⟩
  refine ⟨?_, hMigrated.usable, hMigrated.oneTenantPerKey⟩
  rw [hCalls]
  intro call hMem
  cases hMem

theorem limited_of_reachable
    {ok : Desk → Label → Prop}
    (hReach : (desk cfg).ReachableWith ok s) :
    s.Limited :=
  hReach.invariant (fun _ => limited_of_init)
    (fun _ _ _ _ hLimited _ hStep =>
      hLimited.step (step_effect hStep))

theorem rateNonneg_of_reachable
    (hReach :
      (desk cfg).ReachableWith
        (fun _ label => rateChecked label = true) s) :
    ∀ t ∈ s.tenants.rows, 0 ≤ t.rateLimit := by
  refine hReach.invariant
    (I := fun s => ∀ t ∈ s.tenants.rows, 0 ≤ t.rateLimit)
    (fun s (hInit : (desk cfg).init s) => hInit.2.1.rate) ?_
  intro s label s' hPrev hRates hRate hStep
  rcases (step_effect hStep).recorded.2 with
    ⟨hSame, _⟩ | ⟨_, w, hIssues, hOk, _⟩
  · rw [hSame]
    exact hRates
  · exact TenantWrite.rateNonneg_of_execute hOk
      (hIssues.rateNonneg
        (limited_of_reachable hPrev).checked hRate) hRates

/- A lookup finds the tenant that has the key. -/
theorem getTenantByAPIKey_of_mem
    {tenants : Table Tenant}
    (hOne : OneTenantPerKey tenants)
    {t : Tenant}
    (hMem : t ∈ tenants.rows)
    (hActive : t.status = .active) :
    getTenantByAPIKey t.apiKeyHash tenants = some t := by
  unfold getTenantByAPIKey
  cases hFind :
    tenants.rows.find?
      (fun r =>
        r.apiKeyHash = t.apiKeyHash && r.status = .active) with
  | none =>
      have hNone := List.find?_eq_none.mp hFind t hMem
      simp [hActive] at hNone
  | some r =>
      have hMeets := List.find?_some hFind
      simp only [Bool.and_eq_true, decide_eq_true_eq]
        at hMeets
      have hRow := List.mem_of_find?_eq_some hFind
      have hId := hOne r hRow t hMem hMeets.1
      rw [tenants.eq_of_key_eq hRow hMem hId]

theorem of_getTenantByAPIKey
    {tenants : Table Tenant}
    {hash : String}
    {t : Tenant}
    (hFind : getTenantByAPIKey hash tenants = some t) :
    t ∈ tenants.rows ∧ t.apiKeyHash = hash ∧
      t.status = .active := by
  have hMeets := List.find?_some hFind
  simp only [Bool.and_eq_true, decide_eq_true_eq] at hMeets
  exact ⟨List.mem_of_find?_eq_some hFind, hMeets.1, hMeets.2⟩

end Desk

/-
  Whatever operators send, and however their statements
  interleave: limits stay usable, and a key authenticates the
  one active tenant that has it. Rate limits stay 0 or
  positive unless the command line, which does not check it,
  creates a tenant with a negative one.
-/
theorem tenants_stay_usable
    {s : Desk}
    (hReach : (desk cfg).Reachable s) :
    (∀ t ∈ s.tenants.rows, t.Usable) ∧
      (∀ t ∈ s.tenants.rows, t.status = .active →
        getTenantByAPIKey t.apiKeyHash s.tenants = some t) ∧
        ((desk cfg).ReachableWith
            (fun _ label => rateChecked label = true) s →
          ∀ t ∈ s.tenants.rows, 0 ≤ t.rateLimit) := by
  have hLimited := Desk.limited_of_reachable hReach
  refine ⟨hLimited.usable, ?_, Desk.rateNonneg_of_reachable⟩
  intro t hMem hActive
  exact Desk.getTenantByAPIKey_of_mem
    hLimited.oneTenantPerKey hMem hActive

/- The table of a new database after its migrations. -/
def seeded
    (cfg : Config)
    (secret : String) :
    Table Tenant where
  rows :=
    [{ devTenant (cfg.digest devToken) secret with
        status := .disabled }]
  keys_nodup := List.nodup_singleton _

theorem migrated_seeded
    (cfg : Config)
    (secret : String) :
    Migrated cfg (seeded cfg secret) := by
  refine ⟨?_, ?_, ?_, ?_⟩
  · intro t hMem
    cases List.mem_singleton.mp hMem
    exact ⟨rfl, rfl, rfl, Int.natCast_pos.mpr (by decide),
      Int.le_refl 0⟩
  · intro t hMem
    cases List.mem_singleton.mp hMem
    exact Int.natCast_nonneg 1000
  · intro t hMem t' hMem' _
    cases List.mem_singleton.mp hMem
    cases List.mem_singleton.mp hMem'
    rfl
  · intro t hMem _
    cases List.mem_singleton.mp hMem
    exact ⟨rfl, rfl⟩

/- Digests that can be told apart at a glance. -/
def plain : Config where
  digest := fun key => key
  nameLE := fun a b => decide (a ≤ b)
  total := by simpa using String.le_total
  trans := by simpa using fun _ _ _ => String.le_trans
  antisymm := by simpa using fun _ _ => String.le_antisymm

def adminToken : String := "0123456789abcdef0123456789abcdef"

def bearer : String :=
  "Bearer 0123456789abcdef0123456789abcdef"

/- A server whose database is new. -/
def opened : Desk where
  adminTokenHash := some adminToken
  start := seeded plain "s0"
  tenants := seeded plain "s0"
  calls := []
  log := []

theorem init_opened : (desk plain).init opened := by
  refine ⟨.inr ⟨adminToken, adminToken, ?_, rfl⟩,
    migrated_seeded plain "s0", rfl, rfl, rfl⟩
  decide +kernel

def drawn (id : Uuid) (key : String) : Fresh :=
  ⟨id, .ok key, .ok "s1"⟩

/- Tenant 7 is created, with a weight of its own. -/
def creation : List Label :=
  [.request bearer
      (.createTenant (some ⟨"a", ⟨none, some 5, none⟩⟩)),
    .statement 0 (drawn 7 "k1") .done]

theorem new_tenants_are_usable :
    ∃ s, (desk plain).Reachable s ∧
      (s.tenants.find? 7).map Tenant.weight = some 5 ∧
        (∀ t ∈ s.tenants.rows, t.Usable) ∧
          ∀ t ∈ s.tenants.rows, 0 ≤ t.rateLimit := by
  rcases
    Machine.exists_reachableWith_of_run init_opened
      (fun _ label => rateChecked label) creation
      (fun s =>
        (s.tenants.find? 7).map Tenant.weight =
          some 5)
      (by decide +kernel)
  with ⟨s, hReach, hWeight⟩
  have hUsable := tenants_stay_usable hReach.reachable
  exact ⟨s, hReach.reachable, hWeight,
    hUsable.1, hUsable.2.2 hReach⟩

------------------------------------------------------------
-- Keys
------------------------------------------------------------

/-
  All digests that tenants have been given, newest first; the
  oldest are those in the table at the start.
-/
def Desk.keys (s : Desk) : List (Uuid × String) :=
  s.log.filterMap (fun e => e.2.gives) ++
    s.start.rows.map (fun t => (t.id, t.apiKeyHash))

/- The digest of the key that is drawn for a step. -/
def Label.newDigest
    (cfg : Config) :
    Label → Option String
| .request _ _ => none
| .statement _ fresh _ =>
    fresh.apiKey.toOption.map cfg.digest
| .command _ fresh _ =>
    fresh.apiKey.toOption.map cfg.digest

/- A key that is drawn has a digest of its own. -/
def freshKeys
    (cfg : Config)
    (s : Desk)
    (label : Label) : Bool :=
  (label.newDigest cfg).all
    (fun hash =>
      decide (hash ≠ cfg.digest devToken) &&
        s.keys.all (fun key => decide (key.2 ≠ hash)))

/-
  Apart from the public key, which only the development
  tenant is given, no key is given twice.
-/
structure KeysDistinct
    (dev : String)
    (keys : List (Uuid × String)) : Prop where
  once :
    ((keys.filter (fun key => key.2 ≠ dev)).map
      Prod.snd).Nodup
  devOnly :
    ∀ key ∈ keys, key.2 = dev → key.1 = devTenantId

namespace KeysDistinct

variable {dev : String}
variable {keys : List (Uuid × String)}

/- A key belongs to one tenant for ever. -/
theorem owner_eq
    (hDistinct : KeysDistinct dev keys)
    {key key' : Uuid × String}
    (hMem : key ∈ keys)
    (hMem' : key' ∈ keys)
    (hSame : key.2 = key'.2) :
    key.1 = key'.1 := by
  by_cases hDev : key.2 = dev
  · rw [hDistinct.devOnly key hMem hDev,
      hDistinct.devOnly key' hMem' (hSame ▸ hDev)]
  · have hDev' : key'.2 ≠ dev := hSame ▸ hDev
    have hEq :=
      List.inj_on_of_nodup_map hDistinct.once
        (List.mem_filter.mpr ⟨hMem, decide_eq_true hDev⟩)
        (List.mem_filter.mpr ⟨hMem', decide_eq_true hDev'⟩)
        hSame
    rw [hEq]

theorem cons_dev
    (hDistinct : KeysDistinct dev keys) :
    KeysDistinct dev ((devTenantId, dev) :: keys) := by
  refine ⟨?_, ?_⟩
  · simpa using hDistinct.once
  · intro key hMem hDev
    rcases List.mem_cons.mp hMem with rfl | hOld
    · rfl
    · exact hDistinct.devOnly key hOld hDev

theorem cons_fresh
    (hDistinct : KeysDistinct dev keys)
    {key : Uuid × String}
    (hDev : key.2 ≠ dev)
    (hFresh : ∀ key' ∈ keys, key'.2 ≠ key.2) :
    KeysDistinct dev (key :: keys) := by
  refine ⟨?_, ?_⟩
  · rw [List.filter_cons, if_pos (decide_eq_true hDev),
      List.map_cons, List.nodup_cons]
    refine ⟨?_, hDistinct.once⟩
    intro hMem
    rcases List.mem_map.mp hMem with ⟨key', hOld, hSame⟩
    exact hFresh key' (List.mem_filter.mp hOld).1 hSame
  · intro key' hMem hIsDev
    rcases List.mem_cons.mp hMem with rfl | hOld
    · exact absurd hIsDev hDev
    · exact hDistinct.devOnly key' hOld hIsDev

/- No key is both before and after another one. -/
theorem notMem_newer
    {newer older : List (Uuid × String)}
    (hDistinct : KeysDistinct dev (newer ++ older))
    {key : Uuid × String}
    (hDev : key.2 ≠ dev)
    (hOlder : key ∈ older) :
    key ∉ newer := by
  intro hNewer
  have hOnce := hDistinct.once
  rw [List.filter_append, List.map_append,
    List.nodup_append] at hOnce
  have hIn :
      ∀ l : List (Uuid × String), key ∈ l →
        key.2 ∈
          (l.filter (fun key => key.2 ≠ dev)).map Prod.snd :=
    fun l hMem =>
      List.mem_map_of_mem
        (List.mem_filter.mpr ⟨hMem, decide_eq_true hDev⟩)
  exact hOnce.2.2 _ (hIn newer hNewer) _ (hIn older hOlder)
    rfl

end KeysDistinct

theorem newDigest_of_fresh
    {key : String}
    (hKey : fresh.apiKey = .ok key) :
    fresh.apiKey.toOption.map cfg.digest =
      some (cfg.digest key) := by
  rw [hKey]
  rfl

theorem Phase.WritesAs.gives
    {key : Uuid × String}
    (hWrites : phase.WritesAs cfg fresh w)
    (hGives : w.gives = some key) :
    fresh.apiKey.toOption.map cfg.digest = some key.2 := by
  cases hWrites with
  | insertTenant hKey _ =>
      cases hGives
      exact newDigest_of_fresh hKey
  | limits => cases hGives
  | status => cases hGives
  | rotateAPIKey hKey =>
      cases hGives
      exact newDigest_of_fresh hKey
  | rotateWebhookSecret _ => cases hGives

theorem Command.WritesAs.gives
    {key : Uuid × String}
    (hWrites : c.WritesAs cfg fresh w)
    (hGives : w.gives = some key) :
    fresh.apiKey.toOption.map cfg.digest = some key.2 ∨
      key = (devTenantId, cfg.digest devToken) := by
  cases hWrites with
  | createTenant _ hKey =>
      cases hGives
      exact .inl (newDigest_of_fresh hKey)
  | limits _ => cases hGives
  | rotateAPIKey hKey =>
      cases hGives
      exact .inl (newDigest_of_fresh hKey)
  | rotateWebhookSecret => cases hGives
  | enableDevTenant =>
      cases hGives
      exact .inr rfl

namespace Desk

variable {s s' : Desk}
variable {label : Label}

/- A write gives a new key or the public one. -/
theorem Issues.gives
    {w : TenantWrite}
    {key : Uuid × String}
    (hIssues : s.Issues cfg label w)
    (hGives : w.gives = some key) :
    label.newDigest cfg = some key.2 ∨
      key = (devTenantId, cfg.digest devToken) := by
  cases hIssues with
  | statement _ hStmt =>
      exact .inl
        ((Phase.writesAs_of_statement hStmt).gives hGives)
  | command hWrite =>
      exact (Command.writesAs_of_write hWrite).gives hGives

theorem keys_cons
    {by_ : Option Nat}
    {w : TenantWrite}
    (hStart : s'.start = s.start)
    (hLog : s'.log = (by_, w) :: s.log) :
    s'.keys = w.gives.toList ++ s.keys := by
  unfold keys
  rw [hStart, hLog]
  cases hGives : w.gives with
  | none => simp [hGives]
  | some key => simp [hGives]

/- Which keys are in the table, and where they were given. -/
structure Keyed (cfg : Config) (s : Desk) : Prop where
  keysMatch : KeysMatch s.keys s.tenants
  distinct : KeysDistinct (cfg.digest devToken) s.keys

theorem Keyed.step
    (hKeyed : s.Keyed cfg)
    (hFresh : freshKeys cfg s label = true)
    (hEffect : Effect cfg s label s') :
    s'.Keyed cfg := by
  rcases hEffect.recorded with
    ⟨hStart, ⟨hSame, hLog⟩ | ⟨by_, w, hIssues, hOk, hLog⟩⟩
  · have hKeys : s'.keys = s.keys := by
      unfold keys
      rw [hStart, hLog]
    exact ⟨by rw [hKeys, hSame]; exact hKeyed.keysMatch,
      by rw [hKeys]; exact hKeyed.distinct⟩
  · have hKeys := keys_cons hStart hLog
    constructor
    · rw [hKeys]
      exact TenantWrite.keysMatch_of_execute hOk
        hKeyed.keysMatch
    · rw [hKeys]
      cases hGives : w.gives with
      | none => exact hKeyed.distinct
      | some key =>
          rcases hIssues.gives hGives with hNew | rfl
          · unfold freshKeys at hFresh
            rw [hNew] at hFresh
            simp only [Option.all_some, Bool.and_eq_true,
              decide_eq_true_eq, List.all_eq_true] at hFresh
            exact hKeyed.distinct.cons_fresh hFresh.1
              hFresh.2
          · exact hKeyed.distinct.cons_dev

theorem lastKey_of_mem
    {tenants : Table Tenant}
    {t : Tenant}
    (hMem : t ∈ tenants.rows) :
    lastKey t.id
        (tenants.rows.map (fun t => (t.id, t.apiKeyHash))) =
      some t.apiKeyHash := by
  have hFind : tenants.find? t.id = some t :=
    Table.find?_of_mem hMem
  unfold lastKey
  rw [List.find?_map]
  change ((tenants.find? t.id).map _).map _ = _
  rw [hFind]
  rfl

theorem keyed_of_init
    (hInit : (desk cfg).init s) :
    s.Keyed cfg := by
  rcases hInit with ⟨_, hMigrated, hStart, _, hLog⟩
  have hKeys :
      s.keys =
        s.tenants.rows.map (fun t => (t.id, t.apiKeyHash)) := by
    unfold keys
    rw [hLog, hStart]
    rfl
  refine ⟨?_, ?_, ?_⟩
  · rw [hKeys]
    intro t hMem
    exact lastKey_of_mem hMem
  · rw [hKeys, List.filter_map, List.map_map]
    refine (List.Nodup.of_map _ s.tenants.keys_nodup).filter _
      |>.map_on ?_
    intro t hMem t' hMem' hSame
    have hRow := (List.mem_filter.mp hMem).1
    have hRow' := (List.mem_filter.mp hMem').1
    exact s.tenants.eq_of_key_eq hRow hRow'
      (hMigrated.oneTenantPerKey t hRow t' hRow' hSame)
  · rw [hKeys]
    intro key hMem hDev
    rcases List.mem_map.mp hMem with ⟨t, hRow, rfl⟩
    exact (hMigrated.devDisabled t hRow hDev).1

theorem keyed_of_reachable
    (hReach :
      (desk cfg).ReachableWith
        (fun s label => freshKeys cfg s label = true) s) :
    s.Keyed cfg :=
  hReach.invariant (fun _ => keyed_of_init)
    (fun _ _ _ _ hKeyed hFresh hStep =>
      hKeyed.step hFresh (step_effect hStep))

/- The key that a tenant was given last, in the list. -/
theorem mem_newer_of_lastKey
    {id : Uuid}
    {hash hash' : String}
    {newer older : List (Uuid × String)}
    (hLast :
      lastKey id (newer ++ (id, hash') :: older) =
        some hash) :
    (id, hash) ∈ newer ++ [(id, hash')] := by
  rcases Option.map_eq_some_iff.mp hLast with
    ⟨key, hFind, rfl⟩
  have hId : key.1 = id := by
    simpa using List.find?_some hFind
  have hSplit :
      newer ++ (id, hash') :: older =
        (newer ++ [(id, hash')]) ++ older := by
    simp
  rw [hSplit, List.find?_append] at hFind
  rcases Option.or_eq_some_iff.mp hFind with
    hNewer | ⟨hNone, _⟩
  · rw [show (id, key.2) = key from Prod.ext hId.symm rfl]
    exact List.mem_of_find?_eq_some hNewer
  · exact absurd
      (List.find?_eq_none.mp hNone (id, hash') (by simp))
      (by simp)

end Desk

/-
  The digest of a key finds no tenant in the table but the
  one that the key was given to, and this only while it is
  the newest key of the tenant; the digest of a replaced key
  finds none, unless it is that of the public key of the
  development tenant. A server may still have the tenant of
  a replaced key in its cache.
-/
theorem keys_find_their_tenant
    {s : Desk}
    (hReach :
      (desk cfg).ReachableWith
        (fun s label => freshKeys cfg s label = true) s) :
    (∀ hash t, getTenantByAPIKey hash s.tenants = some t →
      lastKey t.id s.keys = some hash) ∧
      (∀ key ∈ s.keys, ∀ key' ∈ s.keys, key.2 = key'.2 →
        key.1 = key'.1) ∧
        ∀ newer id hash' older hash,
          s.keys = newer ++ (id, hash') :: older →
            (id, hash) ∈ older →
              hash ≠ cfg.digest devToken →
                getTenantByAPIKey hash s.tenants = none := by
  have hKeyed := Desk.keyed_of_reachable hReach
  have hLast :
      ∀ hash t, getTenantByAPIKey hash s.tenants = some t →
        lastKey t.id s.keys = some hash := by
    intro hash t hFind
    rcases Desk.of_getTenantByAPIKey hFind with
      ⟨hMem, rfl, _⟩
    exact hKeyed.keysMatch t hMem
  refine ⟨hLast, ?_, ?_⟩
  · intro key hMem key' hMem' hSame
    exact hKeyed.distinct.owner_eq hMem hMem' hSame
  · intro newer id hash' older hash hKeys hOlder hDev
    cases hFind : getTenantByAPIKey hash s.tenants with
    | none => rfl
    | some t =>
        exfalso
        have hNewest := hLast hash t hFind
        -- the tenant found is the one that had the key
        have hMem : (t.id, hash) ∈ s.keys := by
          rcases Option.map_eq_some_iff.mp hNewest with
            ⟨key, hKey, rfl⟩
          have hId : key.1 = t.id := by
            simpa using List.find?_some hKey
          rw [← hId]
          exact List.mem_of_find?_eq_some hKey
        have hOld : (id, hash) ∈ s.keys := by
          rw [hKeys]
          exact List.mem_append_right _
            (List.mem_cons_of_mem _ hOlder)
        have hId : t.id = id :=
          hKeyed.distinct.owner_eq hMem hOld rfl
        rw [hId, hKeys] at hNewest
        have hNewer := Desk.mem_newer_of_lastKey hNewest
        have hDistinct := hKeyed.distinct
        rw [hKeys,
          show newer ++ (id, hash') :: older =
            (newer ++ [(id, hash')]) ++ older by simp]
          at hDistinct
        exact hDistinct.notMem_newer hDev hOlder hNewer

/- The key of tenant 7 is replaced. -/
theorem replaced_key_finds_no_tenant :
    ∃ s,
      (desk plain).ReachableWith
        (fun s label => freshKeys plain s label = true) s ∧
        s.keys = [(7, "k2"), (7, "k1"), (1, "dev-token")] ∧
          getTenantByAPIKey "k1" s.tenants = none := by
  rcases
    Machine.exists_reachableWith_of_run init_opened
      (freshKeys plain)
      (creation ++
        [.request bearer (.rotateKey (some 7)),
          .statement 1 (drawn 8 "k2") .done])
      (fun s =>
        s.keys =
          [(7, "k2"), (7, "k1"), (1, "dev-token")])
      (by decide +kernel)
  with ⟨s, hReach, hKeys⟩
  exact ⟨s, hReach, hKeys,
    (keys_find_their_tenant hReach).2.2 [] 7 "k2"
      [(7, "k1"), (1, "dev-token")] "k1" hKeys
      List.mem_cons_self (by decide)⟩

------------------------------------------------------------
-- The Public Key
------------------------------------------------------------

/-
  Nobody who is let in asks for the development tenant to be
  enabled, and no key that is drawn is taken for its key.
-/
def devUntouched
    (cfg : Config)
    (s : Desk) :
    Label → Bool
| .request hdr (.updateTenant (some id) (some body)) =>
    (adminAuth cfg s.adminTokenHash hdr).isSome ||
      (decide (id ≠ devTenantId) ||
        decide (body.status ≠ some "active"))
| .command .enableDevTenant _ _ => false
| label =>
    (label.newDigest cfg).all
      (fun hash => decide (hash ≠ cfg.digest devToken))

/- Only the development tenant has the key, and is disabled. -/
def DevOff
    (cfg : Config)
    (t : Tenant) : Prop :=
  t.apiKeyHash = cfg.digest devToken →
    t.id = devTenantId ∧ t.status = .disabled

theorem devOff_of_execute
    {tenants tenants' : Table Tenant}
    (hOk : w.execute tenants = .ok tenants')
    (hKey :
      ∀ key, w.gives = some key →
        key.2 ≠ cfg.digest devToken)
    (hStatus :
      ∀ id, w = setStatus id .active → id ≠ devTenantId)
    (hRows : ∀ t ∈ tenants.rows, DevOff cfg t) :
    ∀ t ∈ tenants'.rows, DevOff cfg t := by
  rcases TenantWrite.execute_eq_ok hOk with ⟨new, hLeaves⟩
  refine hLeaves.keeps hRows ?_
  intro old? hOld hYields hDev
  cases w with
  | enableDevTenant hash secret =>
      have hGiven := TenantWrite.gives_of_yields hYields rfl
      have hHash : hash = new.apiKeyHash :=
        congrArg Prod.snd hGiven
      exact absurd (hHash.trans hDev) (hKey _ rfl)
  | change c =>
      cases old? with
      | none =>
          cases c with
          | insertTenant t =>
              cases hYields
              exact absurd hDev (hKey _ rfl)
          | _ => exact hYields.elim
      | some old =>
          have hOff := hOld old rfl
          cases c with
          | insertTenant t => exact hYields.elim
          | setTenantStatus id status =>
              rcases hYields with ⟨hId, rfl⟩
              cases status with
              | disabled => exact ⟨(hOff hDev).1, rfl⟩
              | active =>
                  have hNot := hStatus id rfl
                  exact absurd
                    (hId.symm.trans (hOff hDev).1) hNot
          | rotateAPIKey id hash =>
              cases hYields.2
              exact absurd hDev (hKey _ rfl)
          | updateTenantLimits id rateLimit weight maxConc =>
              cases hYields.2
              exact hOff hDev
          | rotateWebhookSecret id secret =>
              cases hYields.2
              exact hOff hDev

/- The phase will not enable the development tenant. -/
def Phase.KeepsDev : Phase → Prop
| .updateTenantLimits id _ status =>
    id = devTenantId → status ≠ some .active
| .setTenantStatus id status =>
    id = devTenantId → status ≠ .active
| _ => True

theorem keepsDev_updateStatus
    {status : Option TenantStatus}
    (hStatus : id = devTenantId → status ≠ some .active) :
    (updateStatus id status).KeepsDev := by
  cases status with
  | none => trivial
  | some status =>
      intro hId hActive
      exact hStatus hId (congrArg some hActive)

theorem keepsDev_updateLimits
    {limits : TenantLimits}
    {status : Option TenantStatus}
    (hStatus : id = devTenantId → status ≠ some .active) :
    (updateLimits id limits status).KeepsDev := by
  unfold updateLimits
  split
  · exact hStatus
  · exact keepsDev_updateStatus hStatus

theorem eq_of_parseStatus
    {text : String}
    (hParse : parseStatus text = some .active) :
    text = "active" := by
  unfold parseStatus at hParse
  split at hParse
  · rfl
  · cases hParse
  · cases hParse

theorem keepsDev_start
    {s : Desk}
    {hdr : String}
    {r : Request}
    (hAuth : adminAuth cfg s.adminTokenHash hdr = none)
    (hUntouched : devUntouched cfg s (.request hdr r) = true) :
    r.start.KeepsDev := by
  have hStarts := r.starts
  generalize r.start = phase at hStarts ⊢
  cases hStarts with
  | @update id body _ =>
      simp only [devUntouched, hAuth, Option.isSome_none,
        Bool.false_or, Bool.or_eq_true, decide_eq_true_eq]
        at hUntouched
      refine keepsDev_updateLimits ?_
      intro hId hActive
      rcases Option.bind_eq_some_iff.mp hActive with
        ⟨text, hText, hParse⟩
      rcases hUntouched with hNot | hNot
      · exact hNot hId
      · exact hNot (hText.trans
          (congrArg some (eq_of_parseStatus hParse)))
  | refused _ _ | create _ | list | get | rotateKey
  | rotateSecret => trivial

theorem Phase.keepsDev_resume
    (phase : Phase)
    (fresh : Fresh)
    (res : Except TenantError (Table Tenant))
    (hKeeps : phase.KeepsDev) :
    (phase.resume cfg fresh res).KeepsDev := by
  rcases phase.resume_cases cfg fresh res with
    ⟨answer, hEq⟩ | ⟨id, limits, status, rfl, hEq⟩ |
      ⟨id, _, _, hEq⟩
  · rw [hEq]
    trivial
  · rw [hEq]
    exact keepsDev_updateStatus hKeeps
  · rw [hEq]
    trivial

theorem Phase.WritesAs.status_of_keepsDev
    (hWrites : phase.WritesAs cfg fresh w)
    (hKeeps : phase.KeepsDev)
    (hActive : w = setStatus id .active) :
    id ≠ devTenantId := by
  intro hDev
  cases hWrites with
  | status =>
      cases hActive
      exact hKeeps hDev rfl
  | insertTenant _ _ => cases hActive
  | limits => cases hActive
  | rotateAPIKey _ => cases hActive
  | rotateWebhookSecret _ => cases hActive

theorem Command.WritesAs.ne_setStatus
    (hWrites : c.WritesAs cfg fresh w)
    (id : Uuid)
    (status : TenantStatus) :
    w ≠ setStatus id status := by
  intro hEq
  cases hWrites with
  | createTenant _ _ => cases hEq
  | limits _ => cases hEq
  | rotateAPIKey _ => cases hEq
  | rotateWebhookSecret => cases hEq
  | enableDevTenant => cases hEq

namespace Desk

variable {s s' : Desk}
variable {label : Label}

/- Neither the table nor a request enables the tenant. -/
structure DevKept (cfg : Config) (s : Desk) : Prop where
  phases : ∀ call ∈ s.calls, call.phase.KeepsDev
  rows : ∀ t ∈ s.tenants.rows, DevOff cfg t

theorem Issues.digest_ne
    {w : TenantWrite}
    {key : Uuid × String}
    (hIssues : s.Issues cfg label w)
    (hUntouched : devUntouched cfg s label = true)
    (hGives : w.gives = some key) :
    key.2 ≠ cfg.digest devToken := by
  have hNew :
      label.newDigest cfg = some key.2 →
        (label.newDigest cfg).all
            (fun hash =>
              decide (hash ≠ cfg.digest devToken)) = true →
          key.2 ≠ cfg.digest devToken := by
    intro hNew hAll
    rw [hNew] at hAll
    simpa using hAll
  cases hIssues with
  | statement _ hStmt =>
      exact hNew
        ((Phase.writesAs_of_statement hStmt).gives hGives)
        hUntouched
  | command hWrite =>
      cases Command.writesAs_of_write hWrite with
      | createTenant _ hKey =>
          cases hGives
          exact hNew (newDigest_of_fresh hKey) hUntouched
      | limits _ => cases hGives
      | rotateAPIKey hKey =>
          cases hGives
          exact hNew (newDigest_of_fresh hKey) hUntouched
      | rotateWebhookSecret => cases hGives
      | enableDevTenant => cases hUntouched

theorem Issues.status_ne
    {w : TenantWrite}
    (hIssues : s.Issues cfg label w)
    (hPhases : ∀ call ∈ s.calls, call.phase.KeepsDev)
    {id : Uuid}
    (hActive : w = setStatus id .active) :
    id ≠ devTenantId := by
  cases hIssues with
  | statement hMem hStmt =>
      exact (Phase.writesAs_of_statement hStmt).status_of_keepsDev
        (hPhases _ hMem) hActive
  | command hWrite =>
      exact absurd hActive
        ((Command.writesAs_of_write hWrite).ne_setStatus _ _)

theorem DevKept.step
    (hKept : s.DevKept cfg)
    (hUntouched : devUntouched cfg s label = true)
    (hEffect : Effect cfg s label s') :
    s'.DevKept cfg := by
  constructor
  · refine hEffect.phases hKept.phases ?_ (fun _ => trivial)
      (fun phase fresh res hKeeps =>
        phase.keepsDev_resume fresh res hKeeps)
    rintro hdr r rfl hAuth
    exact keepsDev_start hAuth hUntouched
  · rcases hEffect.recorded.2 with
      ⟨hSame, _⟩ | ⟨_, w, hIssues, hOk, _⟩
    · rw [hSame]
      exact hKept.rows
    · exact devOff_of_execute hOk
        (fun _ hGives => hIssues.digest_ne hUntouched hGives)
        (fun _ hActive =>
          hIssues.status_ne hKept.phases hActive)
        hKept.rows

theorem devKept_of_init
    (hInit : (desk cfg).init s) :
    s.DevKept cfg := by
  rcases hInit with ⟨_, hMigrated, _, hCalls, _⟩
  refine ⟨?_, hMigrated.devDisabled⟩
  rw [hCalls]
  intro call hMem
  cases hMem

end Desk

/-
  Once the migrations have run, the public key of the
  development tenant authenticates nobody, until an operator
  who is let in asks for this tenant to be enabled.
-/
theorem dev_token_is_refused
    {s : Desk}
    (hReach :
      (desk cfg).ReachableWith
        (fun s label => devUntouched cfg s label = true) s) :
    getTenantByAPIKey (cfg.digest devToken) s.tenants =
      none := by
  have hKept : s.DevKept cfg :=
    hReach.invariant (fun _ => Desk.devKept_of_init)
      (fun _ _ _ _ hKept hUntouched hStep =>
        hKept.step hUntouched (Desk.step_effect hStep))
  cases hFind :
    getTenantByAPIKey (cfg.digest devToken) s.tenants with
  | none => rfl
  | some t =>
      rcases Desk.of_getTenantByAPIKey hFind with
        ⟨hMem, hHash, hActive⟩
      have hOff := (hKept.rows t hMem hHash).2
      rw [hActive] at hOff
      cases hOff

/-
  The limits of the development tenant may be changed, and
  someone without the token may ask for it to be enabled.
-/
theorem dev_token_is_refused_after_update :
    ∃ s,
      (desk plain).ReachableWith
        (fun s label => devUntouched plain s label = true) s ∧
        (s.tenants.find? devTenantId).map Tenant.weight =
            some 9 ∧
          getTenantByAPIKey "dev-token" s.tenants = none := by
  rcases
    Machine.exists_reachableWith_of_run init_opened
      (devUntouched plain)
      [.request "Bearer guess"
          (.updateTenant (some devTenantId)
            (some ⟨⟨none, none, none⟩, some "active"⟩)),
        .request bearer
          (.updateTenant (some devTenantId)
            (some ⟨⟨none, some 9, none⟩, none⟩)),
        .statement 1 (drawn 8 "k2") .done]
      (fun s =>
        (s.tenants.find? devTenantId).map
          Tenant.weight = some 9)
      (by decide +kernel)
  with ⟨s, hReach, hWeight⟩
  exact ⟨s, hReach, hWeight,
    dev_token_is_refused hReach⟩

end Admin

end Api

end Sluice
