import Sluice.Api.Operators

/-
  What an answer of the admin API says about the tenants.

  An update makes up to two writes, each on its own, and then
  a query. Tenants are never removed, so that once the limits
  are written, the status is not refused for want of a
  tenant; it may still fail.

  Key definitions include:
    * `Shows` and `Lists`
    * `Granted`
    * `Told`
    * `Progress`
    * `Desk.replay`
    * `Desk.writesOf`

  Key theorems include:
    * `Progress.pass`
    * `Progress.write`
    * `Desk.Accounted.moves`
    * `answers_tell_what_was_done`
-/

------------------------------------------------------------
-- What Is Asked And Granted
------------------------------------------------------------

namespace Sluice

namespace Api

namespace Admin

open Foundations Storage

/- The writes of an update, in order. -/
def limitsWrites
    (id : Uuid)
    (l : TenantLimits) :
    List TenantWrite :=
  if l.given then [setLimits id l] else []

def statusWrites
    (id : Uuid) :
    Option TenantStatus → List TenantWrite
| some status => [setStatus id status]
| none => []

/- A row as it is answered, without its key and secret. -/
structure Shows (shown : AdminTenant) (t : Tenant) : Prop where
  id : shown.id = t.id
  name : shown.name = t.name
  status : shown.status = t.status
  rateLimit : shown.rateLimit = t.rateLimit
  weight : shown.weight = t.weight
  maxConcurrency : shown.maxConcurrency = t.maxConcurrency

/- By name, and by identifier among equal names. -/
def Config.Before (cfg : Config) (t t' : Tenant) : Prop :=
  if t.name = t'.name then t.id ≤ t'.id
  else cfg.nameLE t.name t'.name = true

/- Every row of a table once, in order. -/
def Lists
    (cfg : Config)
    (read : Table Tenant)
    (shown : List AdminTenant) : Prop :=
  ∃ rows,
    rows.Perm read.rows ∧ rows.Pairwise cfg.Before ∧
      List.Forall₂ Shows shown rows

/-
  An answer that grants a request, with the writes that have
  been made for it and the table that its last statement has
  read or left. A key or a secret in the answer is the one
  that was written.
-/
inductive Granted
    (cfg : Config)
    (read : Table Tenant) :
    Request → List TenantWrite → Answer → Prop
| created
    {body : CreateTenantRequest} {id : Uuid}
    {key secret : String} {t : Tenant}
    {shown : AdminTenant} :
    t =
      { id := id
        name := body.name
        apiKeyHash := cfg.digest key
        rateLimit := body.limits.rateLimit.getD 100
        weight := body.limits.weight.getD 100
        status := .active
        webhookSecret := secret
        maxConcurrency :=
          body.limits.maxConcurrency.getD 0 } →
      read.find? id = some t → Shows shown t →
        Granted cfg read (.createTenant (some body))
          [.change (.insertTenant t)]
          ⟨201, .created shown key secret⟩
| listed {shown : List AdminTenant} :
    Lists cfg read shown →
      Granted cfg read .listTenants []
        ⟨200, .tenants shown shown.length⟩
| shown {id : Uuid} {t : Tenant} {shown : AdminTenant} :
    read.find? id = some t → Shows shown t →
      Granted cfg read (.getTenant (some id)) []
        ⟨200, .tenant shown⟩
| updated
    {id : Uuid} {body : UpdateTenantRequest} {t : Tenant}
    {shown : AdminTenant} :
    read.find? id = some t → Shows shown t →
      Granted cfg read (.updateTenant (some id) (some body))
        (limitsWrites id body.limits ++
          statusWrites id (body.status.bind parseStatus))
        ⟨200, .tenant shown⟩
| keyRotated {id : Uuid} {key : String} :
    Granted cfg read (.rotateKey (some id))
      [.change (.rotateAPIKey id (cfg.digest key))]
      ⟨200, .apiKey key⟩
| secretRotated {id : Uuid} {secret : String} :
    Granted cfg read (.rotateWebhookSecret (some id))
      [.change (.rotateWebhookSecret id secret)]
      ⟨200, .webhookSecret secret⟩

/- Some of the writes of a request, from the first one. -/
def Begun
    (cfg : Config)
    (r : Request)
    (ws : List TenantWrite) : Prop :=
  ∃ read rest answer, Granted cfg read r (ws ++ rest) answer

/-
  What an answer tells: that a request is granted, that it is
  refused and nothing was written, or that it has failed,
  maybe after some of its writes.
-/
def Told
    (cfg : Config)
    (read : Table Tenant)
    (r : Request)
    (ws : List TenantWrite)
    (answer : Answer) : Prop :=
  Granted cfg read r ws answer ∨
    (400 ≤ answer.status ∧ answer.status < 500 ∧ ws = []) ∨
      (answer.status = 500 ∧ Begun cfg r ws)

/-
  Where a handler is, by its request and the writes made for
  it so far, given the tables that it may have read.
-/
inductive Progress
    (cfg : Config)
    (seen : Table Tenant → Prop)
    (tenants : Table Tenant) :
    Request → Phase → List TenantWrite → Prop
| create {body : CreateTenantRequest} :
    Progress cfg seen tenants (.createTenant (some body))
      (.insertTenant body.name
        (body.limits.rateLimit.getD 100)
        (body.limits.weight.getD 100)
        (body.limits.maxConcurrency.getD 0)) []
| list :
    Progress cfg seen tenants .listTenants .listAllTenants []
| get {id : Uuid} :
    Progress cfg seen tenants (.getTenant (some id))
      (.getTenantAnyStatus id) []
| limits {id : Uuid} {body : UpdateTenantRequest} :
    body.limits.given = true →
      Progress cfg seen tenants
        (.updateTenant (some id) (some body))
        (.updateTenantLimits id body.limits
          (body.status.bind parseStatus)) []
| status
    {id : Uuid} {body : UpdateTenantRequest}
    {status : TenantStatus} :
    body.status.bind parseStatus = some status →
      (body.limits.given = true →
        (tenants.find? id).isSome = true) →
        Progress cfg seen tenants
          (.updateTenant (some id) (some body))
          (.setTenantStatus id status)
          (limitsWrites id body.limits)
| show_
    {id : Uuid} {body : UpdateTenantRequest}
    {ws : List TenantWrite} :
    ws =
      limitsWrites id body.limits ++
        statusWrites id (body.status.bind parseStatus) →
      (ws ≠ [] → (tenants.find? id).isSome = true) →
        Progress cfg seen tenants
          (.updateTenant (some id) (some body))
          (.getTenantAnyStatus id) ws
| rotateKey {id : Uuid} :
    Progress cfg seen tenants (.rotateKey (some id))
      (.rotateAPIKey id) []
| rotateSecret {id : Uuid} :
    Progress cfg seen tenants (.rotateWebhookSecret (some id))
      (.rotateWebhookSecret id) []
| answered
    {r : Request} {ws : List TenantWrite}
    {read : Table Tenant} {answer : Answer} :
    seen read → Told cfg read r ws answer →
      Progress cfg seen tenants r (.answered answer) ws

namespace Phase

def open_ : Phase → Bool
| .answered _ => false
| _ => true

/- Every handler answers a failed statement alike. -/
theorem resume_failed
    (cfg : Config)
    (fresh : Fresh)
    {phase : Phase}
    (hOpen : phase.open_ = true) :
    ∃ message,
      phase.resume cfg fresh (.error .failed) =
        .answered (refuse 500 message) := by
  cases phase with
  | answered _ => cases hOpen
  | _ => exact ⟨_, rfl⟩

theorem resume_closed
    (cfg : Config)
    (fresh : Fresh)
    {phase : Phase}
    (res : Except TenantError (Table Tenant))
    (hClosed : phase.open_ = false) :
    phase.resume cfg fresh res = phase := by
  cases phase with
  | answered _ => rfl
  | _ => cases hClosed

theorem WritesAs.open_
    {cfg : Config}
    {fresh : Fresh}
    {phase : Phase}
    {w : TenantWrite}
    (hWrites : phase.WritesAs cfg fresh w) :
    phase.open_ = true := by
  cases hWrites <;> rfl

end Phase

theorem shows_toAdminTenant
    (t : Tenant) :
    Shows (toAdminTenant t) t :=
  ⟨rfl, rfl, rfl, rfl, rfl, rfl⟩

instance (cfg : Config) : DecidableRel cfg.Before :=
  fun t t' =>
    inferInstanceAs
      (Decidable
        (if t.name = t'.name then t.id ≤ t'.id
        else cfg.nameLE t.name t'.name = true))

instance (cfg : Config) : Std.Total cfg.Before where
  total := by
    intro t t'
    unfold Config.Before
    by_cases hName : t.name = t'.name
    · rw [if_pos hName, if_pos hName.symm]
      exact Nat.le_total t.id t'.id
    · rw [if_neg hName, if_neg (Ne.symm hName)]
      exact cfg.total t.name t'.name

instance (cfg : Config) : IsTrans Tenant cfg.Before where
  trans := by
    intro t t' t'' hLeft hRight
    unfold Config.Before at hLeft hRight ⊢
    by_cases hName : t.name = t'.name
    · rw [if_pos hName] at hLeft
      rw [hName]
      split at hRight
      · rename_i hName'
        rw [if_pos hName']
        exact Nat.le_trans hLeft hRight
      · rename_i hName'
        rw [if_neg hName']
        exact hRight
    · rw [if_neg hName] at hLeft
      by_cases hName' : t'.name = t''.name
      · rw [if_neg (hName' ▸ hName), ← hName']
        exact hLeft
      · rw [if_neg hName'] at hRight
        -- the names would be equal by antisymmetry
        have hDiffer : t.name ≠ t''.name := by
          intro hSame
          rw [← hSame] at hRight
          exact hName (cfg.antisymm _ _ hLeft hRight)
        rw [if_neg hDiffer]
        exact cfg.trans _ _ _ hLeft hRight

theorem lists_listAllTenants
    (cfg : Config)
    (tenants : Table Tenant) :
    Lists cfg tenants
      ((listAllTenants cfg tenants).map toAdminTenant) := by
  refine ⟨listAllTenants cfg tenants,
    List.perm_insertionSort _ _, ?_, ?_⟩
  · exact List.pairwise_insertionSort cfg.Before tenants.rows
  · rw [List.forall₂_map_left_iff, List.forall₂_same]
    exact fun t _ => shows_toAdminTenant t

/- Some table has a row. -/
theorem exists_find?
    (t : Tenant) :
    ∃ read : Table Tenant, read.find? t.id = some t :=
  ⟨Table.empty.insert t, find?_insert_self t rfl⟩

namespace Progress

variable {cfg : Config}
variable {seen seen' : Table Tenant → Prop}
variable {tenants tenants' : Table Tenant}
variable {r : Request}
variable {phase : Phase}
variable {ws : List TenantWrite}

/-
  Tenants are never removed, and a handler that has not
  answered depends on no table that it has read.
-/
theorem carry
    (hKept :
      ∀ id, (tenants.find? id).isSome = true →
        (tenants'.find? id).isSome = true)
    (hSeen :
      phase.open_ = false → ∀ read, seen read → seen' read)
    (hProgress : Progress cfg seen tenants r phase ws) :
    Progress cfg seen' tenants' r phase ws := by
  cases hProgress with
  | create => exact .create
  | list => exact .list
  | get => exact .get
  | limits hGiven => exact .limits hGiven
  | status hStatus hThere =>
      exact .status hStatus (fun hGiven => hKept _ (hThere hGiven))
  | show_ hWrites hThere =>
      exact .show_ hWrites (fun hSome => hKept _ (hThere hSome))
  | rotateKey => exact .rotateKey
  | rotateSecret => exact .rotateSecret
  | answered hRead hTold =>
      exact .answered (hSeen rfl _ hRead) hTold

theorem anew
    (hOpen : phase.open_ = true)
    (hProgress : Progress cfg seen tenants r phase ws) :
    Progress cfg seen' tenants r phase ws := by
  refine hProgress.carry (fun _ => id) ?_
  intro hClosed
  rw [hOpen] at hClosed
  cases hClosed

theorem told
    {answer : Answer}
    (hProgress :
      Progress cfg seen tenants r (.answered answer) ws) :
    ∃ read, seen read ∧ Told cfg read r ws answer := by
  cases hProgress with
  | answered hRead hTold => exact ⟨_, hRead, hTold⟩

theorem refused
    (hNow : seen tenants)
    {code : Nat}
    (message : String)
    (hLow : 400 ≤ code)
    (hHigh : code < 500) :
    Progress cfg seen tenants r
      (.answered (refuse code message)) [] :=
  .answered hNow (.inr (.inl ⟨hLow, hHigh, rfl⟩))

theorem broken
    (hNow : seen tenants)
    (message : String)
    (hBegun : Begun cfg r ws) :
    Progress cfg seen tenants r
      (.answered (refuse 500 message)) ws :=
  .answered hNow (.inr (.inr ⟨rfl, hBegun⟩))

theorem updateStatus
    (cfg : Config)
    (id : Uuid)
    (body : UpdateTenantRequest)
    (hThere :
      body.limits.given = true →
        (tenants.find? id).isSome = true) :
    Progress cfg seen tenants
      (.updateTenant (some id) (some body))
      (Admin.updateStatus id (body.status.bind parseStatus))
      (limitsWrites id body.limits) := by
  cases hStatus : body.status.bind parseStatus with
  | none =>
      refine .show_ ?_ ?_
      · rw [hStatus]
        exact (List.append_nil _).symm
      · intro hSome
        apply hThere
        by_contra hNone
        exact hSome (if_neg hNone)
  | some status => exact .status hStatus hThere

theorem updateLimits
    (cfg : Config)
    (tenants : Table Tenant)
    (id : Uuid)
    (body : UpdateTenantRequest) :
    Progress cfg seen tenants
      (.updateTenant (some id) (some body))
      (Admin.updateLimits id body.limits
        (body.status.bind parseStatus)) [] := by
  unfold Admin.updateLimits
  split
  · rename_i hGiven
    exact .limits hGiven
  · rename_i hNone
    have hWrites : limitsWrites id body.limits = [] :=
      if_neg hNone
    rw [← hWrites]
    exact updateStatus cfg id body
      (fun hGiven => absurd hGiven hNone)

/- A request that was let in. -/
theorem start
    (hNow : seen tenants)
    (r : Request) :
    Progress cfg seen tenants r r.start [] := by
  have hStarts := r.starts
  generalize r.start = phase at hStarts ⊢
  cases hStarts with
  | refused hLow hHigh => exact refused hNow _ hLow hHigh
  | create _ => exact .create
  | list => exact .list
  | get => exact .get
  | @update id body _ => exact updateLimits cfg tenants id body
  | rotateKey => exact .rotateKey
  | rotateSecret => exact .rotateSecret

/- A row for the answer of an update that does not fail. -/
theorem begun_update
    {id : Uuid}
    {body : UpdateTenantRequest}
    (rest : List TenantWrite)
    (hWrites :
      ws ++ rest =
        limitsWrites id body.limits ++
          statusWrites id (body.status.bind parseStatus)) :
    Begun cfg (.updateTenant (some id) (some body)) ws := by
  rcases exists_find? (newTenant cfg id "" "" "" 0 0 0) with
    ⟨read, hFind⟩
  have hGranted :=
    @Granted.updated cfg read id body _ _ hFind
      (shows_toAdminTenant _)
  rw [← hWrites] at hGranted
  exact ⟨read, rest, _, hGranted⟩

theorem begun
    (hOpen : phase.open_ = true)
    (hProgress : Progress cfg seen tenants r phase ws) :
    Begun cfg r ws := by
  cases hProgress with
  | @create body =>
      rcases exists_find?
          (newTenant cfg 0 "" "" body.name
            (body.limits.rateLimit.getD 100)
            (body.limits.weight.getD 100)
            (body.limits.maxConcurrency.getD 0)) with
        ⟨read, hFind⟩
      exact ⟨read, _, _,
        .created rfl hFind (shows_toAdminTenant _)⟩
  | list =>
      exact ⟨tenants, [], _,
        .listed (lists_listAllTenants cfg tenants)⟩
  | @get id =>
      rcases exists_find? (newTenant cfg id "" "" "" 0 0 0) with
        ⟨read, hFind⟩
      exact ⟨read, [], _,
        .shown hFind (shows_toAdminTenant _)⟩
  | limits _ => exact begun_update _ rfl
  | status _ _ => exact begun_update _ rfl
  | show_ hWrites _ =>
      refine begun_update [] ?_
      rw [List.append_nil]
      exact hWrites
  | @rotateKey id =>
      exact ⟨tenants, _, _, @Granted.keyRotated _ _ id ""⟩
  | @rotateSecret id =>
      exact ⟨tenants, _, _, @Granted.secretRotated _ _ id ""⟩
  | answered _ _ => cases hOpen

end Progress

/- An `UPDATE` is refused for want of the row only. -/
theorem isNone_of_notFound
    {tenants : Table Tenant}
    {c : TenantChange}
    (hErr : c.execute tenants = .error .notFound) :
    tenants.find? c.row = none := by
  unfold TenantChange.execute at hErr
  split at hErr
  · cases hErr
  · split at hErr
    · rename_i hNone
      simp only [Bool.and_eq_true, Option.isNone_iff_eq_none]
        at hNone
      exact hNone.2
    · split at hErr
      · cases hErr
      · split at hErr <;> cases hErr

/- The row of an `INSERT` is there afterwards. -/
theorem find?_of_insertTenant
    {tenants tenants' : Table Tenant}
    {t : Tenant}
    (hActive : t.status = .active)
    (hOk :
      (TenantChange.insertTenant t).execute tenants =
        .ok tenants') :
    tenants'.find? t.id = some t := by
  rcases TenantChange.leaves_of_execute hOk with ⟨new, hLeaves⟩
  have hYields := hLeaves.yields
  have hSame : new = t := by
    cases hFind : tenants.find? new.id with
    | none =>
        rw [hFind] at hYields
        have hNew : new = { t with status := .active } :=
          hYields
        rw [hNew, ← hActive]
    | some old =>
        rw [hFind] at hYields
        exact hYields.elim
  subst hSame
  exact Table.find?_of_mem
    ((hLeaves.rows new).mpr (.inr rfl))

namespace Progress

variable {cfg : Config}
variable {seen : Table Tenant → Prop}
variable {tenants tenants' : Table Tenant}
variable {r : Request}
variable {phase : Phase}
variable {ws : List TenantWrite}
variable {err : TenantError}
variable {stmt : Statement}
variable {fresh : Fresh}

/- The two errors of a statement. -/
theorem onError
    (hNow : seen tenants)
    (message : String)
    (hNone : err = .notFound → ws = [])
    (hBegun : Begun cfg r ws) :
    Progress cfg seen tenants r (Admin.onError message err)
      ws := by
  cases err with
  | notFound =>
      rw [hNone rfl]
      exact refused hNow _ (by decide) (by decide)
  | failed => exact broken hNow _ hBegun

/- What `writeAdminTenant` answers after its query. -/
theorem show_answer
    {id : Uuid}
    (hNow : seen tenants)
    (hShown :
      ∀ t, tenants.find? id = some t →
        Granted cfg tenants r ws
          ⟨200, .tenant (toAdminTenant t)⟩)
    (hRes :
      (Statement.get id).result tenants = .ok tenants') :
    Progress cfg seen tenants r (showTenant id tenants)
      ws := by
  simp only [Statement.result] at hRes
  split at hRes
  · rename_i hThere
    rcases Option.isSome_iff_exists.mp hThere with ⟨t, hFind⟩
    unfold showTenant
    rw [hFind]
    exact .answered hNow (.inl (hShown t hFind))
  · cases hRes

theorem result_get
    {id : Uuid}
    (hRes :
      (Statement.get id).result tenants = .error err) :
    tenants.find? id = none := by
  simp only [Statement.result] at hRes
  split at hRes
  · cases hRes
  · rename_i hNone
    simpa using hNone

/- A statement that is a write has no other result. -/
theorem not_read_of_write
    {x : Except String TenantWrite}
    (hStmt : x.toOption.map Statement.write = some stmt)
    (hRead : ∀ w, stmt ≠ .write w) :
    False := by
  rcases ok_of_toOption_map hStmt with ⟨w, _, hEq⟩
  exact hRead w hEq.symm

/- The statement of a handler is refused. -/
theorem refusal
    (hNow : seen tenants)
    (hProgress : Progress cfg seen tenants r phase ws)
    (hStmt : phase.statement cfg fresh = some stmt)
    (hRes : stmt.result tenants = .error err) :
    Progress cfg seen tenants r
      (phase.resume cfg fresh (.error err)) ws := by
  have hBegun : phase.open_ = true → Begun cfg r ws :=
    fun hOpen => hProgress.begun hOpen
  cases hProgress with
  | create => exact broken hNow _ (hBegun rfl)
  | list => exact broken hNow _ (hBegun rfl)
  | get => exact onError hNow _ (fun _ => rfl) (hBegun rfl)
  | limits _ => exact onError hNow _ (fun _ => rfl) (hBegun rfl)
  | @status id body status _ hThere =>
      cases hStmt
      refine onError hNow _ ?_ (hBegun rfl)
      rintro rfl
      have hNone : tenants.find? id = none :=
        isNone_of_notFound
          (c := .setTenantStatus id status) hRes
      -- had the limits been written, the row were there
      refine if_neg ?_
      intro hGiven
      have hSome := hThere hGiven
      rw [hNone] at hSome
      cases hSome
  | show_ hWrites hThere =>
      cases hStmt
      refine onError hNow _ ?_ (hBegun rfl)
      intro _
      by_contra hSome
      have hRow := hThere hSome
      rw [result_get hRes] at hRow
      cases hRow
  | rotateKey => exact onError hNow _ (fun _ => rfl) (hBegun rfl)
  | rotateSecret =>
      exact onError hNow _ (fun _ => rfl) (hBegun rfl)
  | answered _ _ => cases hStmt

/- The statement of a handler is a query. -/
theorem query
    (hNow : seen tenants)
    (hProgress : Progress cfg seen tenants r phase ws)
    (hStmt : phase.statement cfg fresh = some stmt)
    (hRead : ∀ w, stmt ≠ .write w)
    (hRes : stmt.result tenants = .ok tenants) :
    Progress cfg seen tenants r
      (phase.resume cfg fresh (.ok tenants)) ws := by
  cases hProgress with
  | create => exact (not_read_of_write hStmt hRead).elim
  | list =>
      have hGranted :=
        Granted.listed (lists_listAllTenants cfg tenants)
      rw [List.length_map] at hGranted
      exact .answered hNow (.inl hGranted)
  | get =>
      cases hStmt
      refine show_answer hNow ?_ hRes
      exact fun t hFind =>
        .shown hFind (shows_toAdminTenant t)
  | limits _ =>
      cases hStmt
      exact absurd rfl (hRead _)
  | status _ _ =>
      cases hStmt
      exact absurd rfl (hRead _)
  | show_ hWrites _ =>
      cases hStmt
      refine show_answer hNow ?_ hRes
      intro t hFind
      rw [hWrites]
      exact .updated hFind (shows_toAdminTenant t)
  | rotateKey => exact (not_read_of_write hStmt hRead).elim
  | rotateSecret => exact (not_read_of_write hStmt hRead).elim
  | answered _ _ => cases hStmt

/- A step of a handler whose statement changed nothing. -/
theorem pass
    {s : Desk}
    {res : Except TenantError (Table Tenant)}
    (hNow : seen s.tenants)
    (hOpen : phase.open_ = true)
    (hProgress : Progress cfg seen s.tenants r phase ws)
    (hSees : s.Sees cfg fresh phase res) :
    Progress cfg seen s.tenants r
      (phase.resume cfg fresh res) ws := by
  cases hSees with
  | failed =>
      rcases Phase.resume_failed cfg fresh hOpen with
        ⟨message, hResume⟩
      rw [hResume]
      exact broken hNow message (hProgress.begun hOpen)
  | refused hStmt hRes =>
      exact hProgress.refusal hNow hStmt hRes
  | read hStmt hRead hRes =>
      exact hProgress.query hNow hStmt hRead hRes

/- The row of a write is there afterwards. -/
theorem isSome_of_execute
    {c : TenantChange}
    (hOk : c.execute tenants = .ok tenants')
    (hUpdate : c.isInsert = false) :
    (tenants'.find? c.row).isSome = true := by
  have hThere : (tenants.find? c.row).isSome = true := by
    cases hFind : tenants.find? c.row with
    | some t => rfl
    | none =>
        unfold TenantChange.execute at hOk
        split at hOk
        · cases hOk
        · simp [hUpdate, hFind] at hOk
  exact TenantWrite.isSome_find?_of_execute
    (w := .change c) hOk hThere

/- A step of a handler whose write took effect. -/
theorem write
    {w : TenantWrite}
    {res : Except TenantError (Table Tenant)}
    (hNow : seen tenants')
    (hProgress : Progress cfg seen tenants r phase ws)
    (hWrites : phase.WritesAs cfg fresh w)
    (hOk : w.execute tenants = .ok tenants')
    (hRes : res = .ok tenants' ∨ res = .error .failed) :
    Progress cfg seen tenants' r (phase.resume cfg fresh res)
      (ws ++ [w]) := by
  cases hProgress with
  | create =>
      cases hWrites with
      | insertTenant hKey hSecret =>
          have hRow := find?_of_insertTenant rfl hOk
          have hGranted :=
            Granted.created rfl hRow (shows_toAdminTenant _)
          rcases hRes with rfl | rfl
          · simp only [Phase.resume, hKey, hSecret]
            exact .answered hNow (.inl hGranted)
          · exact broken hNow _ ⟨_, [], _, hGranted⟩
  | list => cases hWrites
  | get => cases hWrites
  | @limits id body hGiven =>
      cases hWrites with
      | limits =>
          have hLimits :
              limitsWrites id body.limits =
                [setLimits id body.limits] :=
            if_pos hGiven
          rw [List.nil_append, ← hLimits]
          rcases hRes with rfl | rfl
          · exact updateStatus cfg id body
              (fun _ => isSome_of_execute hOk rfl)
          · exact broken hNow _ (begun_update _ rfl)
  | @status id body status hStatus _ =>
      cases hWrites with
      | status =>
          have hAll :
              limitsWrites id body.limits ++
                  [setStatus id status] =
                limitsWrites id body.limits ++
                  statusWrites id
                    (body.status.bind parseStatus) := by
            rw [hStatus]
            rfl
          rcases hRes with rfl | rfl
          · exact .show_ hAll
              (fun _ => isSome_of_execute hOk rfl)
          · refine broken hNow _ (begun_update [] ?_)
            rw [List.append_nil]
            exact hAll
  | show_ _ _ => cases hWrites
  | rotateKey =>
      cases hWrites with
      | rotateAPIKey hKey =>
          rcases hRes with rfl | rfl
          · simp only [Phase.resume, hKey]
            exact .answered hNow (.inl .keyRotated)
          · exact broken hNow _ ⟨tenants', [], _, .keyRotated⟩
  | rotateSecret =>
      cases hWrites with
      | rotateWebhookSecret hSecret =>
          rcases hRes with rfl | rfl
          · simp only [Phase.resume, hSecret]
            exact .answered hNow (.inl .secretRotated)
          · exact broken hNow _
              ⟨tenants', [], _, .secretRotated⟩
  | answered _ _ => cases hWrites

end Progress

------------------------------------------------------------
-- Runs
------------------------------------------------------------

variable {cfg : Config}

namespace Desk

/- Make recorded writes again, the oldest first. -/
def replay
    (start : Table Tenant) :
    List (Option Nat × TenantWrite) → Option (Table Tenant)
| [] => some start
| e :: older =>
    (replay start older).bind
      (fun tenants => (e.2.execute tenants).toOption)

/- The writes made for request `i`, the oldest first. -/
def writesOf (s : Desk) (i : Nat) : List TenantWrite :=
  (s.log.filterMap
    (fun e => if e.1 = some i then some e.2 else none)).reverse

/- The table as it is, or as it was before some writes. -/
def Had (s : Desk) (read : Table Tenant) : Prop :=
  ∃ older,
    older <:+ s.log ∧ replay s.start older = some read

variable {s s' : Desk}
variable {label : Label}
variable {i : Nat}
variable {w : TenantWrite}

theorem writesOf_cons_self
    (hLog : s'.log = (some i, w) :: s.log) :
    s'.writesOf i = s.writesOf i ++ [w] := by
  unfold writesOf
  rw [hLog]
  simp

theorem writesOf_cons_other
    {by_ : Option Nat}
    (hLog : s'.log = (by_, w) :: s.log)
    (hOther : by_ ≠ some i) :
    s'.writesOf i = s.writesOf i := by
  unfold writesOf
  rw [hLog]
  simp [hOther]

/- The record tells the table, and the progress of requests. -/
structure Accounted (cfg : Config) (s : Desk) : Prop where
  replayed : replay s.start s.log = some s.tenants
  indices :
    ∀ e ∈ s.log, ∀ i, e.1 = some i → i < s.calls.length
  progress :
    ∀ (i : Nat) (call : Call), s.calls[i]? = some call →
      Progress cfg s.Had s.tenants call.request call.phase
        (s.writesOf i)

/-
  One step: a request stays where it is, or goes on from the
  table as it is now.
-/
structure Moves (cfg : Config) (s s' : Desk) : Prop where
  start : s'.start = s.start
  log : s.log <:+ s'.log
  kept :
    ∀ id, (s.tenants.find? id).isSome = true →
      (s'.tenants.find? id).isSome = true
  replayed : replay s'.start s'.log = some s'.tenants
  indices :
    ∀ e ∈ s'.log, ∀ i, e.1 = some i → i < s'.calls.length
  calls :
    ∀ (i : Nat) (call : Call), s'.calls[i]? = some call →
      (s.calls[i]? = some call ∧
        s'.writesOf i = s.writesOf i) ∨
        Progress cfg (Eq s'.tenants) s'.tenants call.request
          call.phase (s'.writesOf i)

theorem Accounted.writesOf_new
    (hAccounted : s.Accounted cfg) :
    s.writesOf s.calls.length = [] := by
  unfold writesOf
  rw [List.reverse_eq_nil_iff, List.filterMap_eq_nil_iff]
  intro e hMem
  refine if_neg ?_
  intro hIndex
  exact Nat.lt_irrefl _ (hAccounted.indices e hMem _ hIndex)

theorem progress_of_adminAuth
    {hdr : String}
    {answer : Answer}
    {seen : Table Tenant → Prop}
    (hNow : seen s.tenants)
    (r : Request)
    (hAuth :
      adminAuth cfg s.adminTokenHash hdr = some answer) :
    Progress cfg seen s.tenants r (.answered answer) [] := by
  unfold adminAuth at hAuth
  split at hAuth
  · cases hAuth
    exact Progress.refused hNow _ (by decide) (by decide)
  · split at hAuth
    · cases hAuth
    · cases hAuth
      exact Progress.refused hNow _ (by decide) (by decide)

theorem Accounted.arrives
    (hAccounted : s.Accounted cfg)
    {r : Request}
    {phase : Phase}
    (hPhase :
      Progress cfg (Eq s.tenants) s.tenants r phase []) :
    Moves cfg s
      { s with calls := s.calls ++ [⟨r, phase⟩] } := by
  refine ⟨rfl, List.suffix_rfl, fun _ => id,
    hAccounted.replayed, ?_, ?_⟩
  · intro e hMem i hIndex
    have hLt := hAccounted.indices e hMem i hIndex
    simp only [List.length_append, List.length_singleton]
    omega
  · intro i call hCall
    rcases Nat.lt_trichotomy i s.calls.length with
      hLt | rfl | hGt
    · rw [List.getElem?_append_left hLt] at hCall
      exact .inl ⟨hCall, rfl⟩
    · rw [List.getElem?_concat_length] at hCall
      cases hCall
      have hNone := hAccounted.writesOf_new
      unfold writesOf at hNone ⊢
      rw [hNone]
      exact .inr hPhase
    · rw [List.getElem?_eq_none (by simp; omega)] at hCall
      cases hCall

theorem getElem?_setPhase
    {i j : Nat}
    {call call' : Call}
    {phase : Phase}
    (hCall : s.calls[i]? = some call)
    (hCall' : (s.setPhase i call phase).calls[j]? = some call') :
    (i = j ∧ call' = { call with phase := phase }) ∨
      (i ≠ j ∧ s.calls[j]? = some call') := by
  simp only [setPhase, List.getElem?_set] at hCall'
  split at hCall'
  · rename_i hSame
    subst hSame
    rw [if_pos (List.getElem?_eq_some_iff.mp hCall).1] at hCall'
    exact .inl ⟨rfl, (Option.some.inj hCall').symm⟩
  · rename_i hOther
    exact .inr ⟨hOther, hCall'⟩

theorem Accounted.passes
    (hAccounted : s.Accounted cfg)
    {fresh : Fresh}
    {call : Call}
    {res : Except TenantError (Table Tenant)}
    (hCall : s.calls[i]? = some call)
    (hSees : s.Sees cfg fresh call.phase res) :
    Moves cfg s
      (s.setPhase i call (call.phase.resume cfg fresh res)) := by
  refine ⟨rfl, List.suffix_rfl, fun _ => id,
    hAccounted.replayed, ?_, ?_⟩
  · intro e hMem j hIndex
    have hLt := hAccounted.indices e hMem j hIndex
    simpa [setPhase] using hLt
  · intro j call' hCall'
    rcases getElem?_setPhase hCall hCall' with
      ⟨rfl, rfl⟩ | ⟨_, hSame⟩
    · cases hOpen : call.phase.open_ with
      | true =>
          have hNow :
              Progress cfg (Eq s.tenants) s.tenants call.request
                call.phase (s.writesOf i) :=
            (hAccounted.progress i call hCall).anew hOpen
          have hNext := hNow.pass rfl hOpen hSees
          exact .inr hNext
      | false =>
          rw [Phase.resume_closed cfg fresh res hOpen]
          exact .inl ⟨hCall, rfl⟩
    · exact .inl ⟨hSame, rfl⟩

/- A write, before the handler goes on that has made it. -/
theorem Accounted.writes
    (hAccounted : s.Accounted cfg)
    {by_ : Option Nat}
    (hWrites : s.Writes by_ w s')
    (hBy : ∀ i, by_ = some i → i < s.calls.length) :
    s.log <:+ s'.log ∧
      (∀ id, (s.tenants.find? id).isSome = true →
        (s'.tenants.find? id).isSome = true) ∧
        replay s'.start s'.log = some s'.tenants ∧
          ∀ e ∈ s'.log, ∀ i, e.1 = some i →
            i < s.calls.length := by
  have hLog : s'.log = (by_, w) :: s.log := by
    rw [hWrites.eq]
  refine ⟨?_, ?_, ?_, ?_⟩
  · rw [hLog]
    exact List.suffix_cons _ _
  · exact fun _ =>
      TenantWrite.isSome_find?_of_execute hWrites.execute
  · rw [hWrites.eq]
    simp only [replay, hAccounted.replayed, Option.bind_some,
      hWrites.execute]
    rfl
  · rw [hLog]
    intro e hMem i hIndex
    rcases List.mem_cons.mp hMem with rfl | hOld
    · exact hBy i hIndex
    · exact hAccounted.indices e hOld i hIndex

theorem Accounted.commands
    (hAccounted : s.Accounted cfg)
    (hWrites : s.Writes none w s') :
    Moves cfg s s' := by
  rcases hAccounted.writes hWrites (fun _ hEq => nomatch hEq)
    with ⟨hLog, hKept, hReplayed, hIndices⟩
  have hNew : s'.log = (none, w) :: s.log := by
    rw [hWrites.eq]
  have hStart : s'.start = s.start := by
    rw [hWrites.eq]
  have hCalls : s'.calls = s.calls := by
    rw [hWrites.eq]
  refine ⟨hStart, hLog, hKept, hReplayed, ?_, ?_⟩
  · rw [hCalls]
    exact hIndices
  · intro i call hCall
    rw [hCalls] at hCall
    exact .inl ⟨hCall,
      writesOf_cons_other hNew (fun hEq => nomatch hEq)⟩

theorem Accounted.statement
    (hAccounted : s.Accounted cfg)
    {fresh : Fresh}
    {call : Call}
    {res : Except TenantError (Table Tenant)}
    (hCall : s.calls[i]? = some call)
    (hStmt : call.phase.statement cfg fresh = some (.write w))
    (hWrites : s.Writes (some i) w s')
    (hRes : res = .ok s'.tenants ∨ res = .error .failed) :
    Moves cfg s
      (s'.setPhase i call
        (call.phase.resume cfg fresh res)) := by
  have hLt : i < s.calls.length :=
    (List.getElem?_eq_some_iff.mp hCall).1
  rcases hAccounted.writes hWrites
      (fun j hEq => Option.some.inj hEq ▸ hLt) with
    ⟨hLog, hKept, hReplayed, hIndices⟩
  have hNew : s'.log = (some i, w) :: s.log := by
    rw [hWrites.eq]
  have hStart : s'.start = s.start := by
    rw [hWrites.eq]
  have hCalls : s'.calls = s.calls := by
    rw [hWrites.eq]
  have hWritesAs := Phase.writesAs_of_statement hStmt
  have hNow :
      Progress cfg (Eq s'.tenants) s.tenants call.request
        call.phase (s.writesOf i) :=
    (hAccounted.progress i call hCall).anew hWritesAs.open_
  refine ⟨hStart, hLog, hKept, hReplayed, ?_, ?_⟩
  · intro e hMem j hIndex
    have hLt' := hIndices e hMem j hIndex
    simpa [setPhase, hCalls] using hLt'
  · intro j call' hCall'
    rw [← hCalls] at hCall
    rcases getElem?_setPhase hCall hCall' with
      ⟨rfl, rfl⟩ | ⟨hOther, hSame⟩
    · refine .inr ?_
      have hNext :=
        hNow.write rfl hWritesAs hWrites.execute hRes
      rw [← writesOf_cons_self hNew] at hNext
      exact hNext
    · rw [hCalls] at hSame
      exact .inl ⟨hSame,
        writesOf_cons_other hNew
          (fun hEq => hOther (Option.some.inj hEq))⟩

theorem Accounted.moves
    (hAccounted : s.Accounted cfg)
    (hEffect : Effect cfg s label s') :
    Moves cfg s s' := by
  cases hEffect with
  | @arrives hdr r phase hPhase =>
      refine hAccounted.arrives ?_
      rcases hPhase with ⟨_, rfl⟩ | ⟨answer, hAuth, rfl⟩
      · exact Progress.start rfl r
      · exact progress_of_adminAuth rfl r hAuth
  | passes hCall hSees => exact hAccounted.passes hCall hSees
  | writes hCall hStmt hWrites hRes =>
      exact hAccounted.statement hCall hStmt hWrites hRes
  | idles =>
      exact ⟨rfl, List.suffix_rfl, fun _ => id,
        hAccounted.replayed, hAccounted.indices,
        fun _ _ hCall => .inl ⟨hCall, rfl⟩⟩
  | commands _ hWrites => exact hAccounted.commands hWrites

theorem Moves.had
    (hMoves : Moves cfg s s')
    {read : Table Tenant}
    (hHad : s.Had read) :
    s'.Had read := by
  rcases hHad with ⟨older, hOlder, hReplay⟩
  refine ⟨older, hOlder.trans hMoves.log, ?_⟩
  rw [hMoves.start]
  exact hReplay

theorem Accounted.step
    (hAccounted : s.Accounted cfg)
    (hMoves : Moves cfg s s') :
    s'.Accounted cfg := by
  refine ⟨hMoves.replayed, hMoves.indices, ?_⟩
  intro i call hCall
  rcases hMoves.calls i call hCall with
    ⟨hSame, hWrites⟩ | hNow
  · rw [hWrites]
    exact (hAccounted.progress i call hSame).carry hMoves.kept
      (fun _ _ => hMoves.had)
  · refine hNow.carry (fun _ => id) ?_
    rintro _ _ rfl
    exact ⟨s'.log, List.suffix_rfl, hMoves.replayed⟩

theorem accounted_of_init
    (hInit : (desk cfg).init s) :
    s.Accounted cfg := by
  rcases hInit with ⟨_, _, hStart, hCalls, hLog⟩
  refine ⟨?_, ?_, ?_⟩
  · rw [hLog, hStart]
    rfl
  · rw [hLog]
    intro e hMem
    cases hMem
  · rw [hCalls]
    intro i call hCall
    cases hCall

theorem accounted_of_reachable
    (hReach : (desk cfg).Reachable s) :
    s.Accounted cfg :=
  hReach.invariant (fun _ => accounted_of_init)
    (fun _ _ _ _ hAccounted _ hStep =>
      hAccounted.step (hAccounted.moves (step_effect hStep)))

end Desk

/-
  The table is what the recorded writes make of the table at
  the start. A request that was granted has made all of its
  writes, one that was refused has made none, and one that
  failed may have made the first of them. In the step in
  which a request is granted, the rows in its answer are
  those of the table.
-/
theorem answers_tell_what_was_done
    {s : Desk}
    (hReach : (desk cfg).Reachable s) :
    Desk.replay s.start s.log = some s.tenants ∧
      (∀ (i : Nat) (call : Call) (answer : Answer),
        s.calls[i]? = some call →
          call.phase = .answered answer →
            ∃ read, s.Had read ∧
              Told cfg read call.request (s.writesOf i)
                answer) ∧
        ∀ (label : Label) (s' : Desk),
          (desk cfg).step label s = some s' →
            ∀ (i : Nat) (call : Call) (answer : Answer),
              s'.calls[i]? = some call →
                call.phase = .answered answer →
                  (s.calls[i]? = some call ∧
                    s'.writesOf i = s.writesOf i) ∨
                    Told cfg s'.tenants call.request
                      (s'.writesOf i) answer := by
  have hAccounted := Desk.accounted_of_reachable hReach
  refine ⟨hAccounted.replayed, ?_, ?_⟩
  · intro i call answer hCall hAnswered
    have hProgress := hAccounted.progress i call hCall
    rw [hAnswered] at hProgress
    exact hProgress.told
  · intro label s' hStep i call answer hCall hAnswered
    have hMoves := hAccounted.moves (Desk.step_effect hStep)
    rcases hMoves.calls i call hCall with hSame | hNow
    · exact .inl hSame
    · rw [hAnswered] at hNow
      rcases hNow.told with ⟨_, rfl, hTold⟩
      exact .inr hTold

/-
  The limits are written, and then the status fails. A query
  shows the row with its new weight.
-/
theorem failed_update_is_half_done :
    ∃ s, (desk plain).Reachable s ∧
      s.calls.map Call.phase =
          [.answered (refuse 500 "failed to update tenant"),
            .answered
              ⟨200,
                .tenant ⟨1, "dev", .disabled, 1000, 9, 0⟩⟩] ∧
        s.writesOf 0 = [setLimits 1 ⟨none, some 9, none⟩] ∧
          Desk.replay s.start s.log = some s.tenants := by
  rcases
    Machine.exists_reachable_of_run init_opened
      [.request bearer
          (.updateTenant (some 1)
            (some ⟨⟨none, some 9, none⟩, some "active"⟩)),
        .statement 0 (drawn 8 "k2") .done,
        .statement 0 (drawn 8 "k2") .failed,
        .request bearer (.getTenant (some 1)),
        .statement 1 (drawn 8 "k2") .done]
      (fun s =>
        s.calls.map Call.phase =
            [.answered
                (refuse 500 "failed to update tenant"),
              .answered
                ⟨200,
                  .tenant
                    ⟨1, "dev", .disabled, 1000, 9,
                      0⟩⟩] ∧
          s.writesOf 0 =
            [setLimits 1 ⟨none, some 9, none⟩])
      (by decide +kernel)
  with ⟨s, hReach, hCalls, hWrites⟩
  exact ⟨s, hReach, hCalls, hWrites,
    (answers_tell_what_was_done hReach).1⟩

end Admin

end Api

end Sluice
