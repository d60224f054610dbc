import Mathlib.Data.List.Sort
import Sluice.Foundations.Machine
import Sluice.Storage.TenantWrites

/-
  The admin API, and the commands of the command line that
  change tenants.

  A request is checked, then makes one statement after the
  other, each in a transaction of its own; a statement may
  fail, and its result may get lost after it took effect.
  Requests of several operators and commands interleave
  between the statements.

  Key definitions include:
    * `validate`
    * `adminAuth`
    * `Request.start`
    * `Phase.statement` and `Phase.resume`
    * `Command.write`
    * `Desk`
    * `desk`
-/

------------------------------------------------------------
-- Requests And Answers
------------------------------------------------------------

namespace Sluice

namespace Api

namespace Admin

open Foundations Storage

/- `MinAdminTokenLen` -/
def minAdminTokenLen : Nat := 32

/-
  The SHA-256 digest that keys are stored as, and the order
  of names in the database.
-/
structure Config where
  digest : String → String
  nameLE : String → String → Bool
  total : ∀ a b, nameLE a b = true ∨ nameLE b a = true
  trans :
    ∀ a b c, nameLE a b = true → nameLE b c = true →
      nameLE a c = true
  antisymm :
    ∀ a b, nameLE a b = true → nameLE b a = true → a = b

/- `tenantLimitsRequest` and `TenantLimits`. -/
structure TenantLimits where
  rateLimit : Option Int
  weight : Option Int
  maxConcurrency : Option Int
deriving DecidableEq, Repr

/- The first limit that is out of range. -/
def validate (l : TenantLimits) : Except String Unit :=
  if l.rateLimit.any (fun n => n < 0) then
    .error "rate_limit must be 0 (unlimited) or positive"
  else if l.weight.any (fun n => n ≤ 0) then
    .error "weight must be positive"
  else if l.maxConcurrency.any (fun n => n < 0) then
    .error "max_concurrency must be 0 (unlimited) or positive"
  else .ok ()

structure CreateTenantRequest where
  name : String
  limits : TenantLimits
deriving DecidableEq, Repr

structure UpdateTenantRequest where
  limits : TenantLimits
  status : Option String
deriving DecidableEq, Repr

/-
  The routes of `/admin/v1`. A body that cannot be decoded,
  and an identifier that cannot be parsed, are `none`.
-/
inductive Request
| createTenant (body : Option CreateTenantRequest)
| listTenants
| getTenant (id : Option Uuid)
| updateTenant
    (id : Option Uuid) (body : Option UpdateTenantRequest)
| rotateKey (id : Option Uuid)
| rotateWebhookSecret (id : Option Uuid)
deriving DecidableEq, Repr

/- `adminTenant` -/
structure AdminTenant where
  id : Uuid
  name : String
  status : TenantStatus
  rateLimit : Int
  weight : Int
  maxConcurrency : Int
deriving DecidableEq, Repr

def toAdminTenant (t : Tenant) : AdminTenant where
  id := t.id
  name := t.name
  status := t.status
  rateLimit := t.rateLimit
  weight := t.weight
  maxConcurrency := t.maxConcurrency

inductive AdminBody
| error (message : String)
| created
    (tenant : AdminTenant) (apiKey webhookSecret : String)
| tenants (tenants : List AdminTenant) (count : Nat)
| tenant (tenant : AdminTenant)
| apiKey (key : String)
| webhookSecret (secret : String)
deriving DecidableEq, Repr

structure Answer where
  status : Nat
  body : AdminBody
deriving DecidableEq, Repr

def refuse (code : Nat) (message : String) : Answer :=
  ⟨code, .error message⟩

------------------------------------------------------------
-- Who May Ask
------------------------------------------------------------

/- `unicode.IsSpace` -/
def isSpace (c : Char) : Bool :=
  c.toNat ∈
      [0x09, 0x0a, 0x0b, 0x0c, 0x0d, 0x20, 0x85, 0xa0, 0x1680,
        0x2028, 0x2029, 0x202f, 0x205f, 0x3000] ||
    (decide (0x2000 ≤ c.toNat) && decide (c.toNat ≤ 0x200a))

/- `strings.TrimSpace` -/
def trimSpace (text : List Char) : List Char :=
  ((text.dropWhile isSpace).reverse.dropWhile isSpace).reverse

/-
  The header is split at its first space; the scheme is
  compared without regard to case.
-/
def extractBearerToken (hdr : String) : String :=
  match hdr.toList.span (fun c => c ≠ ' ') with
  | (_, []) => ""
  | (scheme, _ :: rest) =>
      if scheme.map Char.toLower = "bearer".toList then
        String.ofList (trimSpace rest)
      else ""

/- `EnableAdmin`; the digest is stored. -/
def enableAdmin
    (cfg : Config)
    (token : String) :
    Except String String :=
  if token.utf8ByteSize < minAdminTokenLen then
    .error
      ("admin token must be at least " ++
        toString minAdminTokenLen ++ " characters")
  else .ok (cfg.digest token)

/- The answer to a request that is turned away. -/
def adminAuth
    (cfg : Config)
    (adminTokenHash : Option String)
    (hdr : String) :
    Option Answer :=
  match adminTokenHash with
  | none => some (refuse 404 "admin API is not enabled")
  | some hash =>
      if cfg.digest (extractBearerToken hdr) = hash then none
      else some (refuse 401 "invalid admin token")

------------------------------------------------------------
-- Handlers
------------------------------------------------------------

/-
  The statement that a handler makes next, with what it
  needs later.
-/
inductive Phase
| insertTenant
    (name : String) (rateLimit weight maxConcurrency : Int)
| listAllTenants
| updateTenantLimits
    (id : Uuid) (limits : TenantLimits)
    (status : Option TenantStatus)
| setTenantStatus (id : Uuid) (status : TenantStatus)
| getTenantAnyStatus (id : Uuid)
| rotateAPIKey (id : Uuid)
| rotateWebhookSecret (id : Uuid)
| answered (answer : Answer)
deriving DecidableEq, Repr

def parseStatus : String → Option TenantStatus
| "active" => some .active
| "disabled" => some .disabled
| _ => none

/- `handleAdminCreateTenant`, up to its statement. -/
def startCreate (body : CreateTenantRequest) : Phase :=
  if body.name = "" then
    .answered (refuse 400 "name is required")
  else
    match validate body.limits with
    | .error message => .answered (refuse 400 message)
    | .ok _ =>
        .insertTenant body.name
          (body.limits.rateLimit.getD 100)
          (body.limits.weight.getD 100)
          (body.limits.maxConcurrency.getD 0)

/- The second part of `handleAdminUpdateTenant`. -/
def updateStatus
    (id : Uuid) :
    Option TenantStatus → Phase
| some status => .setTenantStatus id status
| none => .getTenantAnyStatus id

/- Whether a request names a limit. -/
def TenantLimits.given (l : TenantLimits) : Bool :=
  l.rateLimit.isSome || l.weight.isSome ||
    l.maxConcurrency.isSome

def updateLimits
    (id : Uuid)
    (limits : TenantLimits)
    (status : Option TenantStatus) :
    Phase :=
  if limits.given then .updateTenantLimits id limits status
  else updateStatus id status

/- `handleAdminUpdateTenant`, up to its first statement. -/
def startUpdate
    (id : Uuid)
    (body : UpdateTenantRequest) :
    Phase :=
  match validate body.limits with
  | .error message => .answered (refuse 400 message)
  | .ok _ =>
      match body.status with
      | none => updateLimits id body.limits none
      | some text =>
          match parseStatus text with
          | none =>
              .answered
                (refuse 400
                  "status must be \"active\" or \"disabled\"")
          | some status =>
              updateLimits id body.limits (some status)

/- `adminTenantID` -/
def withTenantID
    (next : Uuid → Phase) :
    Option Uuid → Phase
| none => .answered (refuse 400 "invalid tenant id")
| some id => next id

def withBody
    {Body : Type}
    (next : Body → Phase) :
    Option Body → Phase
| none => .answered (refuse 400 "invalid request body")
| some body => next body

def Request.start : Request → Phase
| .createTenant body => withBody startCreate body
| .listTenants => .listAllTenants
| .getTenant id => withTenantID .getTenantAnyStatus id
| .updateTenant id body =>
    withTenantID (fun id => withBody (startUpdate id) body) id
| .rotateKey id => withTenantID .rotateAPIKey id
| .rotateWebhookSecret id =>
    withTenantID .rotateWebhookSecret id

/-
  What is drawn at random: `uuid.New`, `NewAPIKey` and
  `NewWebhookSecret`; the latter two may fail.
-/
structure Fresh where
  id : Uuid
  apiKey : Except String String
  webhookSecret : Except String String

inductive Statement
| write (w : TenantWrite)
| list
| get (id : Uuid)
deriving DecidableEq, Repr

/- The row of `InsertTenant`. -/
def newTenant
    (cfg : Config)
    (id : Uuid)
    (key secret name : String)
    (rateLimit weight maxConcurrency : Int) :
    Tenant where
  id := id
  name := name
  apiKeyHash := cfg.digest key
  rateLimit := rateLimit
  weight := weight
  status := .active
  webhookSecret := secret
  maxConcurrency := maxConcurrency

/- The storage functions draw before they send. -/
def insertTenant
    (cfg : Config)
    (fresh : Fresh)
    (name : String)
    (rateLimit weight maxConcurrency : Int) :
    Except String TenantWrite :=
  match fresh.apiKey, fresh.webhookSecret with
  | .error err, _ => .error err
  | .ok _, .error err => .error err
  | .ok key, .ok secret =>
      .ok
        (.change
          (.insertTenant
            (newTenant cfg fresh.id key secret name rateLimit
              weight maxConcurrency)))

def rotateAPIKey
    (cfg : Config)
    (fresh : Fresh)
    (id : Uuid) :
    Except String TenantWrite :=
  fresh.apiKey.map
    (fun key => .change (.rotateAPIKey id (cfg.digest key)))

def rotateWebhookSecret
    (fresh : Fresh)
    (id : Uuid) :
    Except String TenantWrite :=
  fresh.webhookSecret.map
    (fun secret => .change (.rotateWebhookSecret id secret))

def setLimits
    (id : Uuid)
    (l : TenantLimits) :
    TenantWrite :=
  .change
    (.updateTenantLimits id l.rateLimit l.weight
      l.maxConcurrency)

def setStatus
    (id : Uuid)
    (status : TenantStatus) :
    TenantWrite :=
  .change (.setTenantStatus id status)

namespace Phase

/-
  The statement of a phase; `none` when nothing could be
  drawn.
-/
def statement
    (cfg : Config)
    (fresh : Fresh) :
    Phase → Option Statement
| .insertTenant name rateLimit weight maxConcurrency =>
    (Admin.insertTenant cfg fresh name rateLimit weight
      maxConcurrency).toOption.map .write
| .listAllTenants => some .list
| .updateTenantLimits id limits _ =>
    some (.write (setLimits id limits))
| .setTenantStatus id status =>
    some (.write (setStatus id status))
| .getTenantAnyStatus id => some (.get id)
| .rotateAPIKey id =>
    (Admin.rotateAPIKey cfg fresh id).toOption.map .write
| .rotateWebhookSecret id =>
    (Admin.rotateWebhookSecret fresh id).toOption.map .write
| .answered _ => none

end Phase

/- `ORDER BY name, id` -/
def listAllTenants
    (cfg : Config)
    (tenants : Table Tenant) :
    List Tenant :=
  tenants.rows.insertionSort
    (fun t t' =>
      if t.name = t'.name then t.id ≤ t'.id
      else cfg.nameLE t.name t'.name)

/- The answer of a handler that found no tenant, or failed. -/
def onError
    (message : String) :
    TenantError → Phase
| .notFound => .answered (refuse 404 "tenant not found")
| .failed => .answered (refuse 500 message)

/- `writeAdminTenant`, after its query. -/
def showTenant
    (id : Uuid)
    (tenants : Table Tenant) :
    Phase :=
  match tenants.find? id with
  | some t => .answered ⟨200, .tenant (toAdminTenant t)⟩
  | none => onError "failed to get tenant" .notFound

namespace Phase

/-
  How a handler goes on, from the error of its statement or
  the tenants after it.
-/
def resume
    (cfg : Config)
    (fresh : Fresh) :
    Phase → Except TenantError (Table Tenant) → Phase
| .insertTenant name rateLimit weight maxConcurrency, res =>
    match res, fresh.apiKey, fresh.webhookSecret with
    | .ok _, .ok key, .ok secret =>
        .answered
          ⟨201,
            .created
              (toAdminTenant
                (newTenant cfg fresh.id key secret name
                  rateLimit weight maxConcurrency))
              key secret⟩
    | _, _, _ =>
        .answered (refuse 500 "failed to create tenant")
| .listAllTenants, .ok tenants =>
    .answered
      ⟨200,
        .tenants
          ((Admin.listAllTenants cfg tenants).map toAdminTenant)
          (Admin.listAllTenants cfg tenants).length⟩
| .listAllTenants, .error _ =>
    .answered (refuse 500 "failed to list tenants")
| .updateTenantLimits id _ status, .ok _ =>
    updateStatus id status
| .updateTenantLimits _ _ _, .error err =>
    onError "failed to update tenant" err
| .setTenantStatus id _, .ok _ => .getTenantAnyStatus id
| .setTenantStatus _ _, .error err =>
    onError "failed to update tenant" err
| .getTenantAnyStatus id, .ok tenants =>
    showTenant id tenants
| .getTenantAnyStatus _, .error err =>
    onError "failed to get tenant" err
| .rotateAPIKey _, .ok _ =>
    match fresh.apiKey with
    | .ok key => .answered ⟨200, .apiKey key⟩
    | .error _ => onError "failed to rotate key" .failed
| .rotateAPIKey _, .error err =>
    onError "failed to rotate key" err
| .rotateWebhookSecret _, .ok _ =>
    match fresh.webhookSecret with
    | .ok secret => .answered ⟨200, .webhookSecret secret⟩
    | .error _ =>
        onError "failed to rotate webhook secret" .failed
| .rotateWebhookSecret _, .error err =>
    onError "failed to rotate webhook secret" err
| .answered answer, _ => .answered answer

end Phase

------------------------------------------------------------
-- Commands
------------------------------------------------------------

/-
  The commands on tenants with their flags and arguments. An
  identifier that cannot be parsed is an error text.
-/
inductive Command
| createTenant
    (rateLimit weight maxConcurrency : Int)
    (args : List String)
| setTenantLimits
    (rateLimit weight maxConcurrency : Int)
    (args : List (Except String Uuid))
| rotateKey (args : List (Except String Uuid))
| rotateWebhookSecret (args : List (Except String Uuid))
| enableDevTenant

/- Whether there is one argument, and it is an identifier. -/
def oneTenantID
    (usage : String) :
    List (Except String Uuid) → Except String Uuid
| [.ok id] => .ok id
| [.error err] => .error ("invalid tenant id: " ++ err)
| _ => .error usage

/- A negative flag of `set-tenant-limits` is not given. -/
def flagValue (v : Int) : Option Int :=
  if v < 0 then none else some v

/- `cmdCreateTenant`; the rate limit is not checked. -/
def cmdCreateTenant
    (cfg : Config)
    (fresh : Fresh)
    (rateLimit weight maxConcurrency : Int) :
    List String → Except String TenantWrite
| [name] =>
    if weight ≤ 0 then .error "weight must be positive"
    else if maxConcurrency < 0 then
      .error
        "max-concurrency must be 0 (unlimited) or positive"
    else
      match
        insertTenant cfg fresh name rateLimit weight
          maxConcurrency with
      | .ok w => .ok w
      | .error err => .error ("create tenant: " ++ err)
| _ =>
    .error
      ("usage: sluice-cli create-tenant [-rate-limit N] " ++
        "[-weight N] [-max-concurrency N] <name>")

def cmdSetTenantLimits
    (rateLimit weight maxConcurrency : Int)
    (args : List (Except String Uuid)) :
    Except String TenantWrite :=
  match
    oneTenantID
      ("usage: sluice-cli set-tenant-limits [-rate-limit N] " ++
        "[-weight N] [-max-concurrency N] <tenant-id>")
      args with
  | .error message => .error message
  | .ok id =>
      let l : TenantLimits :=
        ⟨flagValue rateLimit, flagValue weight,
          flagValue maxConcurrency⟩
      if !l.given then
        .error
          ("nothing to change: pass -rate-limit, -weight " ++
            "and/or -max-concurrency")
      else if l.weight = some 0 then
        .error "weight must be positive"
      else .ok (setLimits id l)

def cmdRotate
    (usage failed : String)
    (write : Uuid → Except String TenantWrite)
    (args : List (Except String Uuid)) :
    Except String TenantWrite :=
  match oneTenantID usage args with
  | .error message => .error message
  | .ok id =>
      match write id with
      | .ok w => .ok w
      | .error err => .error (failed ++ err)

/- The public key of the development tenant. -/
def devToken : String := "dev-token"

def cmdEnableDevTenant
    (cfg : Config)
    (fresh : Fresh) :
    Except String TenantWrite :=
  match fresh.webhookSecret with
  | .ok secret =>
      .ok (.enableDevTenant (cfg.digest devToken) secret)
  | .error err => .error err

/- The write of a command, or the message it ends with. -/
def Command.write
    (cfg : Config)
    (fresh : Fresh) :
    Command → Except String TenantWrite
| .createTenant rateLimit weight maxConcurrency args =>
    cmdCreateTenant cfg fresh rateLimit weight maxConcurrency
      args
| .setTenantLimits rateLimit weight maxConcurrency args =>
    cmdSetTenantLimits rateLimit weight maxConcurrency args
| .rotateKey args =>
    cmdRotate "usage: sluice-cli rotate-key <tenant-id>"
      "rotate key: " (Admin.rotateAPIKey cfg fresh) args
| .rotateWebhookSecret args =>
    cmdRotate
      "usage: sluice-cli rotate-webhook-secret <tenant-id>"
      "rotate webhook secret: "
      (Admin.rotateWebhookSecret fresh) args
| .enableDevTenant => cmdEnableDevTenant cfg fresh

------------------------------------------------------------
-- The System
------------------------------------------------------------

/-
  How a statement ends: with its own result, without effect,
  or with its effect and a lost result.
-/
inductive Outcome
| done
| failed
| lost
deriving DecidableEq, Repr

structure Call where
  request : Request
  phase : Phase

/-
  The table, the requests, and as a record the writes that
  took effect, newest first, with the request they were made
  for, and the table before them.
-/
structure Desk where
  adminTokenHash : Option String
  start : Table Tenant
  tenants : Table Tenant
  calls : List Call
  log : List (Option Nat × TenantWrite)

inductive Label
| request (hdr : String) (r : Request)
| statement (i : Nat) (fresh : Fresh) (outcome : Outcome)
| command (c : Command) (fresh : Fresh) (outcome : Outcome)

/- A write without the result that its caller sees. -/
def Desk.perform
    (s : Desk)
    (by_ : Option Nat)
    (w : TenantWrite) :
    Desk :=
  match w.execute s.tenants with
  | .ok tenants =>
      { s with tenants := tenants, log := (by_, w) :: s.log }
  | .error _ => s

def Statement.result
    (tenants : Table Tenant) :
    Statement → Except TenantError (Table Tenant)
| .write w => w.execute tenants
| .list => .ok tenants
| .get id =>
    if (tenants.find? id).isSome then .ok tenants
    else .error .notFound

/- The effect of a statement, for request `i`. -/
def Desk.execute
    (s : Desk)
    (i : Nat) :
    Statement → Desk
| .write w => s.perform (some i) w
| _ => s

/- What a handler sees of its statement. -/
def Outcome.seen
    (res : Except TenantError (Table Tenant)) :
    Outcome → Except TenantError (Table Tenant)
| .done => res
| _ => .error .failed

def Desk.setPhase
    (s : Desk)
    (i : Nat)
    (call : Call)
    (phase : Phase) :
    Desk :=
  { s with calls := s.calls.set i { call with phase := phase } }

namespace Desk

def statement
    (cfg : Config)
    (i : Nat)
    (fresh : Fresh)
    (outcome : Outcome)
    (s : Desk) :
    Option Desk :=
  match s.calls[i]? with
  | none => none
  | some call =>
      match call.phase with
      | .answered _ => none
      | phase =>
          match phase.statement cfg fresh with
          | none =>
              some
                (s.setPhase i call
                  (phase.resume cfg fresh (.error .failed)))
          | some stmt =>
              let s' :=
                if outcome = .failed then s
                else s.execute i stmt
              some
                (s'.setPhase i call
                  (phase.resume cfg fresh
                    (outcome.seen (stmt.result s.tenants))))

def step (cfg : Config) : Label → Desk → Option Desk
| .request hdr r, s =>
    let phase :=
      match adminAuth cfg s.adminTokenHash hdr with
      | some answer => .answered answer
      | none => r.start
    some { s with calls := s.calls ++ [⟨r, phase⟩] }
| .statement i fresh outcome, s =>
    s.statement cfg i fresh outcome
| .command c fresh outcome, s =>
    match c.write cfg fresh with
    | .error _ => some s
    | .ok w =>
        if outcome = .failed then some s
        else some (s.perform none w)

end Desk

/-
  A database whose migrations have run: the tenant that has
  the public key is disabled.
-/
structure Migrated
    (cfg : Config)
    (tenants : Table Tenant) : Prop where
  usable : ∀ t ∈ tenants.rows, t.Usable
  rate : ∀ t ∈ tenants.rows, 0 ≤ t.rateLimit
  oneTenantPerKey : OneTenantPerKey tenants
  devDisabled :
    ∀ t ∈ tenants.rows, t.apiKeyHash = cfg.digest devToken →
      t.id = devTenantId ∧ t.status = .disabled

/- `SLUICE_ADMIN_TOKEN` is not set, or long enough. -/
def desk (cfg : Config) : Machine Desk Label where
  init := fun s =>
    (s.adminTokenHash = none ∨
      ∃ token hash, enableAdmin cfg token = .ok hash ∧
        s.adminTokenHash = some hash) ∧
    Migrated cfg s.tenants ∧
      s.start = s.tenants ∧ s.calls = [] ∧ s.log = []
  step := Desk.step cfg

end Admin

end Api

end Sluice
