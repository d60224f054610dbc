import Sluice.Job.StoredPayload
import Sluice.Job.Template

/-
  The template that was validated and the template that is
  fired.

  A schedule's template is validated as the client wrote it
  and stored in a JSONB column; `fireSchedule` decodes what
  the column gives back and builds a job from it.

  Key definitions include:
    * `TemplateDoc` and `unmarshalTemplate`
    * `TemplateDoc.build` and `validateTemplate`
    * `TemplateAccepted`

  Key theorems include:
    * `TemplateDoc.exists_build_iff`
    * `validateTemplate_object_iff`
    * `validateTemplate_stored_iff`
-/

------------------------------------------------------------
-- Templates
------------------------------------------------------------

namespace Sluice

open Foundations

/- A template whose payload is a document. -/
structure TemplateDoc where
  type : String
  payload : Option Json
  priority : Option Int
  maxRetries : Option Int
  backoffSeconds : Option Int

inductive TemplateField
| type
| payload
| priority
| maxRetries
| backoffSeconds
deriving DecidableEq, Repr

namespace TemplateField

/- The names in the tags of the struct. -/
def name : TemplateField → String
| .type => "type"
| .payload => "payload"
| .priority => "priority"
| .maxRetries => "max_retries"
| .backoffSeconds => "backoff_seconds"

def all : List TemplateField :=
  [.type, .payload, .priority, .maxRetries,
    .backoffSeconds]

/- The field that a member's key is taken for. -/
def ofKey? (key : String) : Option TemplateField :=
  all.find? (fun f => spells f.name key)

end TemplateField

namespace TemplateDoc

def zero : TemplateDoc where
  type := ""
  payload := none
  priority := none
  maxRetries := none
  backoffSeconds := none

/- Decode one member; a key that names no field is skipped. -/
def assign
    (d : TemplateDoc)
    (m : String × Json) :
    Except String TemplateDoc :=
  match TemplateField.ofKey? m.1 with
  | none => .ok d
  | some .type =>
      (decodeString "Template.type" d.type m.2).map
        (fun type => { d with type := type })
  | some .payload => .ok { d with payload := some m.2 }
  | some .priority =>
      (decodeIntPtr 16 "Template.priority" "int16" m.2).map
        (fun n => { d with priority := n })
  | some .maxRetries =>
      (decodeIntPtr 64 "Template.max_retries" "int"
        m.2).map
        (fun n => { d with maxRetries := n })
  | some .backoffSeconds =>
      (decodeIntPtr 64 "Template.backoff_seconds" "int"
        m.2).map
        (fun n => { d with backoffSeconds := n })

/- `text` is the raw message that contains the payload. -/
def template (d : TemplateDoc) (text : String) : Template where
  type := d.type
  payload := text
  priority := d.priority
  maxRetries := d.maxRetries
  backoffSeconds := d.backoffSeconds

/- `Template.Build`, which validates the payload's document. -/
def build
    (U : UrlParser)
    (d : TemplateDoc)
    (text : String)
    (tenantId id : Uuid)
    (now : Time) :
    Except String Job :=
  (d.template text).build
    (fun _ => validateWebhookPayload U d.payload) tenantId
    id now

end TemplateDoc

/- `json.Unmarshal` of a document into a template. -/
def unmarshalTemplate : Json → Except String TemplateDoc
| .null => .ok TemplateDoc.zero
| .object members =>
    members.foldlM TemplateDoc.assign TemplateDoc.zero
| v =>
    .error
      ("json: cannot unmarshal " ++ v.kind ++
        " into Go value of type job.Template")

/- What the schedule handlers check of a `job_template`. -/
def validateTemplate
    (U : UrlParser)
    (text : String)
    (tenantId id : Uuid)
    (now : Time)
    (raw : Json) :
    Except String Unit :=
  match unmarshalTemplate raw with
  | .error _ => .error "invalid job_template"
  | .ok d =>
      match d.build U text tenantId id now with
      | .error e => .error ("invalid job_template: " ++ e)
      | .ok _ => .ok ()

------------------------------------------------------------
-- What Is Accepted
------------------------------------------------------------

namespace TemplateField

/- What the decoder accepts for a field. -/
def Readable : TemplateField → Json → Prop
| .type, v => v.Stringlike
| .payload, _ => True
| .priority, v => v.Intlike 16
| .maxRetries, v => v.Intlike 64
| .backoffSeconds, v => v.Intlike 64

variable {f : TemplateField}
variable {U : UrlParser}

theorem Readable.jsonb
    {v : Json}
    (hRead : f.Readable v) :
    f.Readable v.jsonb := by
  cases f with
  | type => exact Json.Stringlike.jsonb hRead
  | payload => trivial
  | priority => exact Json.Intlike.jsonb hRead
  | maxRetries => exact Json.Intlike.jsonb hRead
  | backoffSeconds => exact Json.Intlike.jsonb hRead

/- The keys that are taken for a field. -/
def named (f : TemplateField) (key : String) : Bool :=
  ofKey? key = some f

theorem named_eq_iff
    {f g : TemplateField}
    {key : String}
    (hf : named f key = true) :
    named g key = true ↔ f = g := by
  unfold named at hf ⊢
  rw [decide_eq_true_eq] at hf ⊢
  rw [hf, Option.some.injEq]

/- The member can be decoded, whatever it is taken for. -/
def MemberReadable (m : String × Json) : Prop :=
  ∀ f, ofKey? m.1 = some f → Readable f m.2

/-
  What `Job.validate` checks of the last value of a field, or
  of its default; the type is treated apart.
-/
def Accepts
    (U : UrlParser) :
    TemplateField → Option Json → Prop
| .type, _ => True
| .payload, v => validateWebhookPayload U v = .ok ()
| .priority, v =>
    priorityHigh ≤ (v.bind (Json.int? 16)).getD
        priorityNormal ∧
      (v.bind (Json.int? 16)).getD priorityNormal ≤
        priorityLow
| .maxRetries, v =>
    0 ≤ (v.bind (Json.int? 64)).getD defaultMaxRetries ∧
      (v.bind (Json.int? 64)).getD defaultMaxRetries ≤
        maxMaxRetries
| .backoffSeconds, v =>
    1 ≤ (v.bind (Json.int? 64)).getD
        defaultBackoffSeconds ∧
      (v.bind (Json.int? 64)).getD defaultBackoffSeconds ≤
        maxBackoffSeconds

/- Absent fields have acceptable defaults, but the payload. -/
theorem accepts_none
    (hOther : f ≠ .payload) :
    f.Accepts U none := by
  cases f with
  | type => trivial
  | payload => exact absurd rfl hOther
  | priority =>
      exact (by decide :
        priorityHigh ≤ priorityNormal ∧
          priorityNormal ≤ priorityLow)
  | maxRetries =>
      exact (by decide :
        0 ≤ defaultMaxRetries ∧
          defaultMaxRetries ≤ maxMaxRetries)
  | backoffSeconds =>
      exact (by decide :
        1 ≤ defaultBackoffSeconds ∧
          defaultBackoffSeconds ≤ maxBackoffSeconds)

theorem accepts_null
    (hOther : f ≠ .payload) :
    f.Accepts U (some .null) := by
  cases f with
  | type => trivial
  | payload => exact absurd rfl hOther
  | priority =>
      exact accepts_none (U := U) (f := .priority) hOther
  | maxRetries =>
      exact accepts_none (U := U) (f := .maxRetries) hOther
  | backoffSeconds =>
      exact accepts_none (U := U) (f := .backoffSeconds)
        hOther

/- JSONB changes no number that can be decoded. -/
theorem accepts_jsonb_iff
    {v : Option Json}
    (hOther : f ≠ .payload)
    (hReadable : ∀ doc, v = some doc → f.Readable doc) :
    f.Accepts U (v.map Json.jsonb) ↔ f.Accepts U v := by
  cases v with
  | none => rfl
  | some doc =>
      have hDoc := hReadable doc rfl
      cases f with
      | type => rfl
      | payload => exact absurd rfl hOther
      | priority | maxRetries | backoffSeconds =>
          simp only [Accepts, Option.map_some,
            Option.bind_some]
          rw [Json.Intlike.int?_jsonb hDoc]

end TemplateField

/- The checks that building a job makes. -/
theorem Job.validate_eq_ok_iff
    {check : String → Except String Unit}
    {j : Job} :
    j.validate check = .ok () ↔
      (priorityHigh ≤ j.priority ∧
          j.priority ≤ priorityLow) ∧
        (0 ≤ j.maxRetries ∧
          j.maxRetries ≤ maxMaxRetries) ∧
        (1 ≤ j.backoffSeconds ∧
          j.backoffSeconds ≤ maxBackoffSeconds) ∧
        j.type = "webhook" ∧ check j.payload = .ok () := by
  constructor
  · intro hValid
    rcases Job.limits_of_validate hValid with
      ⟨hPriority, hRetries, hBackoff⟩
    refine ⟨hPriority, hRetries, hBackoff, ?_⟩
    unfold Job.validate at hValid
    rw [if_neg (by omega), if_neg (by omega),
      if_neg (by omega)] at hValid
    split at hValid
    · cases hValid
    · split at hValid
      · rename_i hType
        exact ⟨hType, hValid⟩
      · cases hValid
  · rintro ⟨hPriority, hRetries, hBackoff, hType, hCheck⟩
    have hSome : j.type ≠ "" := by
      rw [hType]
      decide
    unfold Job.validate
    rw [if_neg (by omega), if_neg (by omega),
      if_neg (by omega), if_neg hSome, if_pos hType]
    exact hCheck

/- Whether a job can be built depends on the template only. -/
theorem TemplateDoc.exists_build_iff
    {U : UrlParser}
    {d : TemplateDoc}
    {text : String}
    {tenantId id : Uuid}
    {now : Time} :
    (∃ j, d.build U text tenantId id now = .ok j) ↔
      (priorityHigh ≤ d.priority.getD priorityNormal ∧
          d.priority.getD priorityNormal ≤ priorityLow) ∧
        (0 ≤ d.maxRetries.getD defaultMaxRetries ∧
          d.maxRetries.getD defaultMaxRetries ≤
            maxMaxRetries) ∧
        (1 ≤ d.backoffSeconds.getD defaultBackoffSeconds ∧
          d.backoffSeconds.getD defaultBackoffSeconds ≤
            maxBackoffSeconds) ∧
        d.type = "webhook" ∧
          validateWebhookPayload U d.payload = .ok () := by
  constructor
  · rintro ⟨j, hBuild⟩
    rcases Template.build_eq_ok hBuild with ⟨rfl, hValid⟩
    exact Job.validate_eq_ok_iff.mp hValid
  · intro hChecks
    have hValid :
        ((d.template text).job tenantId id now).validate
            (fun _ => validateWebhookPayload U d.payload) =
          .ok () :=
      Job.validate_eq_ok_iff.mpr hChecks
    unfold TemplateDoc.build Template.build
    rw [hValid]
    exact ⟨_, rfl⟩

open TemplateField Members

/- The checks on the members of a template. -/
def TemplateAccepted
    (U : UrlParser)
    (ms : List (String × Json)) :
    Prop :=
  latest (named .type) Json.string? ms =
      some "webhook" ∧
    ∀ f : TemplateField, f ≠ .type →
      f.Accepts U (latest (named f) some ms)

------------------------------------------------------------
-- Decoded And Stored Templates
------------------------------------------------------------

open Foundations Members TemplateField

namespace TemplateDoc

theorem exists_assign_iff
    (d : TemplateDoc)
    (m : String × Json) :
    (∃ d', d.assign m = .ok d') ↔ MemberReadable m := by
  unfold assign MemberReadable
  cases hField : ofKey? m.1 with
  | none => simp
  | some f =>
      simp only [Option.some.injEq, forall_eq']
      cases f with
      | type =>
          rw [exists_map_eq_ok_iff, exists_decodeString_iff]
          rfl
      | payload => simp [Readable]
      | priority =>
          rw [exists_map_eq_ok_iff, exists_decodeIntPtr_iff]
          rfl
      | maxRetries =>
          rw [exists_map_eq_ok_iff, exists_decodeIntPtr_iff]
          rfl
      | backoffSeconds =>
          rw [exists_map_eq_ok_iff, exists_decodeIntPtr_iff]
          rfl

/- What a member does to a template. -/
theorem assign_eq_ok
    {d d' : TemplateDoc}
    {m : String × Json}
    (hAssign : d.assign m = .ok d') :
    d'.type =
        (if named .type m.1 then m.2.string?
          else none).getD d.type ∧
      d'.payload =
          (if named .payload m.1 then some (some m.2)
            else none).getD d.payload ∧
        d'.priority =
            (if named .priority m.1 then
              some (m.2.int? 16)
              else none).getD d.priority ∧
          d'.maxRetries =
              (if named .maxRetries m.1 then
                some (m.2.int? 64)
                else none).getD d.maxRetries ∧
            d'.backoffSeconds =
              (if named .backoffSeconds m.1 then
                some (m.2.int? 64)
                else none).getD d.backoffSeconds := by
  unfold assign at hAssign
  unfold named
  cases hField : ofKey? m.1 with
  | none =>
      rw [hField] at hAssign
      cases hAssign
      simp
  | some f =>
      rw [hField] at hAssign
      cases f with
      | type =>
          rcases map_eq_ok_iff.mp hAssign with
            ⟨type, hDecode, rfl⟩
          have hType :=
            (decodeString_eq_ok_iff.mp hDecode).2
          simp [hType]
      | payload =>
          cases hAssign
          simp
      | priority | maxRetries | backoffSeconds =>
          rcases map_eq_ok_iff.mp hAssign with
            ⟨n, hDecode, rfl⟩
          have hValue :=
            (decodeIntPtr_eq_ok_iff.mp hDecode).2
          simp [hValue]

end TemplateDoc

/- Where every member counts, the last value is converted. -/
theorem latest_map_some
    {A : Type}
    {p : String → Bool}
    (convert : Json → A)
    (ms : List (String × Json)) :
    latest p (fun v => some (convert v)) ms =
      (latest p some ms).map convert := by
  unfold latest
  rw [← List.getLast?_map, List.map_filterMap]
  congr 1
  apply List.filterMap_congr
  intro m _
  cases p m.1 <;> rfl

/- A field that every matching member overwrites. -/
theorem latest_overwritten
    {A : Type}
    {p : String → Bool}
    {select : Json → Option A}
    (ms : List (String × Json)) :
    (latest p (fun v => some (select v)) ms).getD none =
      (latest p some ms).bind select := by
  rw [latest_map_some]
  cases latest p some ms with
  | none => rfl
  | some v => rfl

section Validate

variable {U : UrlParser}
variable {text : String}
variable {tenantId id : Uuid}
variable {now : Time}
variable {ms : List (String × Json)}

theorem validateTemplate_eq_ok_iff
    {raw : Json} :
    validateTemplate U text tenantId id now raw = .ok () ↔
      ∃ d j, unmarshalTemplate raw = .ok d ∧
        d.build U text tenantId id now = .ok j := by
  unfold validateTemplate
  cases hDecode : unmarshalTemplate raw with
  | error e => simp
  | ok d =>
      cases hBuild : d.build U text tenantId id now with
      | error e => simp [hBuild]
      | ok j => simp [hBuild]

/- Each field is that of its last matching member. -/
theorem unmarshalTemplate_eq_ok
    {d : TemplateDoc}
    (hDecode : unmarshalTemplate (.object ms) = .ok d) :
    d.type =
        (latest (named .type) Json.string? ms).getD "" ∧
      d.payload = latest (named .payload) some ms ∧
      d.priority =
        (latest (named .priority) some ms).bind
          (Json.int? 16) ∧
      d.maxRetries =
        (latest (named .maxRetries) some ms).bind
          (Json.int? 64) ∧
      d.backoffSeconds =
        (latest (named .backoffSeconds) some ms).bind
          (Json.int? 64) := by
  refine ⟨?_, ?_, ?_, ?_, ?_⟩
  · exact foldlM_get
      (fun r m r' h =>
        (TemplateDoc.assign_eq_ok (m := m) h).1)
      hDecode
  · rw [← Option.bind_fun_some (latest _ some ms),
      ← latest_overwritten]
    exact foldlM_get
      (fun r m r' h =>
        (TemplateDoc.assign_eq_ok (m := m) h).2.1)
      hDecode
  · rw [← latest_overwritten]
    exact foldlM_get
      (fun r m r' h =>
        (TemplateDoc.assign_eq_ok (m := m) h).2.2.1)
      hDecode
  · rw [← latest_overwritten]
    exact foldlM_get
      (fun r m r' h =>
        (TemplateDoc.assign_eq_ok (m := m) h).2.2.2.1)
      hDecode
  · rw [← latest_overwritten]
    exact foldlM_get
      (fun r m r' h =>
        (TemplateDoc.assign_eq_ok (m := m) h).2.2.2.2)
      hDecode

/- What is decoded is built if its members are accepted. -/
theorem exists_build_of_unmarshal_iff
    {d : TemplateDoc}
    (hDecode : unmarshalTemplate (.object ms) = .ok d) :
    (∃ j, d.build U text tenantId id now = .ok j) ↔
      TemplateAccepted U ms := by
  rcases unmarshalTemplate_eq_ok hDecode with
    ⟨hType, hPayload, hPriority, hRetries, hBackoff⟩
  rw [TemplateDoc.exists_build_iff, hType, hPayload,
    hPriority, hRetries, hBackoff]
  constructor
  · rintro ⟨hPriority, hRetries, hBackoff, hType, hPayload⟩
    refine ⟨?_, ?_⟩
    · cases hLatest :
          latest (named .type) Json.string? ms with
      | none =>
          rw [hLatest] at hType
          exact absurd hType (by decide)
      | some type =>
          rw [hLatest] at hType
          exact congrArg some hType
    · intro f hOther
      cases f with
      | type => exact absurd rfl hOther
      | payload => exact hPayload
      | priority => exact hPriority
      | maxRetries => exact hRetries
      | backoffSeconds => exact hBackoff
  · rintro ⟨hType, hAccepts⟩
    refine ⟨hAccepts .priority (by decide),
      hAccepts .maxRetries (by decide),
      hAccepts .backoffSeconds (by decide), ?_,
      hAccepts .payload (by decide)⟩
    rw [hType]
    rfl

/- A template is accepted by its members' last values. -/
theorem validateTemplate_object_iff :
    validateTemplate U text tenantId id now (.object ms) =
        .ok () ↔
      (∀ m ∈ ms, MemberReadable m) ∧
        TemplateAccepted U ms := by
  have hReadable :
      (∃ d, unmarshalTemplate (.object ms) = .ok d) ↔
        ∀ m ∈ ms, MemberReadable m :=
    foldlM_isOk_iff TemplateDoc.exists_assign_iff
  rw [← hReadable, validateTemplate_eq_ok_iff]
  constructor
  · rintro ⟨d, j, hDecode, hBuild⟩
    exact ⟨⟨d, hDecode⟩,
      (exists_build_of_unmarshal_iff hDecode).mp
        ⟨j, hBuild⟩⟩
  · rintro ⟨⟨d, hDecode⟩, hAccepted⟩
    rcases (exists_build_of_unmarshal_iff hDecode).mpr
        hAccepted with
      ⟨j, hBuild⟩
    exact ⟨d, j, hDecode, hBuild⟩

/- Only objects are accepted. -/
theorem exists_object_of_validateTemplate
    {raw : Json}
    (hValid :
      validateTemplate U text tenantId id now raw =
        .ok ()) :
    ∃ ms, raw = .object ms := by
  rcases validateTemplate_eq_ok_iff.mp hValid with
    ⟨d, j, hDecode, hBuild⟩
  cases raw with
  | object ms => exact ⟨ms, rfl⟩
  | null =>
      cases hDecode
      have hChecks :=
        TemplateDoc.exists_build_iff.mp ⟨j, hBuild⟩
      exact absurd hChecks.2.2.2.1 (by decide)
  | bool b => cases hDecode
  | number n => cases hDecode
  | string s => cases hDecode
  | array elements => cases hDecode

end Validate

section Stored

variable {U : UrlParser}
variable {text : String}
variable {tenantId id : Uuid}
variable {now : Time}
variable {ms : List (String × Json)}

/- A readable template, as the column gives it back. -/
theorem validateTemplate_stored_iff
    (hReadable : ∀ m ∈ ms, MemberReadable m) :
    validateTemplate U text tenantId id now
          (Json.object ms).jsonb =
        .ok () ↔
      latest (named .type) Json.string?
            (canonical jsonbRank ms) =
          some "webhook" ∧
        ∀ f : TemplateField, f ≠ .type →
          f.Accepts U
            ((latest (named f) some
              (canonical jsonbRank ms)).map Json.jsonb) := by
  have hStored :
      ∀ m ∈ Json.stored ms, MemberReadable m := by
    intro m hm f hField
    rcases Json.exists_mem_of_mem_stored hm with
      ⟨old, hOld, rfl⟩
    exact (hReadable old hOld f hField).jsonb
  have hType :
      latest (named .type) Json.string? (Json.stored ms) =
        latest (named .type) Json.string?
          (canonical jsonbRank ms) := by
    apply Json.latest_stored
    intro m hm hNamed
    exact Json.Stringlike.string?_jsonb
      (hReadable m hm .type (of_decide_eq_true hNamed))
  have hValue :
      ∀ f, latest (named f) some (Json.stored ms) =
        (latest (named f) some
          (canonical jsonbRank ms)).map Json.jsonb := by
    intro f
    rw [← latest_map_some]
    apply Json.latest_stored
    intro m _ _
    rfl
  rw [Json.jsonb_object, validateTemplate_object_iff,
    and_iff_right hStored]
  unfold TemplateAccepted
  rw [hType]
  simp only [hValue]

end Stored

end Sluice
