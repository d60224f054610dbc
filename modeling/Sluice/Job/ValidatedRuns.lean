import Sluice.Job.StoredTemplate

/-
  What was validated is what runs: for which documents.

  Which member counts depends on the keys only, so the
  documents are taken by their keys. For keys that are out of
  order there is a document that is accepted and whose stored
  form is not; for keys in order there is none.

  Key definitions include:
    * `PayloadKept`
    * `TemplateKept`
    * `TemplateOrdered`
    * `TemplateUsable`
    * `TemplateDiverges`

  Key theorems include:
    * `payloadKept_iff`
    * `exists_diverging_template`
    * `templateKept_iff`
    * `validated_runs_iff_ordered`
-/

------------------------------------------------------------
-- Template Keys
------------------------------------------------------------

namespace Sluice

open Foundations Members TemplateField

/- The keys of a document, if it is an object. -/
def Json.HasKeys (keys : List String) (v : Json) : Prop :=
  ∀ ms, v = .object ms → ms.map Prod.fst = keys

/-
  A payload with these keys, once accepted, is executed as a
  payload that passes the same checks.
-/
def PayloadKept (U : UrlParser) (keys : List String) : Prop :=
  ∀ (d : TemplateDoc) (text : String)
    (tenantId id : Uuid) (now : Time) (j : Job),
    (∀ v, d.payload = some v → v.HasKeys keys) →
      d.build U text tenantId id now = .ok j →
        ∃ v p, d.payload = some v ∧
          unmarshalWebhook v.jsonb = .ok p ∧
            p.check U = .ok ()

/-
  A template with these keys, once accepted, yields a job
  whenever it is read back.
-/
def TemplateKept
    (U : UrlParser)
    (keys payloadKeys : List String) :
    Prop :=
  ∀ (raw : Json) (text : String)
    (tenantId id : Uuid) (now : Time),
    raw.HasKeys keys →
      (∀ ms, raw = .object ms →
        ∀ m ∈ ms, named .payload m.1 = true →
          m.2.HasKeys payloadKeys) →
        validateTemplate U text tenantId id now raw =
            .ok () →
          ∀ (text' : String) (id' : Uuid) (now' : Time),
            ∃ d j, unmarshalTemplate raw.jsonb = .ok d ∧
              d.build U text' tenantId id' now' = .ok j

/-
  The conditions on the keys of a template. A `null` does not
  overwrite the type, but it does overwrite all other fields.
-/
def TemplateOrdered (keys : List String) : Prop :=
  InOrder jsonbRank (keys.filter (named .type)) ∧
    ∀ f : TemplateField, f ≠ .type →
      GreatestLast jsonbRank (keys.filter (named f))

section Ordered

variable {U : UrlParser}
variable {keys payloadKeys : List String}
variable {ms : List (String × Json)}

/- Only objects are accepted as payloads. -/
theorem exists_object_of_validatePayload
    {v : Option Json}
    (hValid : validateWebhookPayload U v = .ok ()) :
    ∃ ms, v = some (.object ms) := by
  rcases validateWebhookPayload_eq_ok_iff.mp hValid with
    ⟨doc, p, rfl, hDecode, hCheck⟩
  cases doc with
  | object ms => exact ⟨ms, rfl⟩
  | null =>
      cases hDecode
      have hUrl :=
        (WebhookPayload.check_eq_ok_iff.mp hCheck).1
      exact absurd hUrl
        (by simp [WebhookPayload.zero, U.not_absolute_empty])
  | bool b => cases hDecode
  | number n => cases hDecode
  | string s => cases hDecode
  | array elements => cases hDecode

/- A payload with ordered keys is stored as a valid one. -/
theorem validate_jsonb_of_ordered
    {v : Option Json}
    (hKeys : ∀ doc, v = some doc → doc.HasKeys payloadKeys)
    (hOrdered :
      (∃ key ∈ payloadKeys,
          WebhookField.named .url key = true) →
        PayloadOrdered payloadKeys)
    (hValid : validateWebhookPayload U v = .ok ()) :
    validateWebhookPayload U (v.map Json.jsonb) =
      .ok () := by
  rcases exists_object_of_validatePayload hValid with
    ⟨ms, rfl⟩
  exact
    stored_valid_iff_ordered.mpr hOrdered ms
      (hKeys _ rfl ms rfl) hValid

/- A template of nothing but a payload. -/
def webhookDoc (payload : Json) : TemplateDoc where
  type := "webhook"
  payload := some payload
  priority := none
  maxRetries := none
  backoffSeconds := none

theorem payloadKept_iff :
    PayloadKept U keys ↔
      ((∃ key ∈ keys, WebhookField.named .url key = true) →
        PayloadOrdered keys) := by
  constructor
  · intro hKept
    apply (stored_valid_iff_ordered (U := U)).mp
    intro ms hFst hValid
    have hBuild :
        ∃ j, (webhookDoc (.object ms)).build U "" 0 0 0 =
          .ok j :=
      TemplateDoc.exists_build_iff.mpr
        ⟨accepts_none (U := U) (f := .priority) (by decide),
          accepts_none (U := U) (f := .maxRetries)
            (by decide),
          accepts_none (U := U) (f := .backoffSeconds)
            (by decide),
          rfl, hValid⟩
    rcases hBuild with ⟨j, hBuild⟩
    have hKeys :
        ∀ v, (webhookDoc (.object ms)).payload = some v →
          v.HasKeys keys := by
      rintro v hPayload ms' rfl
      cases hPayload
      exact hFst
    rcases hKept _ "" 0 0 0 j hKeys hBuild with
      ⟨v, p, hPayload, hDecode, hCheck⟩
    cases hPayload
    exact validateWebhookPayload_eq_ok_iff.mpr
      ⟨_, p, rfl, hDecode, hCheck⟩
  · intro hOrdered d text tenantId id now j hKeys hBuild
    have hChecks :=
      TemplateDoc.exists_build_iff.mp ⟨j, hBuild⟩
    rcases hChecks with ⟨_, _, _, _, hValid⟩
    have hStored :=
      validate_jsonb_of_ordered hKeys hOrdered hValid
    rcases validateWebhookPayload_eq_ok_iff.mp hStored with
      ⟨doc, p, hDoc, hDecode, hCheck⟩
    rcases Option.map_eq_some_iff.mp hDoc with
      ⟨v, hPayload, rfl⟩
    exact ⟨v, p, hPayload, hDecode, hCheck⟩

/- In order, a valid template is stored as a valid one. -/
theorem validateTemplate_jsonb_of_ordered
    {text text' : String}
    {tenantId id id' : Uuid}
    {now now' : Time}
    (hFst : ms.map Prod.fst = keys)
    (hPayloads :
      ∀ m ∈ ms, named .payload m.1 = true →
        m.2.HasKeys payloadKeys)
    (hOrdered : TemplateOrdered keys)
    (hPayloadKeys :
      (∃ key ∈ payloadKeys,
          WebhookField.named .url key = true) →
        PayloadOrdered payloadKeys)
    (hValid :
      validateTemplate U text tenantId id now (.object ms) =
        .ok ()) :
    validateTemplate U text' tenantId id' now'
        (Json.object ms).jsonb =
      .ok () := by
  rcases validateTemplate_object_iff.mp hValid with
    ⟨hReadable, hType, hAccepts⟩
  subst hFst
  apply (validateTemplate_stored_iff hReadable).mpr
  refine ⟨?_, ?_⟩
  · rw [latest_canonical_of_inOrder jsonbRank_injective
      hOrdered.1]
    exact hType
  · intro f hOther
    rw [latest_canonical_of_greatestLast jsonbRank_injective
      (hOrdered.2 f hOther)]
    have hValue := hAccepts f hOther
    by_cases hPayload : f = .payload
    · subst hPayload
      apply validate_jsonb_of_ordered _ hPayloadKeys hValue
      intro doc hDoc
      rcases exists_mem_of_latest hDoc with
        ⟨m, hm, hNamed, hSelect⟩
      cases hSelect
      exact hPayloads m hm hNamed
    · apply (accepts_jsonb_iff hPayload _).mpr hValue
      intro doc hDoc
      rcases exists_mem_of_latest hDoc with
        ⟨m, hm, hNamed, hSelect⟩
      cases hSelect
      exact hReadable m hm f (of_decide_eq_true hNamed)

end Ordered

------------------------------------------------------------
-- Diverging Templates
------------------------------------------------------------

section Diverging

variable {U : UrlParser}
variable {keys payloadKeys : List String}
variable {payload : Json}

/-
  A template that is accepted, and is not when it is read
  back.
-/
def TemplateDiverges
    (U : UrlParser)
    (payloadKeys : List String)
    (ms : List (String × Json)) :
    Prop :=
  (∀ m ∈ ms, named .payload m.1 = true →
      m.2.HasKeys payloadKeys) ∧
    validateTemplate U "" 0 0 0 (.object ms) = .ok () ∧
      validateTemplate U "" 0 0 0 (Json.object ms).jsonb ≠
        .ok ()

/- The values of members that are not under attack. -/
def templateFiller
    (payload : Json)
    (key : String) :
    Json :=
  if named .type key then .string "webhook"
  else if named .payload key then payload
  else .null

/- The same, where the type is under attack. -/
def untypedFiller
    (payload : Json)
    (key : String) :
    Json :=
  if named .payload key then payload else .null

variable {key : String}
variable {f : TemplateField}

theorem templateFiller_of_type
    (hNamed : named .type key = true) :
    templateFiller payload key = .string "webhook" := by
  unfold templateFiller
  rw [if_pos hNamed]

/- Without a type the two fillers agree. -/
theorem templateFiller_of_ne_type
    (hOther : f ≠ .type)
    (hNamed : named f key = true) :
    templateFiller payload key =
      untypedFiller payload key := by
  unfold templateFiller untypedFiller
  rw [if_neg]
  intro hType
  exact hOther
    ((TemplateField.named_eq_iff hNamed).mp hType)

theorem untypedFiller_of_payload
    (hNamed : named .payload key = true) :
    untypedFiller payload key = payload := by
  unfold untypedFiller
  rw [if_pos hNamed]

theorem untypedFiller_of_ne_payload
    (hOther : f ≠ .payload)
    (hNamed : named f key = true) :
    untypedFiller payload key = .null := by
  unfold untypedFiller
  rw [if_neg]
  intro hPayload
  exact hOther
    ((TemplateField.named_eq_iff hNamed).mp hPayload)

theorem readable_null_template
    (f : TemplateField) :
    f.Readable .null := by
  cases f with
  | type => exact .inl rfl
  | payload => trivial
  | priority => exact .inl rfl
  | maxRetries => exact .inl rfl
  | backoffSeconds => exact .inl rfl

theorem readable_untypedFiller
    (hNamed : named f key = true) :
    f.Readable (untypedFiller payload key) := by
  by_cases hPayload : f = .payload
  · subst hPayload
    trivial
  · rw [untypedFiller_of_ne_payload hPayload hNamed]
    exact readable_null_template f

/- What is filled in is accepted, if the payload is. -/
theorem accepts_untypedFiller
    (hValid :
      validateWebhookPayload U (some payload) = .ok ())
    (hNamed : named f key = true) :
    f.Accepts U (some (untypedFiller payload key)) := by
  by_cases hPayload : f = .payload
  · subst hPayload
    rw [untypedFiller_of_payload hNamed]
    exact hValid
  · rw [untypedFiller_of_ne_payload hPayload hNamed]
    exact accepts_null hPayload

/- Fields whose members are all filled in are accepted. -/
theorem accepts_of_filled
    {ms : List (String × Json)}
    (hValid :
      validateWebhookPayload U (some payload) = .ok ())
    (hPayload : ∃ m ∈ ms, named .payload m.1 = true)
    (hFilled :
      ∀ m ∈ ms, named f m.1 = true →
        m.2 = untypedFiller payload m.1) :
    f.Accepts U (latest (named f) some ms) := by
  cases hLatest : latest (named f) some ms with
  | none =>
      apply accepts_none
      rintro rfl
      rcases hPayload with ⟨m, hm, hNamed⟩
      have hSome :
          latest (named .payload) some ms =
            some payload := by
        apply latest_eq_of_forall ⟨m, hm, hNamed⟩
        intro m' hm' hNamed'
        rw [hFilled m' hm' hNamed',
          untypedFiller_of_payload hNamed']
      rw [hLatest] at hSome
      cases hSome
  | some v =>
      rcases exists_mem_of_latest hLatest with
        ⟨m, hm, hNamed, hSelect⟩
      cases hSelect
      rw [hFilled m hm hNamed]
      exact accepts_untypedFiller hValid hNamed

/- All fields but `f` are filled in, and `f` is accepted. -/
theorem templateAccepted_of_filled
    {ms : List (String × Json)}
    (hOther : f ≠ .type)
    (hValid :
      validateWebhookPayload U (some payload) = .ok ())
    (hType : ∃ m ∈ ms, named .type m.1 = true)
    (hPayload : ∃ m ∈ ms, named .payload m.1 = true)
    (hFilled :
      ∀ m ∈ ms, ¬named f m.1 = true →
        m.2 = templateFiller payload m.1)
    (hField : f.Accepts U (latest (named f) some ms)) :
    TemplateAccepted U ms := by
  have hApart :
      ∀ g, f ≠ g → ∀ m ∈ ms, named g m.1 = true →
        m.2 = templateFiller payload m.1 := by
    intro g hNe m hm hNamed
    apply hFilled m hm
    intro hf
    exact hNe ((TemplateField.named_eq_iff hf).mp hNamed)
  refine ⟨?_, ?_⟩
  · apply latest_eq_of_forall hType
    intro m hm hNamed
    rw [hApart .type hOther m hm hNamed,
      templateFiller_of_type hNamed]
    rfl
  · intro g hg
    by_cases hSame : f = g
    · subst hSame
      exact hField
    · apply accepts_of_filled hValid hPayload
      intro m hm hNamed
      rw [hApart g hSame m hm hNamed]
      exact templateFiller_of_ne_type hg hNamed

theorem readable_templateFiller
    (hNamed : named f key = true) :
    f.Readable (templateFiller payload key) := by
  by_cases hType : f = .type
  · subst hType
    rw [templateFiller_of_type hNamed]
    exact .inr ⟨_, rfl⟩
  · rw [templateFiller_of_ne_type hType hNamed]
    exact readable_untypedFiller hNamed

/- The payloads of a template that is filled in. -/
theorem hasKeys_untypedFiller
    (hKeys : payload.HasKeys payloadKeys)
    (hNamed : named .payload key = true) :
    (untypedFiller payload key).HasKeys payloadKeys := by
  rw [untypedFiller_of_payload hNamed]
  exact hKeys

/- A value that is refused for a field. -/
def TemplateField.refused : TemplateField → Json
| .type => .string ""
| .payload => .null
| .priority => .number ⟨99, 0, none⟩
| .maxRetries => .number ⟨101, 0, none⟩
| .backoffSeconds => .number ⟨0, 0, none⟩

theorem readable_refused
    (f : TemplateField) :
    f.Readable f.refused := by
  cases f with
  | type => exact .inr ⟨"", rfl⟩
  | payload => trivial
  | priority => exact .inr ⟨99, by decide⟩
  | maxRetries => exact .inr ⟨101, by decide⟩
  | backoffSeconds => exact .inr ⟨0, by decide⟩

theorem not_accepts_refused
    (hOther : f ≠ .type) :
    ¬f.Accepts U (some f.refused) := by
  intro hAccepts
  cases f with
  | type => exact hOther rfl
  | payload =>
      rcases exists_object_of_validatePayload hAccepts with
        ⟨ms, hNull⟩
      cases hNull
  | priority =>
      exact absurd hAccepts.2 (by decide)
  | maxRetries =>
      exact absurd hAccepts.2 (by decide)
  | backoffSeconds =>
      exact absurd hAccepts.1 (by decide)

/- A refused value is refused when it is read back. -/
theorem not_accepts_refused_jsonb
    (hOther : f ≠ .type) :
    ¬f.Accepts U (some f.refused.jsonb) := by
  by_cases hPayload : f = .payload
  · subst hPayload
    have hNull :
        (TemplateField.refused .payload).jsonb = .null := by
      simp [refused, Json.jsonb]
    rw [hNull]
    exact not_accepts_refused hOther
  · intro hAccepts
    apply not_accepts_refused (U := U) hOther
    apply (accepts_jsonb_iff hPayload _).mp hAccepts
    intro doc hDoc
    cases hDoc
    exact readable_refused f

/- Some field other than the type is overtaken. -/
theorem exists_diverging_field
    (hOther : f ≠ .type)
    (hPayloadKeys : payload.HasKeys payloadKeys)
    (hValid :
      validateWebhookPayload U (some payload) = .ok ())
    (hType : ∃ key ∈ keys, named .type key = true)
    (hPayload : ∃ key ∈ keys, named .payload key = true)
    (hKeys :
      ¬GreatestLast jsonbRank (keys.filter (named f))) :
    ∃ ms, ms.map Prod.fst = keys ∧
      TemplateDiverges U payloadKeys ms := by
  rcases exists_changed_of_not_greatestLast
      jsonbRank_injective (templateFiller payload) f.refused
      hKeys with
    ⟨ms, hFst, hFilled, ⟨key, hKey, hBefore⟩, hAfter⟩
  have hReadable : ∀ m ∈ ms, MemberReadable m := by
    intro m hm g hField
    have hNamed : named g m.1 = true :=
      decide_eq_true hField
    rcases hFilled m hm with hFill | ⟨hf, hRefused⟩
    · rw [hFill]
      exact readable_templateFiller hNamed
    · have hSame :=
        (TemplateField.named_eq_iff hf).mp hNamed
      subst hSame
      rw [hRefused]
      exact readable_refused f
  refine ⟨ms, hFst, ?_, ?_, ?_⟩
  · intro m hm hNamed
    rcases hFilled m hm with hFill | ⟨hf, hRefused⟩
    · rw [hFill, templateFiller_of_ne_type (by decide)
        hNamed]
      exact hasKeys_untypedFiller hPayloadKeys hNamed
    · have hSame :=
        (TemplateField.named_eq_iff hf).mp hNamed
      subst hSame
      rw [hRefused]
      intro ms' hNull
      cases hNull
  · apply validateTemplate_object_iff.mpr
    refine ⟨hReadable, ?_⟩
    rw [← hFst] at hType hPayload
    apply templateAccepted_of_filled hOther hValid
    · exact exists_mem_of_exists_key hType
    · exact exists_mem_of_exists_key hPayload
    · intro m hm hNamed
      rcases hFilled m hm with hFill | ⟨hf, _⟩
      · exact hFill
      · exact absurd hf hNamed
    · rw [hBefore, templateFiller_of_ne_type hOther hKey]
      exact accepts_untypedFiller hValid hKey
  · intro hStored
    have hAccepts :=
      ((validateTemplate_stored_iff hReadable).mp
        hStored).2 f hOther
    rw [hAfter] at hAccepts
    exact not_accepts_refused_jsonb hOther hAccepts

/- The type is overtaken. -/
theorem exists_diverging_type
    (hPayloadKeys : payload.HasKeys payloadKeys)
    (hValid :
      validateWebhookPayload U (some payload) = .ok ())
    (hPayload : ∃ key ∈ keys, named .payload key = true)
    (hKeys :
      ¬InOrder jsonbRank (keys.filter (named .type))) :
    ∃ ms, ms.map Prod.fst = keys ∧
      TemplateDiverges U payloadKeys ms := by
  have hFiller :
      ∀ key, named .type key = true →
        Json.string? (untypedFiller payload key) = none := by
    intro key hNamed
    rw [untypedFiller_of_ne_payload (by decide) hNamed]
    rfl
  have hGood :
      Json.string? (.string "webhook") = some "webhook" :=
    rfl
  have hBad : Json.string? (.string "") = some "" := rfl
  rcases exists_changed_of_not_inOrder jsonbRank_injective
      (untypedFiller payload) hFiller hGood hBad hKeys with
    ⟨ms, hFst, hFilled, hBefore, hAfter⟩
  have hApart :
      ∀ g, g ≠ .type → ∀ m ∈ ms, named g m.1 = true →
        m.2 = untypedFiller payload m.1 := by
    intro g hOther m hm hNamed
    rcases hFilled m hm with hFill | ⟨hType, _⟩
    · exact hFill
    · exact absurd
        ((TemplateField.named_eq_iff hNamed).mp hType) hOther
  have hReadable : ∀ m ∈ ms, MemberReadable m := by
    intro m hm g hField
    have hNamed : named g m.1 = true :=
      decide_eq_true hField
    rcases hFilled m hm with hFill | ⟨hType, hValue⟩
    · rw [hFill]
      exact readable_untypedFiller hNamed
    · have hSame :=
        (TemplateField.named_eq_iff hType).mp hNamed
      subst hSame
      rcases hValue with hValue | hValue
      · rw [hValue]
        exact .inr ⟨_, rfl⟩
      · rw [hValue]
        exact .inr ⟨_, rfl⟩
  refine ⟨ms, hFst, ?_, ?_, ?_⟩
  · intro m hm hNamed
    rw [hApart .payload (by decide) m hm hNamed]
    exact hasKeys_untypedFiller hPayloadKeys hNamed
  · apply validateTemplate_object_iff.mpr
    refine ⟨hReadable, hBefore, ?_⟩
    intro f hOther
    rw [← hFst] at hPayload
    exact accepts_of_filled hValid
      (exists_mem_of_exists_key hPayload)
      (hApart f hOther)
  · intro hStored
    have hType :=
      ((validateTemplate_stored_iff hReadable).mp
        hStored).1
    rcases hAfter with hNone | hEmpty
    · rw [hNone] at hType
      cases hType
    · rw [hEmpty] at hType
      exact absurd hType (by decide)

/- The template is in order, and the payload is not. -/
theorem exists_diverging_template_payload
    {pms : List (String × Json)}
    (hFst : pms.map Prod.fst = payloadKeys)
    (hDiverges : Diverges U pms)
    (hType : ∃ key ∈ keys, named .type key = true)
    (hPayload : ∃ key ∈ keys, named .payload key = true) :
    ∃ ms, ms.map Prod.fst = keys ∧
      TemplateDiverges U payloadKeys ms := by
  have hFilled :
      ∀ m ∈ fill (templateFiller (.object pms)) keys,
        m.2 = templateFiller (.object pms) m.1 := by
    intro m hm
    exact (mem_fill_iff.mp hm).2
  have hReadable :
      ∀ m ∈ fill (templateFiller (.object pms)) keys,
        MemberReadable m := by
    intro m hm g hField
    rw [hFilled m hm]
    exact readable_templateFiller (decide_eq_true hField)
  have hObject :
      ∀ m ∈ fill (templateFiller (.object pms)) keys,
        named .payload m.1 = true → m.2 = .object pms := by
    intro m hm hNamed
    rw [hFilled m hm,
      templateFiller_of_ne_type (by decide) hNamed,
      untypedFiller_of_payload hNamed]
  rw [← map_fst_fill (templateFiller (.object pms)) keys]
    at hType hPayload
  have hPayloadMem := exists_mem_of_exists_key hPayload
  refine ⟨fill (templateFiller (.object pms)) keys,
    map_fst_fill _ _, ?_, ?_, ?_⟩
  · intro m hm hNamed ms' hValue
    rw [hObject m hm hNamed] at hValue
    cases hValue
    exact hFst
  · apply validateTemplate_object_iff.mpr
    refine ⟨hReadable, ?_⟩
    apply templateAccepted_of_filled (f := .payload)
      (by decide) hDiverges.1
      (exists_mem_of_exists_key hType) hPayloadMem
    · intro m hm _
      exact hFilled m hm
    · have hLatest :
          latest (named .payload) some
              (fill (templateFiller (.object pms)) keys) =
            some (.object pms) := by
        apply latest_eq_of_forall hPayloadMem
        intro m hm hNamed
        rw [hObject m hm hNamed]
      rw [hLatest]
      exact hDiverges.1
  · intro hStored
    have hAccepts :=
      ((validateTemplate_stored_iff hReadable).mp
        hStored).2 .payload (by decide)
    have hLatest :
        latest (named .payload) some
            (canonical jsonbRank
              (fill (templateFiller (.object pms)) keys)) =
          some (.object pms) := by
      rcases hPayloadMem with ⟨m, hm, hNamed⟩
      rcases exists_mem_canonical jsonbRank_injective hm with
        ⟨m', hm', hSame⟩
      apply latest_eq_of_forall
        ⟨m', hm', by rw [hSame]; exact hNamed⟩
      intro m hm hNamed
      rw [hObject m
        (mem_of_mem_canonical jsonbRank_injective hm)
        hNamed]
    rw [hLatest] at hAccepts
    exact hDiverges.2 hAccepts

/- Templates of these keys can be accepted at all. -/
def TemplateUsable
    (keys payloadKeys : List String) :
    Prop :=
  (∃ key ∈ keys, named .type key = true) ∧
    (∃ key ∈ keys, named .payload key = true) ∧
      ∃ key ∈ payloadKeys,
        WebhookField.named .url key = true

theorem exists_diverging_template
    (hUsable : TemplateUsable keys payloadKeys)
    (hKeys :
      ¬(TemplateOrdered keys ∧
        PayloadOrdered payloadKeys)) :
    ∃ ms, ms.map Prod.fst = keys ∧
      TemplateDiverges U payloadKeys ms := by
  rcases hUsable with ⟨hType, hPayload, hUrl⟩
  have hValid :
      validateWebhookPayload U
          (some (.object (fill payloadFiller payloadKeys))) =
        .ok () :=
    validate_fill hUrl
  have hPayloadKeys :
      (Json.object
        (fill payloadFiller payloadKeys)).HasKeys
          payloadKeys := by
    intro ms hObject
    cases hObject
    exact map_fst_fill _ _
  by_cases hPayloadOrdered : PayloadOrdered payloadKeys
  · by_cases hTypeOrdered :
        InOrder jsonbRank (keys.filter (named .type))
    · have hField :
          ∃ f : TemplateField, f ≠ .type ∧
            ¬GreatestLast jsonbRank
              (keys.filter (named f)) := by
        by_contra hNone
        push Not at hNone
        exact hKeys ⟨⟨hTypeOrdered, hNone⟩, hPayloadOrdered⟩
      rcases hField with ⟨f, hOther, hOvertaken⟩
      exact exists_diverging_field hOther hPayloadKeys
        hValid hType hPayload hOvertaken
    · exact exists_diverging_type hPayloadKeys hValid
        hPayload hTypeOrdered
  · rcases exists_diverging_of_not_ordered hUrl
        hPayloadOrdered with
      ⟨pms, hFst, hDiverges⟩
    exact exists_diverging_template_payload hFst hDiverges
      hType hPayload

end Diverging

------------------------------------------------------------
-- Validated Is What Runs
------------------------------------------------------------

variable {U : UrlParser}
variable {keys payloadKeys : List String}

/- An accepted template names its type, payload and URL. -/
theorem templateUsable_of_valid
    {text : String}
    {tenantId id : Uuid}
    {now : Time}
    {ms : List (String × Json)}
    (hFst : ms.map Prod.fst = keys)
    (hPayloads :
      ∀ m ∈ ms, named .payload m.1 = true →
        m.2.HasKeys payloadKeys)
    (hValid :
      validateTemplate U text tenantId id now (.object ms) =
        .ok ()) :
    TemplateUsable keys payloadKeys := by
  rcases validateTemplate_object_iff.mp hValid with
    ⟨_, hType, hAccepts⟩
  have hPayload := hAccepts .payload (by decide)
  rcases exists_object_of_validatePayload hPayload with
    ⟨pms, hObject⟩
  rw [hObject] at hPayload
  rcases exists_mem_of_latest hType with
    ⟨m, hm, hNamed, _⟩
  rcases exists_mem_of_latest hObject with
    ⟨m', hm', hNamed', hSelect⟩
  have hPayloadFst :=
    hPayloads m' hm' hNamed' pms (Option.some.inj hSelect)
  subst hFst
  exact ⟨⟨m.1, List.mem_map_of_mem hm, hNamed⟩,
    ⟨m'.1, List.mem_map_of_mem hm', hNamed'⟩,
    exists_url_of_valid hPayloadFst hPayload⟩

theorem templateKept_iff :
    TemplateKept U keys payloadKeys ↔
      (TemplateUsable keys payloadKeys →
        TemplateOrdered keys ∧
          PayloadOrdered payloadKeys) := by
  constructor
  · intro hKept hUsable
    by_contra hKeys
    rcases exists_diverging_template (U := U) hUsable
        hKeys with
      ⟨ms, hFst, hPayloads, hValid, hInvalid⟩
    apply hInvalid
    apply validateTemplate_eq_ok_iff.mpr
    apply hKept (.object ms) "" 0 0 0 _ _ hValid
    · intro ms' hObject
      cases hObject
      exact hFst
    · intro ms' hObject
      cases hObject
      exact hPayloads
  · intro hOrdered raw text tenantId id now hFst hPayloads
      hValid text' id' now'
    rcases exists_object_of_validateTemplate hValid with
      ⟨ms, rfl⟩
    have hUsable :=
      templateUsable_of_valid (hFst ms rfl)
        (hPayloads ms rfl) hValid
    rcases hOrdered hUsable with ⟨hKeys, hPayloadKeys⟩
    apply validateTemplate_eq_ok_iff.mp
    exact validateTemplate_jsonb_of_ordered (hFst ms rfl)
      (hPayloads ms rfl) hKeys (fun _ => hPayloadKeys)
      hValid

/-
  For which keys what was validated is what runs: exactly
  when storing does not change which member of a field is
  the one that counts. A single document that was validated
  passes again exactly when the members that are last once
  they are stored pass.
-/
theorem validated_runs_iff_ordered
    (U : UrlParser) :
    (∀ keys,
      PayloadKept U keys ↔
        ((∃ key ∈ keys,
            WebhookField.named .url key = true) →
          PayloadOrdered keys)) ∧
      (∀ keys payloadKeys,
        TemplateKept U keys payloadKeys ↔
          (TemplateUsable keys payloadKeys →
            TemplateOrdered keys ∧
              PayloadOrdered payloadKeys)) ∧
        (∀ ms,
          validateWebhookPayload U (some (.object ms)) =
              .ok () →
            (validateWebhookPayload U
                  (some (Json.object ms).jsonb) =
                .ok () ↔
              (PayloadFields.read
                (canonical jsonbRank ms)).Accepted U)) ∧
          ∀ ms text tenantId id now,
            validateTemplate U text tenantId id now
                  (.object ms) =
                .ok () →
              (validateTemplate U text tenantId id now
                    (Json.object ms).jsonb =
                  .ok () ↔
                latest (named .type) Json.string?
                      (canonical jsonbRank ms) =
                    some "webhook" ∧
                  ∀ f : TemplateField, f ≠ .type →
                    f.Accepts U
                      ((latest (named f) some
                        (canonical jsonbRank ms)).map
                          Json.jsonb)) := by
  refine ⟨fun _ => payloadKept_iff,
    fun _ _ => templateKept_iff, ?_, ?_⟩
  · intro ms hValid
    exact validate_stored_iff (validate_object_iff.mp hValid).1
  · intro ms text tenantId id now hValid
    exact validateTemplate_stored_iff
      (validateTemplate_object_iff.mp hValid).1

/- A payload with two members for its URL. -/
def twoUrls : Json :=
  .object
    [("url", .string "ftp://internal"),
      ("URL", .string "http://host")]

/- A template with two members for its priority. -/
def twoPriorities : Json :=
  .object
    [("type", .string "webhook"),
      ("payload", .object [("url", .string "http://host")]),
      ("priority", .number ⟨99, 0, none⟩),
      ("PRIORITY", .number ⟨1, 0, none⟩)]

/-
  Validation reads the last member. JSONB puts upper case
  first, so that the other one is executed, or keeps the
  schedule from being fired.
-/
theorem validated_is_not_what_runs :
    ((webhookDoc twoUrls).build UrlParser.plain "" 0 0
        0).toOption.isSome = true ∧
      (unmarshalWebhook twoUrls.jsonb).toOption.any
          (fun p =>
            p.url = "ftp://internal" &&
              (p.check UrlParser.plain).toOption.isNone) =
        true ∧
      validateTemplate UrlParser.plain "" 0 0 0
          twoPriorities =
        .ok () ∧
      (unmarshalTemplate twoPriorities.jsonb).toOption.any
          (fun d =>
            (d.build UrlParser.plain "" 0 0
              0).toOption.isNone) =
        true := by
  decide +kernel

end Sluice
