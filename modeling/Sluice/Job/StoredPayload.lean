import Sluice.Foundations.LastWins
import Sluice.Job.Webhook

/-
  The payload that was validated and the payload that runs.

  A payload is validated as the client wrote it and executed
  as its JSONB column gives it back. The two readings differ
  where several members are taken for one field, because the
  column drops repeated keys and reorders the others.

  Texts are left out: a raw message is the document that it
  contains.

  Key definitions include:
    * `PayloadFields.read` and `PayloadFields.Accepted`
    * `PayloadOrdered`
    * `Diverges`

  Key theorems include:
    * `validate_object_iff` and `validate_stored_iff`
    * `exists_diverging_of_not_ordered`
    * `stored_valid_iff_ordered`
-/

------------------------------------------------------------
-- Scalars
------------------------------------------------------------

namespace Sluice

open Foundations

namespace Json

def string? : Json → Option String
| .string s => some s
| _ => none

/- The value of a field of type `int`. -/
def seconds? (v : Json) : Option Int64 :=
  (v.int? 64).map Int64.ofInt

/- What a field of type `string` can take. -/
def Stringlike (v : Json) : Prop :=
  v = .null ∨ ∃ s, v = .string s

/- What a field of an integer type can take. -/
def Intlike (bits : Nat) (v : Json) : Prop :=
  v = .null ∨ ∃ n, v.int? bits = some n

variable {v : Json}

theorem Stringlike.jsonb
    (hString : v.Stringlike) :
    v.jsonb.Stringlike := by
  rcases hString with rfl | ⟨s, rfl⟩
  · exact .inl (by simp [Json.jsonb])
  · exact .inr ⟨s, by simp [Json.jsonb]⟩

theorem Stringlike.string?_jsonb
    (hString : v.Stringlike) :
    v.jsonb.string? = v.string? := by
  rcases hString with rfl | ⟨s, rfl⟩
  · simp [Json.jsonb]
  · simp [Json.jsonb]

theorem Intlike.jsonb
    {bits : Nat}
    (hInt : v.Intlike bits) :
    v.jsonb.Intlike bits := by
  rcases hInt with rfl | ⟨n, hInt⟩
  · exact .inl (by simp [Json.jsonb])
  · exact .inr ⟨n, int?_jsonb hInt⟩

theorem Intlike.int?_jsonb
    {bits : Nat}
    (hInt : v.Intlike bits) :
    v.jsonb.int? bits = v.int? bits := by
  rcases hInt with rfl | ⟨n, hInt⟩
  · simp [Json.jsonb]
  · rw [hInt, Json.int?_jsonb hInt]

end Json

theorem decodeString_eq_ok_iff
    {field old s : String}
    {v : Json} :
    decodeString field old v = .ok s ↔
      v.Stringlike ∧ s = v.string?.getD old := by
  cases v <;>
    simp [decodeString, typeError, Json.Stringlike,
      Json.string?, eq_comm]

variable {field : String}
variable {U : UrlParser}
variable {ms : List (String × Json)}

theorem decodeInt_eq_ok_iff
    {old s : Int64}
    {v : Json} :
    decodeInt field old v = .ok s ↔
      v.Intlike 64 ∧ s = v.seconds?.getD old := by
  cases v with
  | number n =>
      cases hInt : (Json.number n).int? 64 <;>
        simp [decodeInt, typeError, Json.Intlike,
          Json.seconds?, hInt, eq_comm]
  | null =>
      simp [decodeInt, Json.Intlike, Json.seconds?,
        Json.int?, eq_comm]
  | bool | string | array | object =>
      simp [decodeInt, typeError, Json.Intlike, Json.int?]

theorem decodeIntPtr_eq_ok_iff
    {bits : Nat}
    {field type : String}
    {o : Option Int}
    {v : Json} :
    decodeIntPtr bits field type v = .ok o ↔
      v.Intlike bits ∧ o = v.int? bits := by
  cases v with
  | number n =>
      cases hInt : (Json.number n).int? bits <;>
        simp [decodeIntPtr, typeError, Json.Intlike, hInt,
          eq_comm]
  | null =>
      simp [decodeIntPtr, Json.Intlike, Json.int?, eq_comm]
  | bool | string | array | object =>
      simp [decodeIntPtr, typeError, Json.Intlike,
        Json.int?]

------------------------------------------------------------
-- Decoded Payloads
------------------------------------------------------------

/- What a field of type `map[string]string` can take. -/
def Json.Maplike (v : Json) : Prop :=
  v = .null ∨
    ∃ ms, v = .object ms ∧ ∀ m ∈ ms, m.2.Stringlike

theorem exists_decodeStringMap_iff
    {old : List (String × String)}
    {v : Json} :
    (∃ map, decodeStringMap field old v = .ok map) ↔
      v.Maplike := by
  cases v with
  | null => simp [decodeStringMap, Json.Maplike]
  | object ms =>
      have hRead :
          ∀ (map : List (String × String))
            (m : String × Json),
            (∃ map',
              (do
                let s ← decodeString field "" m.2
                return Members.put id (m.1, s) map) =
                (.ok map' :
                  Except String
                    (List (String × String)))) ↔
              m.2.Stringlike := by
        intro map m
        constructor
        · rintro ⟨map', hOk⟩
          cases hDecode : decodeString field "" m.2 with
          | error e =>
              rw [hDecode] at hOk
              cases hOk
          | ok s =>
              exact (decodeString_eq_ok_iff.mp hDecode).1
        · intro hString
          have hDecode :
              decodeString field "" m.2 =
                .ok (m.2.string?.getD "") :=
            decodeString_eq_ok_iff.mpr ⟨hString, rfl⟩
          rw [hDecode]
          exact ⟨_, rfl⟩
      simp only [decodeStringMap]
      rw [Members.foldlM_isOk_iff hRead]
      simp [Json.Maplike]
  | bool b => simp [decodeStringMap, typeError, Json.Maplike]
  | number n =>
      simp [decodeStringMap, typeError, Json.Maplike]
  | string s =>
      simp [decodeStringMap, typeError, Json.Maplike]
  | array elements =>
      simp [decodeStringMap, typeError, Json.Maplike]

theorem Json.Maplike.jsonb
    {v : Json}
    (hMap : v.Maplike) :
    v.jsonb.Maplike := by
  rcases hMap with rfl | ⟨ms, rfl, hStrings⟩
  · exact .inl (by simp [Json.jsonb])
  · right
    refine ⟨_, Json.jsonb_object ms, ?_⟩
    intro m hm
    have hMem :=
      Members.mem_of_mem_canonical jsonbRank_injective hm
    rcases List.mem_map.mp hMem with ⟨old, hOld, rfl⟩
    exact (hStrings old hOld).jsonb

namespace WebhookField

/- What the decoder accepts for a field. -/
def Readable : WebhookField → Json → Prop
| .url, v => v.Stringlike
| .method, v => v.Stringlike
| .headers, v => v.Maplike
| .body, _ => True
| .timeoutSeconds, v => v.Intlike 64

theorem Readable.jsonb
    {f : WebhookField}
    {v : Json}
    (hRead : f.Readable v) :
    f.Readable v.jsonb := by
  cases f with
  | url => exact Json.Stringlike.jsonb hRead
  | method => exact Json.Stringlike.jsonb hRead
  | headers => exact Json.Maplike.jsonb hRead
  | body => trivial
  | timeoutSeconds => exact Json.Intlike.jsonb hRead

/- The keys that are taken for a field. -/
def named (f : WebhookField) (key : String) : Bool :=
  ofKey? key = some f

/- The member can be decoded, whatever it is taken for. -/
def MemberReadable (m : String × Json) : Prop :=
  ∀ f, ofKey? m.1 = some f → Readable f m.2

end WebhookField

/- A decoded value is put into the record without an error. -/
theorem map_eq_ok_iff
    {A B : Type}
    {x : Except String A}
    {g : A → B}
    {b : B} :
    x.map g = .ok b ↔ ∃ a, x = .ok a ∧ g a = b := by
  cases x with
  | error e => simp [Except.map]
  | ok a => simp [Except.map]

theorem exists_map_eq_ok_iff
    {A B : Type}
    {x : Except String A}
    {g : A → B} :
    (∃ b, x.map g = .ok b) ↔ ∃ a, x = .ok a := by
  simp [map_eq_ok_iff]

theorem exists_decodeString_iff
    {field old : String}
    {v : Json} :
    (∃ s, decodeString field old v = .ok s) ↔
      v.Stringlike := by
  simp [decodeString_eq_ok_iff]

theorem exists_decodeInt_iff
    {old : Int64}
    {v : Json} :
    (∃ s, decodeInt field old v = .ok s) ↔
      v.Intlike 64 := by
  simp [decodeInt_eq_ok_iff]

theorem exists_decodeIntPtr_iff
    {bits : Nat}
    {field type : String}
    {v : Json} :
    (∃ o, decodeIntPtr bits field type v = .ok o) ↔
      v.Intlike bits := by
  simp [decodeIntPtr_eq_ok_iff]

namespace WebhookPayload

open WebhookField

theorem exists_assign_iff
    (p : WebhookPayload)
    (m : String × Json) :
    (∃ p', p.assign m = .ok p') ↔ MemberReadable m := by
  unfold assign MemberReadable
  cases hField : ofKey? m.1 with
  | none => simp
  | some f =>
      simp only [Option.some.injEq, forall_eq']
      cases f with
      | url =>
          rw [exists_map_eq_ok_iff, exists_decodeString_iff]
          rfl
      | method =>
          rw [exists_map_eq_ok_iff, exists_decodeString_iff]
          rfl
      | headers =>
          rw [exists_map_eq_ok_iff,
            exists_decodeStringMap_iff]
          rfl
      | body => simp [Readable]
      | timeoutSeconds =>
          rw [exists_map_eq_ok_iff, exists_decodeInt_iff]
          rfl

/- What a member does to the fields that are checked. -/
theorem assign_eq_ok
    {p p' : WebhookPayload}
    {m : String × Json}
    (hAssign : p.assign m = .ok p') :
    p'.url =
        (if named .url m.1 then m.2.string?
          else none).getD p.url ∧
      p'.method =
          (if named .method m.1 then m.2.string?
            else none).getD p.method ∧
        p'.timeoutSeconds =
          (if named .timeoutSeconds m.1 then m.2.seconds?
            else none).getD p.timeoutSeconds := by
  unfold assign at hAssign
  unfold named
  cases hField : ofKey? m.1 with
  | none =>
      rw [hField] at hAssign
      cases hAssign
      simp
  | some f =>
      rw [hField] at hAssign
      cases f with
      | url =>
          rcases map_eq_ok_iff.mp hAssign with
            ⟨url, hDecode, rfl⟩
          have hUrl := (decodeString_eq_ok_iff.mp hDecode).2
          simp [hUrl]
      | method =>
          rcases map_eq_ok_iff.mp hAssign with
            ⟨method, hDecode, rfl⟩
          have hMethod :=
            (decodeString_eq_ok_iff.mp hDecode).2
          simp [hMethod]
      | headers =>
          rcases map_eq_ok_iff.mp hAssign with
            ⟨headers, _, rfl⟩
          simp
      | body =>
          cases hAssign
          simp
      | timeoutSeconds =>
          rcases map_eq_ok_iff.mp hAssign with
            ⟨seconds, hDecode, rfl⟩
          have hSeconds :=
            (decodeInt_eq_ok_iff.mp hDecode).2
          simp [hSeconds]

end WebhookPayload

/- The fields of a payload, read from the members. -/
structure PayloadFields where
  url : Option String
  method : Option String
  seconds : Option Int64

namespace PayloadFields

open WebhookField Members

def read (ms : List (String × Json)) : PayloadFields where
  url := latest (named .url) Json.string? ms
  method := latest (named .method) Json.string? ms
  seconds := latest (named .timeoutSeconds) Json.seconds? ms

/- The checks, with the defaults of absent fields. -/
def Accepted
    (U : UrlParser)
    (fields : PayloadFields) :
    Prop :=
  U.absolute (fields.url.getD "") = true ∧
    timeoutAllowed (fields.seconds.getD 0) = true ∧
      fields.method.getD "" ∈ webhookMethods

end PayloadFields

open WebhookField in
/- A payload is accepted by its readable members' last values. -/
theorem validate_object_iff
    {ms : List (String × Json)} :
    validateWebhookPayload U (some (.object ms)) = .ok () ↔
      (∀ m ∈ ms, MemberReadable m) ∧
        (PayloadFields.read ms).Accepted U := by
  have hReadable :
      (∃ p, unmarshalWebhook (.object ms) = .ok p) ↔
        ∀ m ∈ ms, MemberReadable m :=
    Members.foldlM_isOk_iff WebhookPayload.exists_assign_iff
  have hChecks :
      ∀ p, unmarshalWebhook (.object ms) = .ok p →
        (p.check U = .ok () ↔
          (PayloadFields.read ms).Accepted U) := by
    intro p hDecode
    have hUrl :=
      Members.foldlM_get
        (fun r m r' h =>
          (WebhookPayload.assign_eq_ok (m := m) h).1)
        hDecode
    have hMethod :=
      Members.foldlM_get
        (fun r m r' h =>
          (WebhookPayload.assign_eq_ok (m := m) h).2.1)
        hDecode
    have hSeconds :=
      Members.foldlM_get
        (fun r m r' h =>
          (WebhookPayload.assign_eq_ok (m := m) h).2.2)
        hDecode
    rw [WebhookPayload.check_eq_ok_iff, hUrl, hMethod,
      hSeconds]
    rfl
  rw [← hReadable, validateWebhookPayload_eq_ok_iff]
  constructor
  · rintro ⟨doc, p, hDoc, hDecode, hCheck⟩
    cases hDoc
    exact ⟨⟨p, hDecode⟩, (hChecks p hDecode).mp hCheck⟩
  · rintro ⟨⟨p, hDecode⟩, hAccepted⟩
    exact ⟨_, p, rfl, hDecode,
      (hChecks p hDecode).mpr hAccepted⟩

------------------------------------------------------------
-- Stored Payloads
------------------------------------------------------------

open Foundations Members

namespace Json

variable {ms : List (String × Json)}

theorem stored_eq_map
    (ms : List (String × Json)) :
    stored ms =
      (canonical jsonbRank ms).map
        (fun m => (m.1, m.2.jsonb)) :=
  canonical_map jsonb ms

/- Reading a stored object, up to what JSONB does to values. -/
theorem latest_stored
    {A : Type}
    {p : String → Bool}
    {select select' : Json → Option A}
    (hValues :
      ∀ m ∈ ms, p m.1 = true →
        select m.2.jsonb = select' m.2) :
    latest p select (stored ms) =
      latest p select' (canonical jsonbRank ms) := by
  unfold latest
  rw [stored_eq_map, List.filterMap_map]
  congr 1
  apply List.filterMap_congr
  intro m hm
  have hMem := mem_of_mem_canonical jsonbRank_injective hm
  simp only [Function.comp_apply]
  split
  · rename_i hp
    exact hValues m hMem hp
  · rfl

theorem exists_mem_of_mem_stored
    {m : String × Json}
    (hMem : m ∈ stored ms) :
    ∃ old ∈ ms, m = (old.1, old.2.jsonb) := by
  have hMap := mem_of_mem_canonical jsonbRank_injective hMem
  rcases List.mem_map.mp hMap with ⟨old, hOld, rfl⟩
  exact ⟨old, hOld, rfl⟩

end Json

open WebhookField

theorem PayloadFields.read_stored
    (hReadable : ∀ m ∈ ms, MemberReadable m) :
    PayloadFields.read (Json.stored ms) =
      PayloadFields.read (canonical jsonbRank ms) := by
  have hField :
      ∀ f, ∀ m ∈ ms, named f m.1 = true →
        f.Readable m.2 := by
    intro f m hm hNamed
    exact hReadable m hm f (of_decide_eq_true hNamed)
  unfold PayloadFields.read
  congr 1
  · apply Json.latest_stored
    intro m hm hNamed
    exact Json.Stringlike.string?_jsonb
      (hField .url m hm hNamed)
  · apply Json.latest_stored
    intro m hm hNamed
    exact Json.Stringlike.string?_jsonb
      (hField .method m hm hNamed)
  · apply Json.latest_stored
    intro m hm hNamed
    unfold Json.seconds?
    rw [Json.Intlike.int?_jsonb
      (hField .timeoutSeconds m hm hNamed)]

/- The stored payload of one that could be decoded. -/
theorem validate_stored_iff
    (hReadable : ∀ m ∈ ms, MemberReadable m) :
    validateWebhookPayload U (some (Json.object ms).jsonb) =
        .ok () ↔
      (PayloadFields.read
        (canonical jsonbRank ms)).Accepted U := by
  rw [Json.jsonb_object, validate_object_iff,
    PayloadFields.read_stored hReadable]
  apply and_iff_right
  intro m hm f hField
  rcases Json.exists_mem_of_mem_stored hm with
    ⟨old, hOld, rfl⟩
  exact (hReadable old hOld f hField).jsonb

------------------------------------------------------------
-- Payload Keys
------------------------------------------------------------

/-
  The conditions on the keys of a payload, per field. A `null`
  does not overwrite a string or a number. A missing URL is
  refused, while a missing method or timeout is not.
-/
def PayloadOrdered (keys : List String) : Prop :=
  InOrder jsonbRank (keys.filter (named .url)) ∧
    EndsInOrder jsonbRank (keys.filter (named .method)) ∧
      EndsInOrder jsonbRank
        (keys.filter (named .timeoutSeconds))

/- In order, a valid payload is stored as a valid one. -/
theorem accepted_canonical_of_ordered
    (hOrdered : PayloadOrdered (ms.map Prod.fst))
    (hAccepted : (PayloadFields.read ms).Accepted U) :
    (PayloadFields.read
      (canonical jsonbRank ms)).Accepted U := by
  rcases hOrdered with ⟨hUrl, hMethod, hSeconds⟩
  rcases hAccepted with ⟨hAbsolute, hAllowed, hKnown⟩
  refine ⟨?_, ?_, ?_⟩
  · have hSame :
        latest (named .url) Json.string?
            (canonical jsonbRank ms) =
          latest (named .url) Json.string? ms :=
      latest_canonical_of_inOrder jsonbRank_injective hUrl
    unfold PayloadFields.read
    rw [hSame]
    exact hAbsolute
  · have hCases :
        latest (named .timeoutSeconds) Json.seconds?
              (canonical jsonbRank ms) = none ∨
          latest (named .timeoutSeconds) Json.seconds?
              (canonical jsonbRank ms) =
            latest (named .timeoutSeconds) Json.seconds?
              ms :=
      latest_canonical_of_endsInOrder jsonbRank_injective
        hSeconds
    unfold PayloadFields.read
    rcases hCases with hNone | hSame
    · rw [hNone]
      exact (by decide : timeoutAllowed 0 = true)
    · rw [hSame]
      exact hAllowed
  · have hCases :
        latest (named .method) Json.string?
              (canonical jsonbRank ms) = none ∨
          latest (named .method) Json.string?
              (canonical jsonbRank ms) =
            latest (named .method) Json.string? ms :=
      latest_canonical_of_endsInOrder jsonbRank_injective
        hMethod
    unfold PayloadFields.read
    rcases hCases with hNone | hSame
    · rw [hNone]
      exact (by decide : "" ∈ webhookMethods)
    · rw [hSame]
      exact hKnown

/- The values of members that are not under attack. -/
def payloadFiller (key : String) : Json :=
  if named .url key then .string "http://host" else .null

/-
  A payload that is accepted, and whose stored form is not.
-/
def Diverges
    (U : UrlParser)
    (ms : List (String × Json)) :
    Prop :=
  validateWebhookPayload U (some (.object ms)) = .ok () ∧
    validateWebhookPayload U (some (Json.object ms).jsonb) ≠
      .ok ()

theorem named_eq_iff
    {f g : WebhookField}
    {key : String}
    (hf : named f key = true) :
    named g key = true ↔ f = g := by
  unfold named at hf ⊢
  rw [decide_eq_true_eq] at hf ⊢
  rw [hf, Option.some.injEq]

section Filled

/-
  Members that are filled in, except that some of the field
  `f` have one of two values of their own.
-/
variable {f : WebhookField}
variable {filler : String → Json}
variable {good bad : Json}
variable {ms ms' : List (String × Json)}

def FilledBut
    (f : WebhookField)
    (filler : String → Json)
    (good bad : Json)
    (ms : List (String × Json)) :
    Prop :=
  ∀ m ∈ ms,
    m.2 = filler m.1 ∨
      (named f m.1 = true ∧ (m.2 = good ∨ m.2 = bad))

theorem FilledBut.value_eq
    (hFilled : FilledBut f filler good bad ms)
    {g : WebhookField}
    (hOther : f ≠ g)
    {m : String × Json}
    (hMem : m ∈ ms)
    (hNamed : named g m.1 = true) :
    m.2 = filler m.1 := by
  rcases hFilled m hMem with hFill | ⟨hf, _⟩
  · exact hFill
  · exact absurd ((named_eq_iff hf).mp hNamed) hOther

theorem FilledBut.readable
    (hFilled : FilledBut f filler good bad ms)
    (hFiller : ∀ g key, named g key = true →
      g.Readable (filler key))
    (hGood : f.Readable good)
    (hBad : f.Readable bad) :
    ∀ m ∈ ms, MemberReadable m := by
  intro m hm g hField
  have hNamed : named g m.1 = true :=
    decide_eq_true hField
  rcases hFilled m hm with hFill | ⟨hf, hValue⟩
  · rw [hFill]
    exact hFiller g m.1 hNamed
  · have hSame := (named_eq_iff hf).mp hNamed
    subst hSame
    rcases hValue with hValue | hValue
    · rw [hValue]
      exact hGood
    · rw [hValue]
      exact hBad

theorem FilledBut.canonical
    (hFilled : FilledBut f filler good bad ms) :
    FilledBut f filler good bad
      (canonical jsonbRank ms) :=
  fun m hm =>
    hFilled m (mem_of_mem_canonical jsonbRank_injective hm)

/- A field that is filled in with `null` is not there. -/
theorem FilledBut.latest_eq_none
    {A : Type}
    {g : WebhookField}
    {select : Json → Option A}
    (hFilled : FilledBut f filler good bad ms)
    (hOther : f ≠ g)
    (hNull :
      ∀ key, named g key = true →
        select (filler key) = none) :
    latest (named g) select ms = none := by
  apply Members.latest_eq_none
  intro m hm hNamed
  rw [hFilled.value_eq hOther hm hNamed]
  exact hNull m.1 hNamed

/- The URL is the one that is filled in. -/
theorem FilledBut.latest_url
    (hFilled : FilledBut f payloadFiller good bad ms)
    (hOther : f ≠ .url)
    (hUrl : ∃ m ∈ ms, named .url m.1 = true) :
    latest (named .url) Json.string? ms =
      some "http://host" := by
  apply latest_eq_of_forall hUrl
  intro m hm hNamed
  rw [hFilled.value_eq hOther hm hNamed]
  unfold payloadFiller
  rw [if_pos hNamed]
  rfl

end Filled

theorem readable_null
    (g : WebhookField) :
    g.Readable .null := by
  cases g with
  | url => exact .inl rfl
  | method => exact .inl rfl
  | headers => exact .inl rfl
  | body => trivial
  | timeoutSeconds => exact .inl rfl

theorem readable_payloadFiller
    (g : WebhookField)
    (key : String)
    (hNamed : named g key = true) :
    g.Readable (payloadFiller key) := by
  unfold payloadFiller
  split
  · rename_i hUrl
    have hSame := (named_eq_iff hUrl).mp hNamed
    subst hSame
    exact .inr ⟨_, rfl⟩
  · exact readable_null g

theorem payloadFiller_eq_null
    {g : WebhookField}
    {key : String}
    (hOther : g ≠ .url)
    (hNamed : named g key = true) :
    payloadFiller key = .null := by
  unfold payloadFiller
  rw [if_neg]
  intro hUrl
  exact hOther ((named_eq_iff hNamed).mp hUrl)

------------------------------------------------------------
-- Diverging Payloads
------------------------------------------------------------

open Foundations Members WebhookField

variable {U : UrlParser}
variable {keys : List String}

theorem UrlParser.absolute_host
    (U : UrlParser) :
    U.absolute "http://host" = true := by
  simp [UrlParser.absolute, U.parse_http]

theorem UrlParser.not_absolute_empty
    (U : UrlParser) :
    U.absolute "" = false := by
  simp [UrlParser.absolute, U.parse_empty]

/- The stored URL is missing or empty. -/
theorem exists_diverging_url
    (hKeys :
      ¬InOrder jsonbRank (keys.filter (named .url))) :
    ∃ ms, ms.map Prod.fst = keys ∧ Diverges U ms := by
  have hGood :
      Json.string? (.string "http://host") =
        some "http://host" :=
    rfl
  have hBad : Json.string? (.string "") = some "" := rfl
  rcases exists_changed_of_not_inOrder jsonbRank_injective
      (fun _ => Json.null) (fun _ _ => rfl) hGood hBad
      hKeys with
    ⟨ms, hFst, hFilled, hBefore, hAfter⟩
  have hFilled :
      FilledBut .url (fun _ => .null)
        (.string "http://host") (.string "") ms :=
    hFilled
  have hReadable :=
    hFilled.readable (fun g _ _ => readable_null g)
      (.inr ⟨_, rfl⟩) (.inr ⟨_, rfl⟩)
  refine ⟨ms, hFst, ?_, ?_⟩
  · apply validate_object_iff.mpr
    refine ⟨hReadable, ?_, ?_, ?_⟩
    · unfold PayloadFields.read
      rw [hBefore]
      exact U.absolute_host
    · have hNone :
          latest (named .timeoutSeconds) Json.seconds? ms =
            none :=
        hFilled.latest_eq_none (by decide) (fun _ _ => rfl)
      unfold PayloadFields.read
      rw [hNone]
      exact (by decide : timeoutAllowed 0 = true)
    · have hNone :
          latest (named .method) Json.string? ms = none :=
        hFilled.latest_eq_none (by decide) (fun _ _ => rfl)
      unfold PayloadFields.read
      rw [hNone]
      exact (by decide : "" ∈ webhookMethods)
  · intro hStored
    have hAbsolute :=
      ((validate_stored_iff hReadable).mp hStored).1
    unfold PayloadFields.read at hAbsolute
    rcases hAfter with hNone | hEmpty
    · rw [hNone] at hAbsolute
      exact absurd hAbsolute
        (by simp [U.not_absolute_empty])
    · rw [hEmpty] at hAbsolute
      exact absurd hAbsolute
        (by simp [U.not_absolute_empty])

/- A key with a property belongs to a member. -/
theorem exists_mem_of_exists_key
    {p : String → Bool}
    (hKey : ∃ key ∈ ms.map Prod.fst, p key = true) :
    ∃ m ∈ ms, p m.1 = true := by
  rcases hKey with ⟨key, hMem, hp⟩
  rcases List.mem_map.mp hMem with ⟨m, hm, rfl⟩
  exact ⟨m, hm, hp⟩

section Attacked

variable {good bad : Json}
variable {ms : List (String × Json)}

/- With all else filled in, the method decides. -/
theorem FilledBut.accepted_iff_method
    (hFilled : FilledBut .method payloadFiller good bad ms)
    (hUrl : ∃ m ∈ ms, named .url m.1 = true) :
    (PayloadFields.read ms).Accepted U ↔
      (latest (named .method) Json.string? ms).getD "" ∈
        webhookMethods := by
  have hHost := hFilled.latest_url (by decide) hUrl
  have hNone :
      latest (named .timeoutSeconds) Json.seconds? ms =
        none := by
    apply hFilled.latest_eq_none (by decide)
    intro key hNamed
    rw [payloadFiller_eq_null (by decide) hNamed]
    rfl
  unfold PayloadFields.Accepted PayloadFields.read
  rw [hHost, hNone]
  constructor
  · intro hAccepted
    exact hAccepted.2.2
  · intro hMethod
    exact ⟨U.absolute_host,
      (by decide : timeoutAllowed 0 = true), hMethod⟩

/- With all else filled in, the timeout decides. -/
theorem FilledBut.accepted_iff_timeout
    (hFilled :
      FilledBut .timeoutSeconds payloadFiller good bad ms)
    (hUrl : ∃ m ∈ ms, named .url m.1 = true) :
    (PayloadFields.read ms).Accepted U ↔
      timeoutAllowed
          ((latest (named .timeoutSeconds) Json.seconds?
            ms).getD 0) =
        true := by
  have hHost := hFilled.latest_url (by decide) hUrl
  have hNone :
      latest (named .method) Json.string? ms = none := by
    apply hFilled.latest_eq_none (by decide)
    intro key hNamed
    rw [payloadFiller_eq_null (by decide) hNamed]
    rfl
  unfold PayloadFields.Accepted PayloadFields.read
  rw [hHost, hNone]
  constructor
  · intro hAccepted
    exact hAccepted.2.1
  · intro hTimeout
    exact ⟨U.absolute_host, hTimeout,
      (by decide : "" ∈ webhookMethods)⟩

/- A key that is there before and after storing. -/
theorem exists_named_of_keys
    {f : WebhookField}
    (hFst : ms.map Prod.fst = keys)
    (hKey : ∃ key ∈ keys, named f key = true) :
    (∃ m ∈ ms, named f m.1 = true) ∧
      ∃ m ∈ canonical jsonbRank ms,
        named f m.1 = true := by
  rw [← hFst] at hKey
  rcases exists_mem_of_exists_key hKey with ⟨m, hm, hNamed⟩
  rcases exists_mem_canonical jsonbRank_injective hm with
    ⟨m', hm', hSame⟩
  refine ⟨⟨m, hm, hNamed⟩, m', hm', ?_⟩
  rw [hSame]
  exact hNamed

end Attacked

/- The stored method is not supported. -/
theorem exists_diverging_method
    (hUrl : ∃ key ∈ keys, named .url key = true)
    (hKeys :
      ¬EndsInOrder jsonbRank
        (keys.filter (named .method))) :
    ∃ ms, ms.map Prod.fst = keys ∧ Diverges U ms := by
  have hFiller :
      ∀ key, named .method key = true →
        Json.string? (payloadFiller key) = none := by
    intro key hNamed
    rw [payloadFiller_eq_null (by decide) hNamed]
    rfl
  have hGood :
      Json.string? (.string "GET") = some "GET" :=
    rfl
  have hBad :
      Json.string? (.string "BREW") = some "BREW" :=
    rfl
  rcases exists_changed_of_not_endsInOrder
      jsonbRank_injective payloadFiller hFiller hGood hBad
      hKeys with
    ⟨ms, hFst, hFilled, hBefore, hAfter⟩
  have hFilled :
      FilledBut .method payloadFiller (.string "GET")
        (.string "BREW") ms :=
    hFilled
  have hReadable :=
    hFilled.readable readable_payloadFiller
      (.inr ⟨_, rfl⟩) (.inr ⟨_, rfl⟩)
  rcases exists_named_of_keys hFst hUrl with
    ⟨hUrlBefore, hUrlAfter⟩
  refine ⟨ms, hFst, ?_, ?_⟩
  · apply validate_object_iff.mpr
    refine ⟨hReadable,
      (hFilled.accepted_iff_method hUrlBefore).mpr ?_⟩
    rw [hBefore]
    decide
  · intro hStored
    have hMethod :=
      (hFilled.canonical.accepted_iff_method hUrlAfter).mp
        ((validate_stored_iff hReadable).mp hStored)
    rw [hAfter] at hMethod
    revert hMethod
    decide

/- The stored timeout is too long. -/
theorem exists_diverging_timeout
    (hUrl : ∃ key ∈ keys, named .url key = true)
    (hKeys :
      ¬EndsInOrder jsonbRank
        (keys.filter (named .timeoutSeconds))) :
    ∃ ms, ms.map Prod.fst = keys ∧ Diverges U ms := by
  have hFiller :
      ∀ key, named .timeoutSeconds key = true →
        Json.seconds? (payloadFiller key) = none := by
    intro key hNamed
    rw [payloadFiller_eq_null (by decide) hNamed]
    rfl
  have hGood :
      Json.seconds? (.number ⟨1, 0, none⟩) = some 1 := by
    decide
  have hBad :
      Json.seconds? (.number ⟨901, 0, none⟩) =
        some 901 := by
    decide
  rcases exists_changed_of_not_endsInOrder
      jsonbRank_injective payloadFiller hFiller hGood hBad
      hKeys with
    ⟨ms, hFst, hFilled, hBefore, hAfter⟩
  have hFilled :
      FilledBut .timeoutSeconds payloadFiller
        (.number ⟨1, 0, none⟩) (.number ⟨901, 0, none⟩)
        ms :=
    hFilled
  have hReadable :=
    hFilled.readable readable_payloadFiller
      (.inr ⟨1, by decide⟩) (.inr ⟨901, by decide⟩)
  rcases exists_named_of_keys hFst hUrl with
    ⟨hUrlBefore, hUrlAfter⟩
  refine ⟨ms, hFst, ?_, ?_⟩
  · apply validate_object_iff.mpr
    refine ⟨hReadable,
      (hFilled.accepted_iff_timeout hUrlBefore).mpr ?_⟩
    rw [hBefore]
    decide
  · intro hStored
    have hTimeout :=
      (hFilled.canonical.accepted_iff_timeout hUrlAfter).mp
        ((validate_stored_iff hReadable).mp hStored)
    rw [hAfter] at hTimeout
    revert hTimeout
    decide

theorem exists_diverging_of_not_ordered
    (hUrl : ∃ key ∈ keys, named .url key = true)
    (hKeys : ¬PayloadOrdered keys) :
    ∃ ms, ms.map Prod.fst = keys ∧ Diverges U ms := by
  by_cases hUrlKeys :
      InOrder jsonbRank (keys.filter (named .url))
  · by_cases hMethodKeys :
        EndsInOrder jsonbRank (keys.filter (named .method))
    · apply exists_diverging_timeout hUrl
      intro hTimeoutKeys
      exact hKeys ⟨hUrlKeys, hMethodKeys, hTimeoutKeys⟩
    · exact exists_diverging_method hUrl hMethodKeys
  · exact exists_diverging_url hUrlKeys

/- An accepted payload has a key that is taken for the URL. -/
theorem exists_url_of_valid
    (hFst : ms.map Prod.fst = keys)
    (hValid :
      validateWebhookPayload U (some (.object ms)) =
        .ok ()) :
    ∃ key ∈ keys, named .url key = true := by
  have hAbsolute := (validate_object_iff.mp hValid).2.1
  unfold PayloadFields.read at hAbsolute
  cases hLatest : latest (named .url) Json.string? ms with
  | none =>
      rw [hLatest] at hAbsolute
      exact absurd hAbsolute
        (by simp [U.not_absolute_empty])
  | some url =>
      rcases exists_mem_of_latest hLatest with
        ⟨m, hm, hNamed, _⟩
      refine ⟨m.1, ?_, hNamed⟩
      rw [← hFst]
      exact List.mem_map_of_mem hm

/- With a key for the URL, some payload is accepted. -/
theorem validate_fill
    (hUrl : ∃ key ∈ keys, named .url key = true) :
    validateWebhookPayload U
        (some (.object (fill payloadFiller keys))) =
      .ok () := by
  have hFilled :
      FilledBut .method payloadFiller .null .null
        (fill payloadFiller keys) := by
    intro m hm
    exact .inl (mem_fill_iff.mp hm).2
  have hNone :
      latest (named .method) Json.string?
          (fill payloadFiller keys) =
        none := by
    apply latest_eq_none
    intro m hm hNamed
    rw [(mem_fill_iff.mp hm).2,
      payloadFiller_eq_null (by decide) hNamed]
    rfl
  rw [← map_fst_fill payloadFiller keys] at hUrl
  apply validate_object_iff.mpr
  refine ⟨hFilled.readable readable_payloadFiller
    (readable_null _) (readable_null _), ?_⟩
  apply (hFilled.accepted_iff_method
    (exists_mem_of_exists_key hUrl)).mpr
  rw [hNone]
  decide

/-
  Documents with these keys are stored as valid ones, if some
  of their keys is taken for the URL; otherwise none of them
  is accepted.
-/
theorem stored_valid_iff_ordered :
    (∀ ms : List (String × Json),
        ms.map Prod.fst = keys →
          validateWebhookPayload U (some (.object ms)) =
              .ok () →
            validateWebhookPayload U
                (some (Json.object ms).jsonb) =
              .ok ()) ↔
      ((∃ key ∈ keys, named .url key = true) →
        PayloadOrdered keys) := by
  constructor
  · intro hKept hUrl
    by_contra hKeys
    rcases exists_diverging_of_not_ordered hUrl hKeys with
      ⟨ms, hFst, hValid, hInvalid⟩
    exact hInvalid (hKept ms hFst hValid)
  · intro hOrdered ms hFst hValid
    rcases validate_object_iff.mp hValid with
      ⟨hReadable, hAccepted⟩
    have hUrl := exists_url_of_valid hFst hValid
    apply (validate_stored_iff hReadable).mpr
    apply accepted_canonical_of_ordered _ hAccepted
    rw [hFst]
    exact hOrdered hUrl

end Sluice
