import Mathlib.Tactic.Linarith
import Sluice.Job.Json

/-
  The payload of a webhook job: how it is decoded, what
  `validateWebhookPayload` checks, and the timeout that the
  worker derives from it.

  A `time.Duration` counts nanoseconds in 64 bits and wraps
  around, and so does the type `int` of the payload's
  seconds.

  Key definitions include:
    * `Duration`
    * `WebhookPayload` and `WebhookPayload.timeout`
    * `WebhookField.ofKey?` and `unmarshalWebhook`
    * `WebhookPayload.check`
    * `validateWebhookPayload`

  Key theorems include:
    * `WebhookPayload.check_eq_ok_iff`
    * `timeout_bounded_iff_no_wrap`
-/

------------------------------------------------------------
-- Durations
------------------------------------------------------------

namespace Sluice

open Foundations

/- Nanoseconds in 64 bits. -/
abbrev Duration := Int64

namespace Duration

/- `time.Second`. -/
def second : Duration := 1000000000

end Duration

def defaultWebhookTimeout : Duration :=
  25 * Duration.second

def maxWebhookTimeout : Duration :=
  900 * Duration.second

------------------------------------------------------------
-- Payloads
------------------------------------------------------------

/-
  The headers are a map from strings to strings. The body is
  the value of the document that the request carries.
-/
structure WebhookPayload where
  url : String
  method : String
  headers : List (String × String)
  body : Option Json
  timeoutSeconds : Int64

inductive WebhookField
| url
| method
| headers
| body
| timeoutSeconds
deriving DecidableEq, Repr

namespace WebhookField

/- The names in the tags of the struct. -/
def name : WebhookField → String
| .url => "url"
| .method => "method"
| .headers => "headers"
| .body => "body"
| .timeoutSeconds => "timeout_seconds"

def all : List WebhookField :=
  [.url, .method, .headers, .body, .timeoutSeconds]

/- The field that a member's key is taken for. -/
def ofKey? (key : String) : Option WebhookField :=
  all.find? (fun f => spells f.name key)

end WebhookField

namespace WebhookPayload

/- The value into which a payload is decoded. -/
def zero : WebhookPayload where
  url := ""
  method := ""
  headers := []
  body := none
  timeoutSeconds := 0

/- Zero seconds stand for the default. -/
def timeout (p : WebhookPayload) : Duration :=
  if p.timeoutSeconds = 0 then defaultWebhookTimeout
  else p.timeoutSeconds * Duration.second

/- Decode one member; a key that names no field is skipped. -/
def assign
    (p : WebhookPayload)
    (m : String × Json) :
    Except String WebhookPayload :=
  match WebhookField.ofKey? m.1 with
  | none => .ok p
  | some .url =>
      (decodeString "WebhookPayload.url" p.url m.2).map
        (fun url => { p with url := url })
  | some .method =>
      (decodeString "WebhookPayload.method" p.method
        m.2).map
        (fun method => { p with method := method })
  | some .headers =>
      (decodeStringMap "WebhookPayload.headers" p.headers
        m.2).map
        (fun headers => { p with headers := headers })
  | some .body => .ok { p with body := some m.2 }
  | some .timeoutSeconds =>
      (decodeInt "WebhookPayload.timeout_seconds"
        p.timeoutSeconds m.2).map
        (fun seconds => { p with timeoutSeconds := seconds })

end WebhookPayload

/- `json.Unmarshal` of a document into a payload. -/
def unmarshalWebhook : Json → Except String WebhookPayload
| .null => .ok WebhookPayload.zero
| .object members =>
    members.foldlM WebhookPayload.assign WebhookPayload.zero
| v =>
    .error
      ("json: cannot unmarshal " ++ v.kind ++
        " into Go value of type job.WebhookPayload")

------------------------------------------------------------
-- Checks
------------------------------------------------------------

/- What the checks read of a parsed URL. -/
structure Url where
  scheme : String
  host : String
deriving DecidableEq, Repr

/-
  `url.Parse`, which may fail. The empty text is a URL with
  neither a scheme nor a host.
-/
structure UrlParser where
  parse : String → Option Url
  parse_empty : parse "" = some ⟨"", ""⟩
  parse_http : parse "http://host" = some ⟨"http", "host"⟩

/- An absolute `http` or `https` URL. -/
def UrlParser.absolute
    (U : UrlParser)
    (raw : String) :
    Bool :=
  (U.parse raw).any
    (fun u =>
      (u.scheme = "http" || u.scheme = "https") &&
        u.host ≠ "")

/- The methods that a request may have; `""` means `POST`. -/
def webhookMethods : List String :=
  ["", "GET", "POST", "PUT", "PATCH", "DELETE"]

/- The check of `timeout_seconds`. -/
def timeoutAllowed (seconds : Int64) : Bool :=
  !(seconds < 0 ||
    seconds * Duration.second > maxWebhookTimeout)

namespace WebhookPayload

/- The checks on a decoded payload, in their order. -/
def check
    (U : UrlParser)
    (p : WebhookPayload) :
    Except String Unit :=
  if U.absolute p.url = false then
    .error
      "payload.url must be an absolute http or https URL"
  else if timeoutAllowed p.timeoutSeconds = false then
    .error
      "payload.timeout_seconds must be between 1 and 900"
  else if p.method ∈ webhookMethods then .ok ()
  else
    .error
      ("payload.method " ++ p.method.quote ++
        " is not supported")

theorem check_eq_ok_iff
    {U : UrlParser}
    {p : WebhookPayload} :
    p.check U = .ok () ↔
      U.absolute p.url = true ∧
        timeoutAllowed p.timeoutSeconds = true ∧
          p.method ∈ webhookMethods := by
  unfold check
  split
  · rename_i hUrl
    simp [hUrl]
  · rename_i hUrl
    split
    · rename_i hTimeout
      simp [hTimeout]
    · rename_i hTimeout
      split
      · rename_i hMethod
        simp_all
      · rename_i hMethod
        simp [hMethod]

end WebhookPayload

/- An absent payload is an empty raw message. -/
def validateWebhookPayload
    (U : UrlParser) :
    Option Json → Except String Unit
| none => .error "payload is required"
| some doc =>
    match unmarshalWebhook doc with
    | .error e => .error ("invalid webhook payload: " ++ e)
    | .ok p => p.check U

theorem validateWebhookPayload_eq_ok_iff
    {U : UrlParser}
    {payload : Option Json} :
    validateWebhookPayload U payload = .ok () ↔
      ∃ doc p, payload = some doc ∧
        unmarshalWebhook doc = .ok p ∧
          p.check U = .ok () := by
  cases payload with
  | none => simp [validateWebhookPayload]
  | some doc =>
      unfold validateWebhookPayload
      cases hDecode : unmarshalWebhook doc with
      | error e => simp [hDecode]
      | ok p => simp [hDecode]

------------------------------------------------------------
-- Timeouts In Machine Arithmetic
------------------------------------------------------------

/-
  A product that is too large for 64 bits is at most `bound`
  when it lies in the lower half below a multiple of `2^64`,
  or at most `bound` above it.
-/
theorem bmod_le_iff
    {x bound : Int}
    (hBound : 0 ≤ bound ∧ bound < 2 ^ 63)
    (hNonneg : 0 ≤ x) :
    x.bmod (2 ^ 64) ≤ bound ↔
      x ≤ bound ∨
        ∃ k : Int, 1 ≤ k ∧
          k * 2 ^ 64 - 2 ^ 63 ≤ x ∧
            x ≤ k * 2 ^ 64 + bound := by
  have hLower : -2 ^ 63 ≤ x.bmod (2 ^ 64) := by
    have hMod := Int.le_bmod (x := x) (Nat.two_pow_pos 64)
    omega
  have hUpper : x.bmod (2 ^ 64) < 2 ^ 63 := by
    have hMod := Int.bmod_lt (x := x) (Nat.two_pow_pos 64)
    omega
  have hQuotient :
      ∃ q : Int, x = q * 2 ^ 64 + x.bmod (2 ^ 64) := by
    refine ⟨x.bdiv (2 ^ 64), ?_⟩
    have hDiv := Int.bmod_add_bdiv x (2 ^ 64)
    omega
  rcases hQuotient with ⟨q, hq⟩
  constructor
  · intro hLe
    by_cases hZero : q = 0
    · left
      subst hZero
      omega
    · right
      refine ⟨q, ?_, ?_, ?_⟩ <;> omega
  · rintro (hLe | ⟨k, hk, hFrom, hTo⟩)
    · have hZero : q = 0 := by omega
      subst hZero
      omega
    · have hSame : q = k := by omega
      subst hSame
      omega

/- Nanoseconds of a number of seconds, as they wrap around. -/
theorem toInt_mul_second
    (seconds : Int64) :
    (seconds * Duration.second).toInt =
      (seconds.toInt * 10 ^ 9).bmod (2 ^ 64) := by
  rw [Int64.toInt_mul]
  rfl

theorem toInt_maxWebhookTimeout :
    maxWebhookTimeout.toInt = 900 * 10 ^ 9 := by
  decide

/-
  Seconds whose nanoseconds wrap around to a duration that
  is not above the limit.
-/
def WrapsBelowLimit (seconds : Int64) : Prop :=
  ∃ k : Int, 1 ≤ k ∧
    k * 2 ^ 64 - 2 ^ 63 ≤ seconds.toInt * 10 ^ 9 ∧
      seconds.toInt * 10 ^ 9 ≤ k * 2 ^ 64 + 900 * 10 ^ 9

/- The check in integers without bounds. -/
theorem timeoutAllowed_iff
    (seconds : Int64) :
    timeoutAllowed seconds = true ↔
      0 ≤ seconds.toInt ∧
        (seconds.toInt ≤ 900 ∨ WrapsBelowLimit seconds) := by
  have hChecks :
      timeoutAllowed seconds = true ↔
        0 ≤ seconds.toInt ∧
          (seconds.toInt * 10 ^ 9).bmod (2 ^ 64) ≤
            900 * 10 ^ 9 := by
    rw [← toInt_mul_second, ← toInt_maxWebhookTimeout]
    simp [timeoutAllowed, Int64.lt_iff_toInt_lt]
  rw [hChecks]
  apply and_congr_right
  intro hNonneg
  rw [bmod_le_iff (by omega) (by omega)]
  apply or_congr_left
  omega

/- Within the limit nothing wraps around. -/
theorem WebhookPayload.timeout_of_le
    {p : WebhookPayload}
    (hNonneg : 0 ≤ p.timeoutSeconds.toInt)
    (hLe : p.timeoutSeconds.toInt ≤ 900) :
    0 < p.timeout.toInt ∧
      p.timeout.toInt ≤ maxWebhookTimeout.toInt := by
  unfold timeout
  split
  · decide
  · rename_i hZero
    have hPositive : p.timeoutSeconds.toInt ≠ 0 := by
      intro hEq
      apply hZero
      apply Int64.toInt_inj.mp
      exact hEq
    rw [toInt_mul_second, toInt_maxWebhookTimeout]
    have hSame :
        (p.timeoutSeconds.toInt * 10 ^ 9).bmod (2 ^ 64) =
          p.timeoutSeconds.toInt * 10 ^ 9 := by
      apply Int.bmod_eq_of_le <;> omega
    rw [hSame]
    omega

/- A payload that asks for this many seconds. -/
def timeoutDoc (seconds : Int64) : Json :=
  .object
    [("url", .string "http://host"),
      ("timeout_seconds",
        .number ⟨seconds.toInt, 0, none⟩)]

theorem inBits_toInt
    (seconds : Int64) :
    inBits 64 seconds.toInt = true := by
  have hLower := Int64.le_toInt seconds
  have hUpper := Int64.toInt_lt seconds
  simp only [inBits, Bool.and_eq_true, decide_eq_true_eq]
  omega

theorem decodeInt_toInt
    (field : String)
    (old seconds : Int64) :
    decodeInt field old
        (.number ⟨seconds.toInt, 0, none⟩) =
      .ok seconds := by
  have hInt :
      (Json.number ⟨seconds.toInt, 0, none⟩).int? 64 =
        some seconds.toInt := by
    simp [Json.int?, Number.toInt?, inBits_toInt]
  simp only [decodeInt, hInt, Int64.ofInt_toInt]

theorem unmarshalWebhook_timeoutDoc
    (seconds : Int64) :
    unmarshalWebhook (timeoutDoc seconds) =
      .ok
        { WebhookPayload.zero with
          url := "http://host"
          timeoutSeconds := seconds } := by
  have hUrl :
      WebhookPayload.zero.assign
          ("url", .string "http://host") =
        .ok
          { WebhookPayload.zero with
            url := "http://host" } :=
    rfl
  have hField :
      WebhookField.ofKey? "timeout_seconds" =
        some .timeoutSeconds := by
    decide
  simp only [unmarshalWebhook, timeoutDoc,
    List.foldlM_cons, List.foldlM_nil, hUrl]
  simp only [bind, Except.bind, WebhookPayload.assign,
    hField, decodeInt_toInt, Except.map]
  rfl

/-
  An accepted payload has a timeout within the bounds, unless
  the product of its seconds with the nanoseconds of a second
  wraps around to something that is not above the limit.
-/
theorem timeout_bounded_iff_no_wrap
    (U : UrlParser)
    (seconds : Int64) :
    (∀ doc p,
        validateWebhookPayload U (some doc) = .ok () →
          unmarshalWebhook doc = .ok p →
            p.timeoutSeconds = seconds →
              (0 ≤ seconds.toInt ∧ seconds.toInt ≤ 900) ∧
                0 < p.timeout.toInt ∧
                  p.timeout.toInt ≤
                    maxWebhookTimeout.toInt) ↔
      ¬WrapsBelowLimit seconds := by
  constructor
  · intro hBounded hWraps
    have hDecode := unmarshalWebhook_timeoutDoc seconds
    have hNonneg : 0 ≤ seconds.toInt := by
      rcases hWraps with ⟨k, hk, hFrom, _⟩
      omega
    have hAbove : 900 < seconds.toInt := by
      rcases hWraps with ⟨k, hk, hFrom, _⟩
      omega
    have hAccepted :
        validateWebhookPayload U
            (some (timeoutDoc seconds)) =
          .ok () := by
      apply validateWebhookPayload_eq_ok_iff.mpr
      refine ⟨_, _, rfl, hDecode, ?_⟩
      apply WebhookPayload.check_eq_ok_iff.mpr
      refine ⟨?_, ?_, ?_⟩
      · simp [UrlParser.absolute, U.parse_http]
      · apply (timeoutAllowed_iff _).mpr
        exact ⟨hNonneg, .inr hWraps⟩
      · simp [WebhookPayload.zero, webhookMethods]
    have hBounds :=
      hBounded _ _ hAccepted hDecode rfl
    omega
  · intro hNoWrap doc p hAccepted hDecode hSeconds
    rcases validateWebhookPayload_eq_ok_iff.mp hAccepted with
      ⟨doc', p', hDoc, hDecode', hCheck⟩
    cases hDoc
    rw [hDecode] at hDecode'
    cases hDecode'
    have hChecked :=
      (WebhookPayload.check_eq_ok_iff.mp hCheck).2.1
    rcases (timeoutAllowed_iff _).mp hChecked with
      ⟨hNonneg, hLe | hWraps⟩
    · have hTimeout :=
        WebhookPayload.timeout_of_le hNonneg hLe
      rw [hSeconds] at hNonneg hLe
      exact ⟨⟨hNonneg, hLe⟩, hTimeout⟩
    · rw [hSeconds] at hWraps
      exact absurd hWraps hNoWrap

/-
  A parser that knows `scheme://host` only.
-/
def UrlParser.plain : UrlParser where
  parse := fun raw =>
    let scheme := raw.toList.takeWhile (· ≠ ':')
    let rest := raw.toList.drop scheme.length
    if rest.take 3 = "://".toList then
      some
        ⟨String.ofList scheme, String.ofList (rest.drop 3)⟩
    else some ⟨"", ""⟩
  parse_empty := by decide
  parse_http := by decide

/-
  9223372037 seconds are accepted, and make a request that
  times out before it starts.
-/
theorem wrapped_timeout_accepted :
    validateWebhookPayload UrlParser.plain
        (some (timeoutDoc 9223372037)) =
      .ok () ∧
      (unmarshalWebhook (timeoutDoc 9223372037)).toOption.any
          (fun p =>
            900 < p.timeoutSeconds.toInt &&
              p.timeout.toInt < 0) =
        true := by
  decide +kernel

end Sluice
