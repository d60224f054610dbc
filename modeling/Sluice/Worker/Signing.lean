import Sluice.Foundations.AsciiText
import Sluice.Foundations.Decimal
import Sluice.Foundations.HttpHeader
import Sluice.Job.Webhook
import Sluice.Storage.Sessions

/-
  Signed webhook requests: `executeWebhook`, `signRequest`
  and the secrets of `NewWebhookSecret`.

  HMAC-SHA256 is some function of a key and a message, and
  base64 some encoding that can be decoded. Go goes through
  the headers of a job in any order.

  Key definitions include:
    * `uuidString`
    * `Crypto` and `newWebhookSecret`
    * `signedContent` and `signRequest`
    * `WebhookWorker`
    * `WebhookWorker.executeWebhook`
    * `receivedContent` and `verifies`

  Key theorems include:
    * `signRequest_eq_ok`
    * `Signed.receivedContent_eq` and `Signed.verifies`
    * `signedContent_injective`
    * `signatures_verify_unambiguously`
-/

------------------------------------------------------------
-- Texts
------------------------------------------------------------

namespace Sluice

namespace Worker

open Foundations Http AsciiText

/- The digits of a UUID, in five groups. -/
def uuidText (id : Uuid) : List Char :=
  let hex := hexDigits 32 id
  hex.take 8 ++
    '-' :: ((hex.drop 8).take 4 ++
      '-' :: ((hex.drop 12).take 4 ++
        '-' :: ((hex.drop 16).take 4 ++
          '-' :: hex.drop 20)))

/- `UUID.String`. -/
def uuidString (id : Uuid) : String :=
  String.ofList (uuidText id)

/- `strconv.FormatInt(n, 10)`. -/
def formatInt (n : Int) : String :=
  String.ofList (Decimal.signedPadded 1 n)

/- `strings.TrimPrefix`. -/
def trimPrefix (s mark : String) : String :=
  if mark.toList.isPrefixOf s.toList then
    String.ofList (s.toList.drop mark.toList.length)
  else s

------------------------------------------------------------
-- Signing
------------------------------------------------------------

/-
  HMAC-SHA256 of a key and a message, and standard base64,
  whose decoder may fail.
-/
structure Crypto where
  hmac : List UInt8 → List UInt8 → List UInt8
  encodeToString : List UInt8 → String
  decodeString : String → Except String (List UInt8)
  decodeString_encodeToString :
    ∀ bytes,
      decodeString (encodeToString bytes) = .ok bytes

/- `read` fills a slice of this many random bytes. -/
def newWebhookSecret
    (C : Crypto)
    (read : Nat → Except String (List UInt8)) :
    Except String String :=
  match read 32 with
  | .error err => .error ("generate webhook secret: " ++ err)
  | .ok b => .ok ("whsec_" ++ C.encodeToString b)

/- What is written to the MAC. -/
def signedContent
    (msgId ts : String)
    (body : List UInt8) :
    List UInt8 :=
  utf8 (msgId ++ "." ++ ts ++ ".").toList ++ body

/- The value of `webhook-signature`. -/
def signature
    (C : Crypto)
    (key : List UInt8)
    (msgId ts : String)
    (body : List UInt8) :
    String :=
  "v1," ++
    C.encodeToString
      (C.hmac key (signedContent msgId ts body))

def signRequest
    (C : Crypto)
    (h : Header)
    (secret msgId : String)
    (sentAt : Time)
    (body : List UInt8) :
    Except String Header :=
  match C.decodeString (trimPrefix secret "whsec_") with
  | .error err => .error ("decode webhook secret: " ++ err)
  | .ok key =>
      let ts := formatInt sentAt.unix
      .ok
        (((h.set "webhook-id" msgId).set
          "webhook-timestamp" ts).set
            "webhook-signature"
              (signature C key msgId ts body))

------------------------------------------------------------
-- Requests
------------------------------------------------------------

/- `timeout` is that of the request's context. -/
structure WebhookRequest where
  method : String
  url : String
  header : Header
  body : List UInt8
  timeout : Duration

/-
  What a worker has for `executeWebhook`: the secrets of
  `loadTenants` and the query it falls back to, the JSON
  decoder with the bytes of a value, the order of a map, the
  checks of `http.NewRequest`, and the client, which returns
  a status.
-/
structure WebhookWorker where
  crypto : Crypto
  secrets : Uuid → Option String
  getTenant : Uuid → Except String Storage.Tenant
  parse : String → Except String Json
  raw : Json → List UInt8
  range : List (String × String) → List (String × String)
  range_perm : ∀ entries, (range entries).Perm entries
  newRequest : String → String → Option String
  send : WebhookRequest → Except String Int

/- An empty method stands for `http.MethodPost`. -/
def requestMethod (p : WebhookPayload) : String :=
  if p.method = "" then "POST" else p.method

/- What is set of a job's own headers, and the default. -/
def jobHeader
    (entries : List (String × String))
    (body : List UInt8) :
    Header :=
  let h :=
    entries.foldl (fun h kv => h.set kv.1 kv.2) Header.empty
  if h.get "Content-Type" = "" && body.length > 0 then
    h.set "Content-Type" "application/json"
  else h

/- The result of the client, as the job's error. -/
def respond : Except String Int → Except String Unit
| .error err => .error ("webhook request: " ++ err)
| .ok status =>
    if status ≥ 400 then
      .error ("webhook returned " ++ formatInt status)
    else .ok ()

namespace WebhookWorker

def webhookSecret
    (w : WebhookWorker)
    (tenantId : Uuid) :
    Except String String :=
  match w.secrets tenantId with
  | some secret => .ok secret
  | none =>
      match w.getTenant tenantId with
      | .error err =>
          .error
            ("load webhook secret for tenant " ++
              uuidString tenantId ++ ": " ++ err)
      | .ok t => .ok t.webhookSecret

/- `json.Unmarshal` of a job's payload. -/
def payloadOf
    (w : WebhookWorker)
    (j : Job) :
    Except String WebhookPayload :=
  (w.parse j.payload).bind unmarshalWebhook

/- The bytes of the body, which may be missing. -/
def bodyOf
    (w : WebhookWorker)
    (p : WebhookPayload) :
    List UInt8 :=
  (p.body.map w.raw).getD []

/- `executeWebhook` up to the call of the client. -/
def buildRequest
    (w : WebhookWorker)
    (j : Job)
    (now : Time) :
    Except String WebhookRequest :=
  match w.payloadOf j with
  | .error err => .error ("invalid webhook payload: " ++ err)
  | .ok p =>
      match w.webhookSecret j.tenantId with
      | .error err => .error err
      | .ok secret =>
          match w.newRequest (requestMethod p) p.url with
          | some err => .error ("build request: " ++ err)
          | none =>
              -- Signed last, after the job's own headers.
              (signRequest w.crypto
                (jobHeader (w.range p.headers) (w.bodyOf p))
                secret (uuidString j.id) now
                (w.bodyOf p)).map
                (fun header =>
                  ⟨requestMethod p, p.url, header,
                    w.bodyOf p, p.timeout⟩)

def executeWebhook
    (w : WebhookWorker)
    (j : Job)
    (now : Time) :
    Except String Unit :=
  match w.buildRequest j now with
  | .error err => .error err
  | .ok req => respond (w.send req)

end WebhookWorker

/- The byte of a dot. -/
def dot : UInt8 := UInt8.ofNat '.'.toNat

/- `id.timestamp.body`, as the receiver puts it together. -/
def receivedContent (req : WebhookRequest) : List UInt8 :=
  utf8 (req.header.get "webhook-id").toList ++
    dot ::
      (utf8 (req.header.get "webhook-timestamp").toList ++
        dot :: req.body)

/-
  The check of a receiver that has the secret: the one
  signature is version 1 of what it has received.
-/
def verifies
    (C : Crypto)
    (secret : String)
    (req : WebhookRequest) :
    Bool :=
  match C.decodeString (trimPrefix secret "whsec_") with
  | .error _ => false
  | .ok key =>
      req.header.values "webhook-signature" =
        ["v1," ++
          C.encodeToString
            (C.hmac key (receivedContent req))]

------------------------------------------------------------
-- Signed Requests
------------------------------------------------------------

theorem trimPrefix_append (mark s : String) :
    trimPrefix (mark ++ s) mark = s := by
  unfold trimPrefix
  rw [String.toList_append, List.drop_left,
    String.ofList_toList]
  apply if_pos
  exact List.isPrefixOf_iff_prefix.mpr
    (List.prefix_append _ _)

variable {C : Crypto}
variable {secret : String}
variable {key : List UInt8}

/- A new secret is decoded to the bytes that were drawn. -/
theorem decodeString_of_newWebhookSecret
    {read : Nat → Except String (List UInt8)}
    (hNew : newWebhookSecret C read = .ok secret) :
    ∃ b,
      read 32 = .ok b ∧
        C.decodeString (trimPrefix secret "whsec_") =
          .ok b := by
  unfold newWebhookSecret at hNew
  split at hNew
  · cases hNew
  · rename_i b hRead
    cases hNew
    rw [trimPrefix_append]
    exact ⟨b, hRead, C.decodeString_encodeToString b⟩

/- The three fields that a signature sets. -/
structure Signed
    (C : Crypto)
    (key : List UInt8)
    (msgId ts : String)
    (req : WebhookRequest) :
    Prop where
  id : req.header.values "webhook-id" = [msgId]
  timestamp : req.header.values "webhook-timestamp" = [ts]
  signature :
    req.header.values "webhook-signature" =
      [signature C key msgId ts req.body]

/- Whatever fields there were before. -/
theorem signRequest_eq_ok
    (hKey :
      C.decodeString (trimPrefix secret "whsec_") = .ok key)
    (h : Header)
    (msgId : String)
    (sentAt : Time)
    (body : List UInt8) :
    ∃ header : Header,
      signRequest C h secret msgId sentAt body =
        .ok header ∧
        ∀ req : WebhookRequest,
          req.header = header → req.body = body →
            Signed C key msgId (formatInt sentAt.unix)
              req := by
  have hIdTime :
      canonicalMIMEHeaderKey "webhook-id" ≠
        canonicalMIMEHeaderKey "webhook-timestamp" := by
    decide
  have hIdSignature :
      canonicalMIMEHeaderKey "webhook-id" ≠
        canonicalMIMEHeaderKey "webhook-signature" := by
    decide
  have hTimeSignature :
      canonicalMIMEHeaderKey "webhook-timestamp" ≠
        canonicalMIMEHeaderKey "webhook-signature" := by
    decide
  unfold signRequest
  rw [hKey]
  refine ⟨_, rfl, ?_⟩
  intro req hHeader hBody
  refine ⟨?_, ?_, ?_⟩
  · rw [hHeader, Header.values_set_of_ne _ _ hIdSignature,
      Header.values_set_of_ne _ _ hIdTime]
    exact Header.values_set_self _ _ _
  · rw [hHeader, Header.values_set_of_ne _ _ hTimeSignature]
    exact Header.values_set_self _ _ _
  · rw [hHeader, hBody]
    exact Header.values_set_self _ _ _

theorem signedContent_eq
    (msgId ts : String)
    (body : List UInt8) :
    signedContent msgId ts body =
      utf8 msgId.toList ++
        dot :: (utf8 ts.toList ++ dot :: body) := by
  have hDot : utf8 ".".toList = [dot] := by decide
  unfold signedContent
  simp only [String.toList_append, utf8_append, hDot,
    List.append_assoc, List.cons_append, List.nil_append]

/- The receiver puts together what was signed. -/
theorem Signed.receivedContent_eq
    {msgId ts : String}
    {req : WebhookRequest}
    (hSigned : Signed C key msgId ts req) :
    receivedContent req =
      signedContent msgId ts req.body := by
  unfold receivedContent
  rw [signedContent_eq, Header.get_of_values hSigned.id,
    Header.get_of_values hSigned.timestamp]

theorem Signed.verifies
    {secret msgId ts : String}
    {req : WebhookRequest}
    (hSigned : Signed C key msgId ts req)
    (hKey :
      C.decodeString (trimPrefix secret "whsec_") =
        .ok key) :
    verifies C secret req = true := by
  unfold Worker.verifies
  rw [hKey, hSigned.receivedContent_eq]
  exact decide_eq_true hSigned.signature

------------------------------------------------------------
-- Texts Without A Dot
------------------------------------------------------------

/- A property that the digits and the hyphen have. -/
theorem forall_mem_uuidText
    (P : Char → Prop)
    (hHyphen : P '-')
    (hDigits : ∀ d < 16, P (Nat.digitChar d))
    (id : Uuid) :
    ∀ c ∈ uuidText id, P c := by
  have hHex : ∀ c ∈ hexDigits 32 id, P c :=
    forall_mem_hexDigits P hDigits 32 id
  have hPart :
      ∀ n k : Nat,
        ∀ c ∈ ((hexDigits 32 id).drop n).take k, P c :=
    fun n k c hc =>
      hHex c (List.mem_of_mem_drop (List.mem_of_mem_take hc))
  intro c hc
  simp only [uuidText, List.mem_append, List.mem_cons] at hc
  rcases hc with hc | rfl | hc | rfl | hc | rfl | hc | rfl |
    hc
  · exact hHex c (List.mem_of_mem_take hc)
  · exact hHyphen
  · exact hPart 8 4 c hc
  · exact hHyphen
  · exact hPart 12 4 c hc
  · exact hHyphen
  · exact hPart 16 4 c hc
  · exact hHyphen
  · exact hHex c (List.mem_of_mem_drop hc)

/- The digits come back without the hyphens. -/
theorem filter_uuidText (id : Uuid) :
    (uuidText id).filter (· ≠ '-') = hexDigits 32 id := by
  have hKeep :
      ∀ n k : Nat,
        (((hexDigits 32 id).drop n).take k).filter
            (· ≠ '-') =
          ((hexDigits 32 id).drop n).take k := by
    intro n k
    apply List.filter_eq_self.mpr
    intro c hc
    apply decide_eq_true
    exact forall_mem_hexDigits (· ≠ '-') (by decide) 32 id
      c (List.mem_of_mem_drop (List.mem_of_mem_take hc))
  have hJoin :
      ∀ n k : Nat,
        ((hexDigits 32 id).drop n).take k ++
            (hexDigits 32 id).drop (n + k) =
          (hexDigits 32 id).drop n := by
    intro n k
    rw [← List.drop_drop]
    exact List.take_append_drop k _
  have hHyphen :
      ∀ text : List Char,
        ('-' :: text).filter (· ≠ '-') =
          text.filter (· ≠ '-') :=
    fun _ => List.filter_cons_of_neg (by decide)
  have hLast :
      ((hexDigits 32 id).drop 20).filter (· ≠ '-') =
        (hexDigits 32 id).drop 20 := by
    rw [← List.take_length (l := (hexDigits 32 id).drop 20)]
    exact hKeep 20 _
  simp only [uuidText, List.filter_append, hHyphen]
  rw [hKeep 8 4, hKeep 12 4, hKeep 16 4, hLast,
    hJoin 16 4, hJoin 12 4, hJoin 8 4]
  exact (congrArg (· ++ (hexDigits 32 id).drop 8)
    (hKeep 0 8)).trans (hJoin 0 8)

theorem uuidText_injective
    {id id' : Uuid}
    (hId : id < 2 ^ 128)
    (hId' : id' < 2 ^ 128)
    (hSame : uuidText id = uuidText id') :
    id = id' := by
  have hHex := congrArg (List.filter (· ≠ '-')) hSame
  rw [filter_uuidText, filter_uuidText] at hHex
  exact hexDigits_injective
    (Nat.lt_of_lt_of_eq hId (by decide))
    (Nat.lt_of_lt_of_eq hId' (by decide)) hHex

/- Text between the dots of a signed content. -/
structure Plain (text : List Char) : Prop where
  ascii : Ascii text
  undotted : '.' ∉ text

theorem plain_of_forall
    {text : List Char}
    (hText : ∀ c ∈ text, c.toNat < 128 ∧ c ≠ '.') :
    Plain text where
  ascii := fun c hc => (hText c hc).1
  undotted := fun hDot => (hText '.' hDot).2 rfl

theorem plain_uuidText (id : Uuid) :
    Plain (uuidText id) :=
  plain_of_forall
    (forall_mem_uuidText _ (by decide) (by decide) id)

theorem plain_signedPadded (n : Int) :
    Plain (Decimal.signedPadded 1 n) :=
  plain_of_forall
    (Decimal.forall_mem_signedPadded _
      (by decide) (by decide) 1 n)

/-
  The first dot ends the ID and the second the timestamp; a
  body may have dots of its own.
-/
theorem signedContent_injective
    {msgId msgId' ts ts' : List Char}
    {body body' : List UInt8}
    (hId : Plain msgId)
    (hId' : Plain msgId')
    (hTs : Plain ts)
    (hTs' : Plain ts')
    (hSame :
      signedContent (String.ofList msgId)
          (String.ofList ts) body =
        signedContent (String.ofList msgId')
          (String.ofList ts') body') :
    msgId = msgId' ∧ ts = ts' ∧ body = body' := by
  have hClear :
      ∀ text, Plain text → dot ∉ utf8 text :=
    fun text hText =>
      notMem_utf8 hText.ascii (by decide) hText.undotted
  rw [signedContent_eq, signedContent_eq,
    String.toList_ofList, String.toList_ofList,
    String.toList_ofList, String.toList_ofList] at hSame
  rcases split_at_first (hClear _ hId) (hClear _ hId')
    hSame with ⟨hIds, hRests⟩
  rcases split_at_first (hClear _ hTs) (hClear _ hTs')
    hRests with ⟨hTimes, hBodies⟩
  exact
    ⟨utf8_injective hId.ascii hId'.ascii hIds,
      utf8_injective hTs.ascii hTs'.ascii hTimes, hBodies⟩

------------------------------------------------------------
-- Deliveries
------------------------------------------------------------

/- Every request that is built is signed for its job. -/
theorem WebhookWorker.buildRequest_eq_ok
    {w : WebhookWorker}
    {j : Job}
    {p : WebhookPayload}
    (now : Time)
    (hKey :
      w.crypto.decodeString (trimPrefix secret "whsec_") =
        .ok key)
    (hSecret : w.webhookSecret j.tenantId = .ok secret)
    (hPayload : w.payloadOf j = .ok p)
    (hRequest : w.newRequest (requestMethod p) p.url = none) :
    ∃ req,
      w.buildRequest j now = .ok req ∧
        req.body = w.bodyOf p ∧
          Signed w.crypto key (uuidString j.id)
            (formatInt now.unix) req := by
  rcases signRequest_eq_ok hKey
      (jobHeader (w.range p.headers) (w.bodyOf p))
      (uuidString j.id) now (w.bodyOf p) with
    ⟨header, hHeader, hSigned⟩
  refine
    ⟨⟨requestMethod p, p.url, header, w.bodyOf p,
      p.timeout⟩, ?_, rfl, hSigned _ rfl rfl⟩
  unfold buildRequest
  simp only [hPayload, hSecret, hRequest, hHeader]
  rfl

/-
  Whatever headers a job has, what is sent has the job's ID
  as its only ID and, as its only signature, that of the
  text `id.timestamp.body` under the bytes drawn for the
  secret, so a receiver can verify it. Two contents that are
  signed are equal only for the same ID, second and body.
-/
theorem signatures_verify_unambiguously :
    (∀ (w : WebhookWorker)
        (read : Nat → Except String (List UInt8))
        (secret : String) (j : Job) (p : WebhookPayload)
        (now : Time),
        newWebhookSecret w.crypto read = .ok secret →
          w.webhookSecret j.tenantId = .ok secret →
            w.payloadOf j = .ok p →
              w.newRequest (requestMethod p) p.url = none →
                ∃ req b,
                  w.buildRequest j now = .ok req ∧
                    w.executeWebhook j now =
                      respond (w.send req) ∧
                    req.body = w.bodyOf p ∧
                    req.header.values "webhook-id" =
                      [uuidString j.id] ∧
                    req.header.values "webhook-timestamp" =
                      [formatInt now.unix] ∧
                    read 32 = .ok b ∧
                    req.header.values "webhook-signature" =
                      ["v1," ++
                        w.crypto.encodeToString
                          (w.crypto.hmac b
                            (receivedContent req))] ∧
                    verifies w.crypto secret req = true) ∧
      ∀ (id id' : Uuid) (sent sent' : Int)
        (body body' : List UInt8),
        id < 2 ^ 128 → id' < 2 ^ 128 →
          signedContent (uuidString id) (formatInt sent)
              body =
            signedContent (uuidString id') (formatInt sent')
              body' →
            id = id' ∧ sent = sent' ∧ body = body' := by
  constructor
  · intro w read secret j p now hNew hSecret hPayload
      hRequest
    rcases decodeString_of_newWebhookSecret hNew with
      ⟨b, hRead, hKey⟩
    rcases w.buildRequest_eq_ok now hKey hSecret hPayload
      hRequest with ⟨req, hBuilt, hBody, hSigned⟩
    refine
      ⟨req, b, hBuilt, ?_, hBody, hSigned.id,
        hSigned.timestamp, hRead, ?_,
        hSigned.verifies hKey⟩
    · unfold WebhookWorker.executeWebhook
      rw [hBuilt]
    · rw [hSigned.receivedContent_eq]
      exact hSigned.signature
  · intro id id' sent sent' body body' hId hId' hSame
    rcases signedContent_injective
        (plain_uuidText id) (plain_uuidText id')
        (plain_signedPadded sent) (plain_signedPadded sent')
        hSame with
      ⟨hIds, hTimes, hBodies⟩
    exact
      ⟨uuidText_injective hId hId' hIds,
        Decimal.signedPadded_injective hTimes, hBodies⟩

theorem ofNat_charOfNat (b : UInt8) :
    UInt8.ofNat (Char.ofNat b.toNat).toNat = b := by
  have hValid : b.toNat.isValidChar :=
    .inl (Nat.lt_trans (UInt8.toNat_lt b) (by decide))
  unfold Char.ofNat
  rw [dif_pos hValid]
  exact UInt8.ofNat_toNat

/- A stand-in that writes each byte as one character. -/
def Crypto.plain : Crypto where
  hmac := fun key message => key ++ message
  encodeToString := fun bytes =>
    String.ofList
      (bytes.map (fun b => Char.ofNat b.toNat))
  decodeString := fun s =>
    .ok (s.toList.map (fun c => UInt8.ofNat c.toNat))
  decodeString_encodeToString := by
    intro bytes
    rw [String.toList_ofList, List.map_map]
    apply congrArg Except.ok
    apply (List.map_congr_left _).trans (List.map_id bytes)
    intro b hb
    exact ofNat_charOfNat b

/- A payload with headers of a signature of its own. -/
def forgedDoc : Json :=
  .object
    [("url", .string "http://host"),
      ("headers",
        .object
          [("WEBHOOK-ID", .string "forged"),
            ("webhook-Signature", .string "v1,forged")]),
      ("body", .null)]

/- Stands in for the random generator. -/
def zeroes (n : Nat) : Except String (List UInt8) :=
  .ok (List.replicate n 0)

def forgedWorker : WebhookWorker where
  crypto := Crypto.plain
  secrets := fun _ =>
    (newWebhookSecret Crypto.plain zeroes).toOption
  getTenant := fun _ => .error "no rows"
  parse := fun _ => .ok forgedDoc
  raw := fun _ => [110, 117, 108, 108]
  range := List.reverse
  range_perm := List.reverse_perm
  newRequest := fun _ _ => none
  send := fun _ => .ok 200

/-
  The job's own fields are replaced, and a dot in a body is
  not taken for one of the two in front of it.
-/
theorem forged_signature_replaced :
    (∃ secret req b,
      newWebhookSecret Crypto.plain zeroes = .ok secret ∧
        forgedWorker.buildRequest (Storage.Sample.job 5) 0 =
          .ok req ∧
        req.header.values "webhook-id" = [uuidString 5] ∧
        zeroes 32 = .ok b ∧
        req.header.values "webhook-signature" =
          ["v1," ++
            Crypto.plain.encodeToString
              (b ++ receivedContent req)] ∧
        verifies Crypto.plain secret req = true) ∧
      signedContent (uuidString 5) (formatInt 1) [50, 46] ≠
        signedContent (uuidString 5) (formatInt 12) [46] := by
  rcases signatures_verify_unambiguously with
    ⟨hVerify, hInjective⟩
  have hPayload :
      forgedWorker.payloadOf (Storage.Sample.job 5) =
        .ok
          { WebhookPayload.zero with
            url := "http://host"
            headers :=
              [("WEBHOOK-ID", "forged"),
                ("webhook-Signature", "v1,forged")]
            body := some .null } :=
    rfl
  constructor
  · rcases hVerify forgedWorker zeroes _
        (Storage.Sample.job 5) _ 0 rfl rfl hPayload
        rfl with
      ⟨req, b, hBuilt, _, _, hId, _, hRead, hSignature,
        hVerifies⟩
    exact
      ⟨_, req, b, rfl, hBuilt, hId, hRead, hSignature,
        hVerifies⟩
  · intro hSame
    have hTimes : (1 : Int) = 12 :=
      (hInjective 5 5 1 12 _ _ (by decide) (by decide)
        hSame).2.1
    exact absurd hTimes (by decide)

end Worker

end Sluice
