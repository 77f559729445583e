import Rustodon.Signatures.Http

/-! @src mastodon/signatures.rs | name:What an accepted signature says | scheme:utf8-text |
    family:signatures

    Whatever `verify_http_signature` accepts is signed by the resolved key, covers the headers it
    must cover, matches the body and is fresh. The parameter `expires` can only shorten the time a
    request is accepted, as long as the `Signature` header is not one of the signed headers. -/

namespace Rustodon.Signatures
open Schemes.Checked Schemes.Utf8

/-- What is known of an accepted request: the parameters of its `Signature` header and what follows
    from each of them. -/
structure Sound (env : Env) (request : HttpSignatureRequest) (key : HttpSignatureKey) (now : ℤ)
    (verified : VerifiedHttpSignature) (parameters : Parameters) (signature : Bytes) : Prop where
  parsed : ∃ value raw, request.headers.get "signature".toList = some value ∧
    toStr value = some raw ∧ parseSignatureHeader raw = .ok parameters
  keyId : parameters.get "keyId" = some key.keyId ∧ verified.keyId = key.keyId
  algorithm : parameters.get "algorithm" = some Signatures.algorithm
  headers : ∃ list, parameters.get "headers" = some list ∧
    normalizeSignedHeadersStr list = .ok verified.signedHeaders
  decoded : ∃ text, parameters.get "signature" = some text ∧
    Schemes.Base64.decode text = some signature
  signed : ∃ query message,
    buildSignedString request verified.signedHeaders query = .ok message ∧
    env.verifyRsaSha256 key.publicKeyPem message signature = .ok ()
  date : "date".toList ∈ verified.signedHeaders
  host : request.method = .get → "host".toList ∈ verified.signedHeaders
  digest : request.method = .post → "digest".toList ∈ verified.signedHeaders
  body : "digest".toList ∈ verified.signedHeaders → ∃ text,
    headerText request "digest".toList = .ok text ∧
    receivedDigest text = some (Schemes.Base64.encode (env.sha256 request.body))
  fresh : ∃ text created, headerText request "date".toList = .ok text ∧
    env.parseHttpDate text = some created ∧ created - clockSkewMargin ≤ now ∧
    now ≤ created + defaultExpirationWindow + clockSkewMargin

/-- Two requests that differ at most in their `Signature` headers. -/
structure SameButSignature (request request' : HttpSignatureRequest) : Prop where
  method : request'.method = request.method
  path : request'.pathAndQuery = request.pathAndQuery
  body : request'.body = request.body
  headers : ∀ name, name ≠ "signature".toList →
    request'.headers.get name = request.headers.get name

/-- Two requests that differ only in the parameter `expires` of their signatures, which the first
    one does not have. -/
structure DiffersInExpires (request request' : HttpSignatureRequest)
    (parameters parameters' : Parameters) : Prop extends SameButSignature request request' where
  parsed : ∃ value raw, request.headers.get "signature".toList = some value ∧
    toStr value = some raw ∧ parseSignatureHeader raw = .ok parameters
  parsed' : ∃ value raw, request'.headers.get "signature".toList = some value ∧
    toStr value = some raw ∧ parseSignatureHeader raw = .ok parameters'
  other : ∀ name, name ≠ "expires" → parameters'.get name = parameters.get name
  without : parameters.get "expires" = none

/-- The signed headers do not include the `Signature` header itself. -/
def SignatureUnsigned (parameters : Parameters) : Prop :=
  ∀ list signedHeaders, parameters.get "headers" = some list →
    normalizeSignedHeadersStr list = .ok signedHeaders → "signature".toList ∉ signedHeaders

variable {env : Env} {request request' : HttpSignatureRequest} {key : HttpSignatureKey} {now : ℤ}
  {signedHeaders : List Text}

/-! ### The checks -/

theorem verifySignatureStrength_ok {u : Unit}
    (h : verifySignatureStrength request signedHeaders = .ok u) :
    "date".toList ∈ signedHeaders ∧
      (request.method = .get → "host".toList ∈ signedHeaders) ∧
      (request.method = .post → "digest".toList ∈ signedHeaders) := by
  obtain ⟨_, hdate, h⟩ := bind_eq_ok h
  obtain ⟨-, -, h⟩ := bind_eq_ok h
  obtain ⟨_, hhost, h⟩ := bind_eq_ok h
  have hdate := failIf_eq_ok hdate
  have hhost := failIf_eq_ok hhost
  have hdigest := failIf_eq_ok h
  refine ⟨by simpa using hdate, fun hget => ?_, fun hpost => ?_⟩
  · simpa [hget] using hhost
  · simpa [hpost] using hdigest

/-- The time window, with any `expires` at all. -/
theorem verifyTimeWindow_ok {expires : Option Text} {u : Unit}
    (h : verifyTimeWindow env request signedHeaders expires now = .ok u) :
    ∃ text created, headerText request "date".toList = .ok text ∧
      env.parseHttpDate text = some created ∧ created - clockSkewMargin ≤ now ∧
      now ≤ created + defaultExpirationWindow + clockSkewMargin := by
  obtain ⟨-, -, h⟩ := bind_eq_ok h
  obtain ⟨text, htext, h⟩ := bind_eq_ok h
  obtain ⟨created, hcreated, h⟩ := bind_eq_ok h
  obtain ⟨_, hearly, h⟩ := bind_eq_ok h
  obtain ⟨instant, -, h⟩ := bind_eq_ok h
  have hearly := of_decide_eq_false (failIf_eq_ok hearly)
  have hlate := of_decide_eq_false (failIf_eq_ok h)
  refine ⟨text, created, htext, okOr_eq_ok hcreated, by omega, ?_⟩
  have hmin : ((instant.map fun expires => min expires (created + defaultExpirationWindow)).getD
      (created + defaultExpirationWindow)) ≤ created + defaultExpirationWindow := by
    cases instant with
    | none => exact Int.le_refl _
    | some expires => exact Int.min_le_right _ _
  omega

/-- Without `expires` the default window decides. -/
theorem verifyTimeWindow_without {text : Text} {created : ℤ} (hdate : "date".toList ∈ signedHeaders)
    (htext : headerText request "date".toList = .ok text)
    (hcreated : env.parseHttpDate text = some created) (hearly : created - clockSkewMargin ≤ now)
    (hlate : now ≤ created + defaultExpirationWindow + clockSkewMargin) :
    verifyTimeWindow env request signedHeaders none now = .ok () := by
  have hcontains : signedHeaders.contains "date".toList = true := by simpa using hdate
  rw [verifyTimeWindow, hcontains, htext]
  simp only [Bool.not_true, failIf_false, ok_bind, hcreated, okOr_some_bind, Option.mapM_none,
    pure_bind, Option.map_none, Option.getD_none]
  have hearly' : decide (now + clockSkewMargin < created) = false := by simp; omega
  have hlate' : decide (created + defaultExpirationWindow + clockSkewMargin < now) = false := by
    simp; omega
  rw [hearly', hlate']
  rfl

theorem verifyBodyDigest_ok {u : Unit} (h : verifyBodyDigest env request signedHeaders = .ok u)
    (hdigest : "digest".toList ∈ signedHeaders) : ∃ text,
      headerText request "digest".toList = .ok text ∧
      receivedDigest text = some (Schemes.Base64.encode (env.sha256 request.body)) := by
  have hcontains : signedHeaders.contains "digest".toList = true := by simpa using hdigest
  simp only [verifyBodyDigest, hcontains, Bool.not_true, Bool.false_eq_true, if_false] at h
  obtain ⟨text, htext, h⟩ := bind_eq_ok h
  obtain ⟨received, hreceived, h⟩ := bind_eq_ok h
  refine ⟨text, htext, ?_⟩
  rw [okOr_eq_ok hreceived]
  by_cases heq : received = (bodyDigestHeader env request.body).drop "SHA-256=".toList.length
  · exact congrArg some (heq.trans List.drop_left)
  · rw [if_neg heq] at h
    obtain ⟨_, -, h⟩ := bind_eq_ok h
    obtain ⟨_, -, h⟩ := bind_eq_ok h
    cases h

theorem verifySignature_ok {keyId : Text} {signature : Bytes} {verified : VerifiedHttpSignature}
    (h : verifySignature env request key keyId signedHeaders signature = .ok verified) :
    verified = ⟨keyId, signedHeaders⟩ ∧ ∃ query message,
      buildSignedString request signedHeaders query = .ok message ∧
      env.verifyRsaSha256 key.publicKeyPem message signature = .ok () := by
  rw [verifySignature] at h
  obtain ⟨message, hmessage, h⟩ := bind_eq_ok h
  cases hrsa : env.verifyRsaSha256 key.publicKeyPem message signature with
  | ok u =>
    rw [hrsa] at h
    exact ⟨(Except.ok.inj h).symm, true, message, hmessage, hrsa⟩
  | error e =>
    rw [hrsa] at h
    cases e with
    | signatureVerificationFailed =>
      cases hquery : contains "?".toList request.pathAndQuery with
      | false =>
        rw [hquery] at h
        exact absurd h (by simp)
      | true =>
        rw [hquery] at h
        obtain ⟨message', hmessage', h⟩ := bind_eq_ok h
        cases hrsa' : env.verifyRsaSha256 key.publicKeyPem message' signature with
        | ok u =>
          rw [hrsa'] at h
          exact ⟨(Except.ok.inj h).symm, false, message', hmessage', hrsa'⟩
        | error e =>
          rw [hrsa'] at h
          exact absurd h (by simp)
    | _ => exact absurd h (by simp)

/-- What the parameters of an accepted request say. -/
theorem verifyParameters_ok {parameters : Parameters} {verified : VerifiedHttpSignature}
    (h : verifyParameters env request key now parameters = .ok verified) :
    ∃ list signedHeaders text signature,
      parameters.get "keyId" = some key.keyId ∧
      validateKeyId key.keyId = .ok () ∧
      parameters.get "algorithm" = some Signatures.algorithm ∧
      parameters.get "headers" = some list ∧
      normalizeSignedHeadersStr list = .ok signedHeaders ∧
      parameters.get "signature" = some text ∧
      Schemes.Base64.decode text = some signature ∧
      verifySignatureStrength request signedHeaders = .ok () ∧
      verifyTimeWindow env request signedHeaders (parameters.get "expires") now = .ok () ∧
      verifyBodyDigest env request signedHeaders = .ok () ∧
      verifySignature env request key key.keyId signedHeaders signature = .ok verified := by
  obtain ⟨keyId, hkeyId, h⟩ := bind_eq_ok h
  obtain ⟨_, hsame, h⟩ := bind_eq_ok h
  obtain rfl : keyId = key.keyId := by simpa using failIf_eq_ok hsame
  obtain ⟨_, hvalid, h⟩ := bind_eq_ok h
  obtain ⟨_, halgorithm, h⟩ := bind_eq_ok h
  obtain ⟨list, hlist, h⟩ := bind_eq_ok h
  obtain ⟨signedHeaders, hheaders, h⟩ := bind_eq_ok h
  obtain ⟨text, htext, h⟩ := bind_eq_ok h
  obtain ⟨signature, hsignature, h⟩ := bind_eq_ok h
  obtain ⟨_, hstrength, h⟩ := bind_eq_ok h
  obtain ⟨_, hwindow, h⟩ := bind_eq_ok h
  obtain ⟨_, hdigest, h⟩ := bind_eq_ok h
  exact ⟨list, signedHeaders, text, signature, okOr_eq_ok hkeyId, hvalid,
    by simpa using failIf_eq_ok halgorithm, okOr_eq_ok hlist, hheaders, okOr_eq_ok htext,
    okOr_eq_ok hsignature, hstrength, hwindow, hdigest, h⟩

/-- Parameters that pass the checks leave the signature to be verified. -/
theorem verifyParameters_eq {parameters : Parameters} {list text : Text} {signature : Bytes}
    (hkeyId : parameters.get "keyId" = some key.keyId) (hvalid : validateKeyId key.keyId = .ok ())
    (halgorithm : parameters.get "algorithm" = some Signatures.algorithm)
    (hlist : parameters.get "headers" = some list)
    (hheaders : normalizeSignedHeadersStr list = .ok signedHeaders)
    (htext : parameters.get "signature" = some text)
    (hdecoded : Schemes.Base64.decode text = some signature)
    (hstrength : verifySignatureStrength request signedHeaders = .ok ())
    (hwindow : verifyTimeWindow env request signedHeaders (parameters.get "expires") now = .ok ())
    (hdigest : verifyBodyDigest env request signedHeaders = .ok ()) :
    verifyParameters env request key now parameters =
      verifySignature env request key key.keyId signedHeaders signature := by
  simp only [verifyParameters, hkeyId, okOr_some_bind, bne_self_eq_false, failIf_false, ok_bind,
    hvalid, halgorithm, hlist, hheaders, htext, hdecoded, hstrength, hwindow, hdigest]

theorem verifyHttpSignature_ok {verified : VerifiedHttpSignature}
    (h : verifyHttpSignature env request key now = .ok verified) :
    request.headers.get "signature-input".toList = none ∧
    ∃ value raw parameters, request.headers.get "signature".toList = some value ∧
      toStr value = some raw ∧ parseSignatureHeader raw = .ok parameters ∧
      verifyParameters env request key now parameters = .ok verified := by
  obtain ⟨_, hinput, h⟩ := bind_eq_ok h
  obtain ⟨value, hvalue, h⟩ := bind_eq_ok h
  obtain ⟨raw, hraw, h⟩ := bind_eq_ok h
  obtain ⟨parameters, hparameters, h⟩ := bind_eq_ok h
  exact ⟨by simpa using failIf_eq_ok hinput, value, raw, parameters, okOr_eq_ok hvalue,
    okOr_eq_ok hraw, hparameters, h⟩

/-- An accepted request is sound. -/
theorem sound_of_ok {verified : VerifiedHttpSignature}
    (h : verifyHttpSignature env request key now = .ok verified) :
    ∃ parameters signature, Sound env request key now verified parameters signature := by
  obtain ⟨-, value, raw, parameters, hvalue, hraw, hparsed, h⟩ := verifyHttpSignature_ok h
  obtain ⟨list, signedHeaders, text, signature, hkeyId, -, halgorithm, hlist, hheaders, htext,
    hdecoded, hstrength, hwindow, hdigest, hsigned⟩ := verifyParameters_ok h
  obtain ⟨rfl, hmessage⟩ := verifySignature_ok hsigned
  obtain ⟨hdate, hhost, hpost⟩ := verifySignatureStrength_ok hstrength
  exact ⟨parameters, signature,
    { parsed := ⟨value, raw, hvalue, hraw, hparsed⟩
      keyId := ⟨hkeyId, rfl⟩
      algorithm := halgorithm
      headers := ⟨list, hlist, hheaders⟩
      decoded := ⟨text, htext, hdecoded⟩
      signed := hmessage
      date := hdate
      host := hhost
      digest := hpost
      body := verifyBodyDigest_ok hdigest
      fresh := verifyTimeWindow_ok hwindow }⟩

/-! ### Requests with different signatures -/

theorem SameButSignature.headerText (h : SameButSignature request request') {name : Text}
    (hname : name ≠ "signature".toList) : headerText request' name = headerText request name := by
  rw [Signatures.headerText, Signatures.headerText, h.headers name hname]

theorem SameButSignature.buildSignedString (h : SameButSignature request request')
    (hunsigned : "signature".toList ∉ signedHeaders) (query : Bool) :
    buildSignedString request' signedHeaders query =
      buildSignedString request signedHeaders query := by
  have hvalue : ∀ header ∈ signedHeaders,
      signedValue request' query header = signedValue request query header := by
    intro header hmem
    rw [signedValue, signedValue, h.method, h.path,
      h.headerText fun heq => hunsigned (heq ▸ hmem)]
  rw [Signatures.buildSignedString, Signatures.buildSignedString]
  refine congrArg (· >>= _) ?_
  clear hunsigned
  induction signedHeaders with
  | nil => rfl
  | cons header rest ih =>
    rw [List.mapM_cons, List.mapM_cons, hvalue header (List.mem_cons_self ..),
      ih fun header' hmem => hvalue header' (List.mem_cons_of_mem _ hmem)]

theorem SameButSignature.verifySignatureStrength (h : SameButSignature request request') :
    verifySignatureStrength request' signedHeaders =
      verifySignatureStrength request signedHeaders := by
  rw [Signatures.verifySignatureStrength, Signatures.verifySignatureStrength, h.method]

theorem SameButSignature.verifyTimeWindow (h : SameButSignature request request')
    (expires : Option Text) :
    verifyTimeWindow env request' signedHeaders expires now =
      verifyTimeWindow env request signedHeaders expires now := by
  rw [Signatures.verifyTimeWindow, Signatures.verifyTimeWindow, h.headerText (by decide)]

theorem SameButSignature.verifyBodyDigest (h : SameButSignature request request') :
    verifyBodyDigest env request' signedHeaders = verifyBodyDigest env request signedHeaders := by
  rw [Signatures.verifyBodyDigest, Signatures.verifyBodyDigest, h.headerText (by decide), h.body]

theorem SameButSignature.verifySignature (h : SameButSignature request request')
    (hunsigned : "signature".toList ∉ signedHeaders) (keyId : Text) (signature : Bytes) :
    verifySignature env request' key keyId signedHeaders signature =
      verifySignature env request key keyId signedHeaders signature := by
  rw [Signatures.verifySignature, Signatures.verifySignature, h.buildSignedString hunsigned,
    h.buildSignedString hunsigned, h.path]

/-! ### `expires` -/

variable {parameters parameters' : Parameters}

/-- A request whose signature is not itself signed is accepted without `expires` when it is accepted
    with it. -/
theorem ok_without_expires (h : DiffersInExpires request request' parameters parameters')
    (hunsigned : SignatureUnsigned parameters) {verified : VerifiedHttpSignature}
    (hok : verifyHttpSignature env request' key now = .ok verified) :
    verifyHttpSignature env request key now = .ok verified := by
  obtain ⟨hinput, value, raw, p, hvalue, hraw, hparsed, hok⟩ := verifyHttpSignature_ok hok
  obtain ⟨value₁, raw₁, hvalue₁, hraw₁, hparsed₁⟩ := h.parsed'
  obtain rfl : p = parameters' := by
    obtain rfl := Option.some.inj (hvalue.symm.trans hvalue₁)
    obtain rfl := Option.some.inj (hraw.symm.trans hraw₁)
    exact Except.ok.inj (hparsed.symm.trans hparsed₁)
  obtain ⟨list, signedHeaders, text, signature, hkeyId, hvalid, halgorithm, hlist, hheaders, htext,
    hdecoded, hstrength, hwindow, hdigest, hsigned⟩ := verifyParameters_ok hok
  rw [h.other _ (by decide)] at hkeyId halgorithm hlist htext
  have hnotin := hunsigned list signedHeaders hlist hheaders
  -- the checks read nothing that differs
  rw [h.verifySignatureStrength] at hstrength
  rw [h.verifyBodyDigest] at hdigest
  rw [h.verifySignature hnotin] at hsigned
  rw [h.verifyTimeWindow] at hwindow
  have hwindow' :
      verifyTimeWindow env request signedHeaders (parameters.get "expires") now = .ok () := by
    obtain ⟨date, created, hdate, hcreated, hearly, hlate⟩ := verifyTimeWindow_ok hwindow
    rw [h.without]
    exact verifyTimeWindow_without (verifySignatureStrength_ok hstrength).1 hdate hcreated hearly
      hlate
  obtain ⟨value₂, raw₂, hvalue₂, hraw₂, hparsed₂⟩ := h.parsed
  rw [h.headers _ (by decide)] at hinput
  rw [verifyHttpSignature, hinput, Option.isSome_none, failIf_false, ok_bind, hvalue₂,
    okOr_some_bind, hraw₂, okOr_some_bind, hparsed₂, ok_bind,
    verifyParameters_eq hkeyId hvalid halgorithm hlist hheaders htext hdecoded hstrength hwindow'
      hdigest, hsigned]

/-- CORRECT (soundness): an accepted request is sound; and when the signature is not itself signed,
    no `expires` makes a request accepted that is not accepted without it. -/
theorem verifyHttpSignature_sound (env : Env) (request : HttpSignatureRequest)
    (key : HttpSignatureKey) (now : ℤ) :
    (∀ verified, verifyHttpSignature env request key now = .ok verified →
      ∃ parameters signature, Sound env request key now verified parameters signature) ∧
    (∀ request' parameters parameters', DiffersInExpires request request' parameters parameters' →
      SignatureUnsigned parameters → ∀ verified,
        verifyHttpSignature env request' key now = .ok verified →
        verifyHttpSignature env request key now = .ok verified) :=
  ⟨fun _ h => sound_of_ok h, fun _ _ _ h hunsigned _ hok => ok_without_expires h hunsigned hok⟩

/-- A request to `/` at the epoch, with a given `Signature` header. -/
def epochRequest (signature : Text) : HttpSignatureRequest where
  method := .get
  pathAndQuery := "/".toList
  headers := [("host".toList, asBytes "r.example".toList),
    ("date".toList, asBytes "Thu, 01 Jan 1970 00:00:00 GMT".toList),
    ("signature".toList, asBytes signature)]
  body := []

/-- Its signature over some headers. -/
def epochSignature (headers : String) : Text :=
  "keyId=\"k\",algorithm=\"rsa-sha256\",headers=\"".toList ++ headers.toList ++
    "\",signature=\"AAAA\"".toList

def epochParameters (headers : String) : Parameters :=
  [("keyId".toList, "k".toList), ("algorithm".toList, algorithm),
    ("headers".toList, headers.toList), ("signature".toList, "AAAA".toList)]

/-- A key that verifies the messages that contain a text, and a date at the epoch. -/
def epochEnv (accepted : String) : Env where
  signRsaSha256 _ _ := .error .missingPrivateKey
  verifyRsaSha256 _ message _ :=
    if contains accepted.toList message then .ok () else .error .signatureVerificationFailed
  sha256 _ := []
  parseHttpDate date := if date = "Thu, 01 Jan 1970 00:00:00 GMT".toList then some 0 else none

theorem parameters_get_concat {parameters : Parameters} {name other : String} {value : Text}
    (hne : name ≠ other) :
    Parameters.get (parameters ++ [(other.toList, value)]) name = parameters.get name := by
  have hkeys : name.toList ≠ other.toList := fun heq => hne (String.toList_inj.mp heq)
  rw [Parameters.get, Parameters.get, List.lookup_append, List.lookup_cons, beq_false_of_ne hkeys]
  cases parameters.lookup name.toList <;> rfl

theorem epochRequest_headers (signature signature' name : Text) (h : name ≠ "signature".toList) :
    (epochRequest signature').headers.get name = (epochRequest signature).headers.get name := by
  simp only [epochRequest, HeaderMap.get, List.lookup_cons, beq_false_of_ne h]

/-- The epoch request with and without `expires`. -/
theorem epoch_differs (headers : String)
    (hparsed : parseSignatureHeader (epochSignature headers) = .ok (epochParameters headers) ∧
      toStr (asBytes (epochSignature headers)) = some (epochSignature headers))
    (hparsed' : parseSignatureHeader (epochSignature headers ++ ",expires=100".toList) =
        .ok (epochParameters headers ++ [("expires".toList, "100".toList)]) ∧
      toStr (asBytes (epochSignature headers ++ ",expires=100".toList)) =
        some (epochSignature headers ++ ",expires=100".toList)) :
    DiffersInExpires (epochRequest (epochSignature headers))
      (epochRequest (epochSignature headers ++ ",expires=100".toList)) (epochParameters headers)
      (epochParameters headers ++ [("expires".toList, "100".toList)]) where
  method := rfl
  path := rfl
  body := rfl
  headers name h := epochRequest_headers _ _ name h
  parsed := ⟨_, _, rfl, hparsed.2, hparsed.1⟩
  parsed' := ⟨_, _, rfl, hparsed'.2, hparsed'.1⟩
  other _ h := parameters_get_concat h
  without := rfl

theorem verifyHttpSignature_sound_epoch :
    verifyHttpSignature (epochEnv "host: r.example")
        (epochRequest (epochSignature "host date (request-target)")) ⟨"k".toList, []⟩ 0 =
      .ok ⟨"k".toList, ["host".toList, "date".toList, requestTarget]⟩ ∧
    ∃ parameters signature, Sound (epochEnv "host: r.example")
      (epochRequest (epochSignature "host date (request-target)")) ⟨"k".toList, []⟩ 0
      ⟨"k".toList, ["host".toList, "date".toList, requestTarget]⟩ parameters signature := by
  obtain ⟨hsound, hmono⟩ := verifyHttpSignature_sound (epochEnv "host: r.example")
    (epochRequest (epochSignature "host date (request-target)")) ⟨"k".toList, []⟩ 0
  have hok := hmono _ _ _ (epoch_differs "host date (request-target)"
    ⟨by decide, by decide⟩ ⟨by decide, by decide⟩)
    (fun list signedHeaders hlist hheaders => by
      obtain rfl := Option.some.inj hlist
      obtain rfl : ["host".toList, "date".toList, requestTarget] = signedHeaders :=
        Except.ok.inj hheaders
      decide)
    ⟨"k".toList, ["host".toList, "date".toList, requestTarget]⟩ (by decide)
  exact ⟨hok, hsound _ hok⟩

/-- A signature that covers the `Signature` header covers `expires`: then a request can be accepted
    with it and not without it. -/
theorem expires_signed :
    ¬ ∀ (env : Env) (request request' : HttpSignatureRequest) (key : HttpSignatureKey) (now : ℤ)
      (parameters parameters' : Parameters) (verified : VerifiedHttpSignature),
      DiffersInExpires request request' parameters parameters' →
      verifyHttpSignature env request' key now = .ok verified →
      ∃ verified', verifyHttpSignature env request key now = .ok verified' := by
  intro h
  obtain ⟨verified', hok⟩ := h (epochEnv "expires") _ _ ⟨"k".toList, []⟩ 0 _ _
    ⟨"k".toList, ["host".toList, "date".toList, requestTarget, "signature".toList]⟩
    (epoch_differs "host date (request-target) signature"
      ⟨by decide, by decide⟩ ⟨by decide, by decide⟩)
    (by set_option maxRecDepth 4000 in decide)
  have hno : verifyHttpSignature (epochEnv "expires")
      (epochRequest (epochSignature "host date (request-target) signature")) ⟨"k".toList, []⟩ 0 =
      .error .signatureMismatch := by set_option maxRecDepth 4000 in decide
  rw [hno] at hok
  exact absurd hok (by simp)

end Rustodon.Signatures
