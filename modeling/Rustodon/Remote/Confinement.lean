import Rustodon.Remote.Transport

/-! @src remote.rs | name:Confinement | scheme:traced computations | family:remote

    Whatever the world answers, each request of a redirect loop goes to a URL that has been checked
    for this hop, and only to addresses that it has been resolved to and that are not blocked. -/

namespace Rustodon.Remote
open Schemes.Checked Schemes.Traced Schemes.Utf8 Signatures

/-! ### Headers -/

theorem get_withHeaders (headers signed : HeaderMap) (name : Text) :
    (withHeaders headers signed).get name = (signed.get name).or (headers.get name) := by
  induction signed with
  | nil => rfl
  | cons header signed ih =>
    have hcons : withHeaders headers (header :: signed) =
        (withHeaders headers signed).insert header.1 header.2 := rfl
    have hget : HeaderMap.get (header :: signed) name =
        if name = header.1 then some header.2 else HeaderMap.get signed name := by
      rw [HeaderMap.get, HeaderMap.get, List.lookup_cons]
      by_cases heq : name = header.1
      · rw [if_pos heq, heq, beq_self_eq_true]
      · rw [if_neg heq, beq_false_of_ne heq]
    rw [hcons, hget]
    split_ifs with heq
    · rw [heq, lookup_insert_self]
      rfl
    · rw [lookup_insert _ _ _ heq, ih]

/-- The headers carry the host of the URL and the signature of a request for its path. -/
def SignedFor (env : UrlEnv) (crypto : Signatures.Env) (signer : HttpSignatureSigner)
    (request : Request) : Prop :=
  ∃ host hostValue signed signature, remoteRequestHost env request.url = .ok host ∧
    headerValue host = some hostValue ∧ signed.get "host".toList = some hostValue ∧
    signHttpSignature crypto ⟨request.method, remotePathAndQuery request.url, signed, request.body⟩
      signer = .ok signature ∧
    request.headers.get "host".toList = some hostValue ∧
    request.headers.get "signature".toList = headerValue signature

theorem withDigest_host {crypto : Signatures.Env} {method : Method} {body : Bytes}
    {headers signed : HeaderMap} (h : withDigest crypto method body headers = .ok signed) :
    signed.get "host".toList = headers.get "host".toList := by
  rw [withDigest] at h
  split_ifs at h
  · obtain ⟨digest, -, h⟩ := bind_eq_ok h
    obtain rfl := Except.ok.inj h
    exact lookup_insert _ _ _ (by decide)
  · obtain rfl := Except.ok.inj h
    rfl

theorem mapError_eq_ok {ε ε' α : Type} {x : Except ε α} {f : ε → ε'} {a : α}
    (h : x.mapError f = .ok a) : x = .ok a := by
  cases x with
  | error e => cases h
  | ok b => exact congrArg Except.ok (Except.ok.inj h)

theorem signedHeaders_spec {env : UrlEnv} {crypto : Signatures.Env} {method : Method} {url : Url}
    {date : Text} {body : Bytes} {signer : HttpSignatureSigner} {headers : HeaderMap}
    (h : signedHeaders env crypto method url date body signer = .ok headers) :
    ∃ host hostValue signed signature, remoteRequestHost env url = .ok host ∧
      headerValue host = some hostValue ∧ signed.get "host".toList = some hostValue ∧
      signHttpSignature crypto ⟨method, remotePathAndQuery url, signed, body⟩ signer = .ok signature ∧
      headers.get "host".toList = some hostValue ∧
      headers.get "signature".toList = headerValue signature ∧ (headerValue signature).isSome = true := by
  obtain ⟨host, hhost, h⟩ := bind_eq_ok h
  obtain ⟨hostValue, hvalue, h⟩ := bind_eq_ok h
  obtain ⟨dateValue, -, h⟩ := bind_eq_ok h
  obtain ⟨signed, hsigned, h⟩ := bind_eq_ok h
  obtain ⟨signature, hsignature, h⟩ := bind_eq_ok h
  obtain ⟨signatureValue, hsome, h⟩ := bind_eq_ok h
  obtain rfl := Except.ok.inj h
  have hostSigned := withDigest_host hsigned
  rw [lookup_insert _ _ _ (by decide), lookup_insert_self] at hostSigned
  refine ⟨host, hostValue, signed, signature, hhost, okOr_eq_ok hvalue, hostSigned,
    mapError_eq_ok hsignature, ?_, ?_, ?_⟩
  · rw [lookup_insert _ _ _ (by decide)]
    exact hostSigned
  · rw [lookup_insert_self]
    exact (okOr_eq_ok hsome).symm
  · rw [okOr_eq_ok hsome]
    rfl

theorem getHeaders_spec {env : UrlEnv} {crypto : Signatures.Env} {accepted : List Text}
    {signer : Option HttpSignatureSigner} {url : Url} {date : Text} {headers : HeaderMap}
    {addresses : List SocketAddr}
    (h : getHeaders env crypto accepted signer url date = .ok headers) :
    ∀ key, signer = some key → SignedFor env crypto key ⟨url, addresses, .get, headers, []⟩ := by
  rintro key rfl
  obtain ⟨host, -, h⟩ := bind_eq_ok h
  obtain ⟨signed, hsigned, h⟩ := bind_eq_ok h
  obtain ⟨hostHeader, -, h⟩ := bind_eq_ok h
  obtain ⟨accept, -, h⟩ := bind_eq_ok h
  obtain rfl := Except.ok.inj h
  obtain ⟨host, hostValue, headers, signature, hhost, hvalue, hget, hsign, hgetHost, hgetSignature, hsome⟩ :=
    signedHeaders_spec hsigned
  obtain ⟨signatureValue, hsignatureValue⟩ := Option.isSome_iff_exists.mp hsome
  refine ⟨host, hostValue, headers, signature, hhost, hvalue, hget, hsign, ?_, ?_⟩
  · rw [get_withHeaders, hgetHost]
    rfl
  · rw [get_withHeaders, hgetSignature, hsignatureValue]
    rfl

/-! ### Bodies -/

theorem readChunks_length {limit : ℕ} {chunks : List (Option Bytes)} {body result : Bytes}
    (hle : body.length ≤ limit) (h : readChunks limit body chunks = .ok result) :
    result.length ≤ limit := by
  induction chunks generalizing body with
  | nil =>
    obtain rfl := Except.ok.inj h
    exact hle
  | cons chunk chunks ih =>
    cases chunk with
    | none => cases h
    | some chunk =>
      rw [readChunks] at h
      split_ifs at h with hlong
      refine ih ?_ h
      rw [List.length_append]
      omega

/-- The limit in force is that of the response itself. -/
def WithinLimit (limits : RemoteFetchLimits) (mediaPolicy : Option RemoteMediaPolicy)
    (response : RemoteResponse) : Prop :=
  ∃ limit, responseLimit limits mediaPolicy response.contentType = .ok limit ∧
    response.body.length ≤ limit

theorem readRemoteResponse_spec {limits : RemoteFetchLimits} {response : Response} {url : Url}
    {accepted : List Text} {allowSuccess requireType : Bool} {mediaPolicy : Option RemoteMediaPolicy}
    {result : RemoteResponse}
    (h : readRemoteResponse limits response url accepted allowSuccess requireType mediaPolicy =
      .ok result) : WithinLimit limits mediaPolicy result := by
  obtain ⟨-, -, h⟩ := bind_eq_ok h
  obtain ⟨-, -, h⟩ := bind_eq_ok h
  obtain ⟨-, -, h⟩ := bind_eq_ok h
  obtain ⟨limit, hlimit, h⟩ := bind_eq_ok h
  obtain ⟨-, -, h⟩ := bind_eq_ok h
  obtain ⟨body, hbody, h⟩ := bind_eq_ok h
  obtain rfl := Except.ok.inj h
  exact ⟨limit, hlimit, readChunks_length (Nat.zero_le _) hbody⟩

/-! ### Requests -/

def isRequest : Event → Bool
  | .requested _ => true
  | _ => false

/-- The requests in a trace. -/
def requests (trace : List Event) : ℕ := trace.countP isRequest

/-- Where a request goes: to a URL without credentials and fragment, of the origin that is expected,
    and to the addresses that it is resolved to, none of them blocked. -/
structure Confined (env : UrlEnv) (hop : Hop) (expectedOrigin : Option Url) (request : Request) :
    Prop where
  valid : validateRemoteUrl request.url = .ok ()
  resolved : resolveRemoteAddresses (env.host request.url) request.url.portOrKnownDefault
    hop.lookupHost = .ok request.addresses
  few : request.addresses.length ≤ maxResolvedAddresses
  unblocked : ∀ address ∈ request.addresses, isBlockedIp address.ip = false
  origin : ∀ expected, expectedOrigin = some expected → sameOriginUrl request.url expected = true

theorem transportClient_spec {env : UrlEnv} {hop : Hop} {url : Url} {addresses : List SocketAddr}
    (h : transportClient env hop url = .ok addresses) :
    resolveRemoteAddresses (env.host url) url.portOrKnownDefault hop.lookupHost = .ok addresses ∧
      addresses.length ≤ maxResolvedAddresses ∧
      ∀ address ∈ addresses, isBlockedIp address.ip = false := by
  obtain ⟨-, -, h⟩ := bind_eq_ok h
  obtain ⟨addresses', hresolved, h⟩ := bind_eq_ok h
  obtain ⟨u, hvalid, h⟩ := bind_eq_ok h
  obtain ⟨-, -, h⟩ := bind_eq_ok h
  obtain rfl := Except.ok.inj h
  exact ⟨hresolved, resolveRemoteAddresses_length hresolved,
    (validateResolvedAddresses_spec hvalid).2⟩

section Loops

variable {limits : RemoteFetchLimits} {mediaPolicy : Option RemoteMediaPolicy} {env : UrlEnv}
  {crypto : Signatures.Env} {hops : ℕ → Hop}

/-- What an event of a GET needs behind those before it. The hop is that of the next request. -/
def getStep (env : UrlEnv) (crypto : Signatures.Env) (hops : ℕ → Hop) (expectedOrigin : Option Url)
    (signer : Option HttpSignatureSigner) (maxRedirects : ℕ) (before : List Event) : Event → Prop
  | .requested request => Confined env (hops (requests before)) expectedOrigin request ∧
      before.getLast? = some (.agreed request.url) ∧ requests before ≤ maxRedirects ∧
      ∀ key, signer = some key → SignedFor env crypto key request
  | .agreed url => (hops (requests before)).policy url = .ok ()
  | .answered _ => True

/-- What an event of a POST needs behind those before it. -/
def postStep (env : UrlEnv) (crypto : Signatures.Env) (hops : ℕ → Hop) (expectedOrigin : Url)
    (signer : HttpSignatureSigner) (maxRedirects : ℕ) (before : List Event) : Event → Prop
  | .requested request => Confined env (hops (requests before)) (some expectedOrigin) request ∧
      requests before ≤ maxRedirects ∧ SignedFor env crypto signer request ∧
      ∀ status, .answered status ∈ before → status = 307 ∨ status = 308
  | _ => True

/-- What each pass leaves to the passes behind it. -/
theorem redirectLoop_triple {step : List Event → Event → Prop} {P : ℕ → ℕ → List Event → Prop}
    {Q : RemoteResponse → Prop} {pass : ℕ → Bool → Url → Fetching RemoteFetchHop}
    (hpass : ∀ left count last url, Triple step (P left count) (pass count last url)
      fun hop before =>
        (∀ next left', hop = .redirect next → left = left' + 1 → P left' (count + 1) before) ∧
          ∀ response, hop = .response response → Q response)
    (left count : ℕ) (url : Url) :
    Triple step (P left count) (redirectLoop pass left count url) fun response _ => Q response := by
  induction left generalizing count url with
  | zero =>
    refine triple_bind (hpass 0 count true url) fun hop _ => ?_
    cases hop with
    | redirect next => exact triple_lift fun _ herror => nomatch herror
    | response response => exact triple_pure response fun before hbefore => hbefore.2 response rfl
  | succ left ih =>
    refine triple_bind (hpass (left + 1) count false url) fun hop _ => ?_
    cases hop with
    | redirect next =>
      exact (ih (count + 1) next).mono (fun before hbefore => hbefore.1 next left rfl rfl)
        fun _ _ h => h
    | response response => exact triple_pure response fun before hbefore => hbefore.2 response rfl

theorem nextUrl_redirect {url : Url} {response : Response} {hop : RemoteFetchHop}
    (h : nextUrl env url response = .ok hop) : ∃ next, hop = .redirect next := by
  obtain ⟨location, -, h⟩ := bind_eq_ok h
  obtain ⟨next, -, h⟩ := bind_eq_ok h
  exact ⟨next, (Except.ok.inj h).symm⟩

theorem requests_concat_requested (before : List Event) (request : Request) :
    requests (before ++ [.requested request]) = requests before + 1 :=
  List.countP_append

theorem requests_concat_agreed (before : List Event) (url : Url) :
    requests (before ++ [.agreed url]) = requests before := by
  rw [requests, List.countP_append]
  rfl

theorem requests_concat_answered (before : List Event) (status : ℕ) :
    requests (before ++ [.answered status]) = requests before := by
  rw [requests, List.countP_append]
  rfl

/-- So many requests have been sent, and so many redirects are left. -/
def Sent (maxRedirects left sent : ℕ) (before : List Event) : Prop :=
  requests before = sent ∧ sent + left ≤ maxRedirects + 1

/-- A hop sends one request, or none when it fails. -/
theorem getHop_triple {accepted : List Text} {expectedOrigin : Option Url}
    {signer : Option HttpSignatureSigner} {count left maxRedirects : ℕ} {last : Bool} {url : Url}
    (hvalid : validateRemoteUrl url = .ok ())
    (horigin : ∀ expected, expectedOrigin = some expected → sameOriginUrl url expected = true) :
    Triple (getStep env crypto hops expectedOrigin signer maxRedirects)
      (fun before => before.getLast? = some (.agreed url) ∧ Sent maxRedirects (left + 1) count before)
      (getHop limits mediaPolicy env crypto accepted signer (hops count) last url)
      (fun hop before => Sent maxRedirects left (count + 1) before ∧
        ∀ response, hop = .response response → WithinLimit limits mediaPolicy response) := by
  refine triple_bind triple_lift_keep fun _ _ => ?_
  refine triple_bind triple_lift_keep fun addresses hclient => ?_
  refine triple_bind triple_lift_keep fun headers hheaders => ?_
  obtain ⟨hresolved, hfew, hunblocked⟩ := transportClient_spec hclient
  refine triple_bind (Q := fun _ before => Sent maxRedirects left (count + 1) before)
    (triple_emit fun before hbefore => ?_) fun _ _ => ?_
  · obtain ⟨hlast, rfl, hle⟩ := hbefore
    refine ⟨⟨⟨hvalid, hresolved, hfew, hunblocked, horigin⟩, hlast, by omega,
      getHeaders_spec hheaders⟩, requests_concat_requested _ _, by omega⟩
  refine triple_bind triple_lift_keep fun response _ => ?_
  refine triple_bind (Q := fun _ before => Sent maxRedirects left (count + 1) before)
    (triple_emit fun before hbefore => ⟨trivial, ?_⟩) fun _ _ => ?_
  · rwa [Sent, requests_concat_answered]
  split_ifs
  · exact triple_lift fun hop hhop => nomatch hhop
  · refine triple_lift fun hop hhop before hbefore => ⟨hbefore, fun response' heq => ?_⟩
    obtain ⟨next, rfl⟩ := nextUrl_redirect hhop
    cases heq
  · refine triple_lift fun hop hhop before hbefore => ⟨hbefore, ?_⟩
    rintro response' rfl
    cases hread : readRemoteResponse limits response url accepted false true mediaPolicy with
    | error e =>
      rw [hread] at hhop
      cases hhop
    | ok result =>
      rw [hread] at hhop
      obtain rfl := RemoteFetchHop.response.inj (Except.ok.inj hhop)
      exact readRemoteResponse_spec hread

theorem failIf_origin {expectedOrigin : Option Url} {url : Url} {u : Unit}
    (h : failIf (expectedOrigin.any fun expected => !sameOriginUrl url expected)
      RemoteFetchError.originMismatch = .ok u) :
    ∀ expected, expectedOrigin = some expected → sameOriginUrl url expected = true := by
  rintro expected rfl
  have hsame := failIf_eq_ok h
  rwa [Option.any_some, Bool.not_eq_false'] at hsame

/-- The policy agrees before the request of a pass, and the origin is checked. -/
theorem getPass_triple {accepted : List Text} {expectedOrigin : Option Url}
    {signer : Option HttpSignatureSigner} {count left maxRedirects : ℕ} {last : Bool} {url : Url} :
    Triple (getStep env crypto hops expectedOrigin signer maxRedirects)
      (fun before => Sent maxRedirects (left + 1) count before)
      (getPass limits mediaPolicy env crypto accepted expectedOrigin signer (hops count) last url)
      (fun hop before => Sent maxRedirects left (count + 1) before ∧
        ∀ response, hop = .response response → WithinLimit limits mediaPolicy response) := by
  refine triple_bind triple_lift_keep fun _ hvalid => ?_
  refine triple_bind triple_lift_keep fun _ hpolicy => ?_
  refine triple_bind (Q := fun _ before => before.getLast? = some (.agreed url) ∧
    Sent maxRedirects (left + 1) count before) (triple_emit fun before hbefore => ?_) fun _ _ => ?_
  · obtain ⟨rfl, hle⟩ := hbefore
    exact ⟨hpolicy, List.getLast?_concat, requests_concat_agreed _ _, hle⟩
  exact triple_bind triple_lift_keep fun _ horigin => getHop_triple hvalid (failIf_origin horigin)

theorem getWithRedirects_triple {accepted : List Text} {expectedOrigin : Option Url}
    {signer : Option HttpSignatureSigner} {url : Url} :
    Triple (getStep env crypto hops expectedOrigin signer limits.maxRedirects)
      (fun before => Sent limits.maxRedirects (limits.maxRedirects + 1) 0 before)
      (getWithRedirects limits mediaPolicy env crypto hops accepted expectedOrigin signer url)
      (fun response _ => WithinLimit limits mediaPolicy response) := by
  refine redirectLoop_triple
    (P := fun left count before => Sent limits.maxRedirects (left + 1) count before)
    (fun left count last url => getPass_triple.mono (fun _ h => h) fun hop before hbefore =>
      ⟨fun next left' _ hleft => ?_, hbefore.2⟩) _ _ _
  rw [← hleft]
  exact hbefore.1

/-- Redirects with other statuses end the loop. -/
theorem postHop_triple {body : Bytes} {expectedOrigin : Url} {signer : HttpSignatureSigner}
    {count left maxRedirects : ℕ} {last : Bool} {url : Url}
    (hvalid : validateRemoteUrl url = .ok ()) (horigin : sameOriginUrl url expectedOrigin = true) :
    Triple (postStep env crypto hops expectedOrigin signer maxRedirects)
      (fun before => Sent maxRedirects (left + 1) count before ∧
        ∀ status, .answered status ∈ before → status = 307 ∨ status = 308)
      (postHop limits env crypto body signer (hops count) last url)
      (fun hop before => Sent maxRedirects left (count + 1) before ∧
        (∀ next, hop = .redirect next → ∀ status, .answered status ∈ before →
          status = 307 ∨ status = 308) ∧
        ∀ response, hop = .response response → WithinLimit limits none response) := by
  refine triple_bind triple_lift_keep fun _ _ => ?_
  refine triple_bind triple_lift_keep fun addresses hclient => ?_
  refine triple_bind triple_lift_keep fun headers hheaders => ?_
  obtain ⟨hresolved, hfew, hunblocked⟩ := transportClient_spec hclient
  have hsigned : SignedFor env crypto signer ⟨url, addresses, .post,
      headers.insert "content-type".toList (asBytes "application/activity+json".toList), body⟩ := by
    obtain ⟨host, hostValue, signed, signature, hhost, hvalue, hget, hsign, hgetHost, hgetSignature, -⟩ :=
      signedHeaders_spec hheaders
    refine ⟨host, hostValue, signed, signature, hhost, hvalue, hget, hsign, ?_, ?_⟩
    · rw [lookup_insert _ _ _ (by decide)]
      exact hgetHost
    · rw [lookup_insert _ _ _ (by decide)]
      exact hgetSignature
  refine triple_bind (Q := fun _ before => Sent maxRedirects left (count + 1) before ∧
      ∀ status, .answered status ∈ before → status = 307 ∨ status = 308)
    (triple_emit fun before hbefore => ?_) fun _ _ => ?_
  · obtain ⟨⟨rfl, hle⟩, hstatuses⟩ := hbefore
    refine ⟨⟨⟨hvalid, hresolved, hfew, hunblocked, fun expected hexpected => ?_⟩, by omega, hsigned,
      hstatuses⟩, ⟨requests_concat_requested _ _, by omega⟩, fun status hstatus => ?_⟩
    · obtain rfl := Option.some.inj hexpected
      exact horigin
    · rw [List.mem_append, List.mem_singleton] at hstatus
      exact hstatuses status (hstatus.resolve_right nofun)
  refine triple_bind triple_lift_keep fun response _ => ?_
  refine triple_bind (Q := fun _ before => Sent maxRedirects left (count + 1) before ∧
      ∀ status, .answered status ∈ before → status = 307 ∨ status = 308 ∨ status = response.status)
    (triple_emit fun before hbefore => ⟨trivial, ?_, fun status hstatus => ?_⟩) fun _ _ => ?_
  · rw [Sent, requests_concat_answered]
    exact hbefore.1
  · rw [List.mem_append, List.mem_singleton] at hstatus
    rcases hstatus with hstatus | hstatus
    · exact (hbefore.2 status hstatus).imp_right .inl
    · exact .inr (.inr (Event.answered.inj hstatus))
  split_ifs
  · exact triple_lift fun hop hhop => nomatch hhop
  · refine triple_bind triple_lift_keep fun _ hstatus => ?_
    have hredirect : response.status = 307 ∨ response.status = 308 := by
      have hboth := failIf_eq_ok hstatus
      rw [Bool.and_eq_false_iff, bne_eq_false_iff_eq, bne_eq_false_iff_eq] at hboth
      exact hboth
    refine triple_lift fun hop hhop before hbefore => ⟨hbefore.1, fun next _ status hmem => ?_, ?_⟩
    · rcases hbefore.2 status hmem with h | h | rfl
      · exact .inl h
      · exact .inr h
      · exact hredirect
    · rintro response' rfl
      obtain ⟨next, hnext⟩ := nextUrl_redirect hhop
      cases hnext
  · refine triple_lift fun hop hhop before hbefore => ?_
    cases hread : readRemoteResponse limits response url [] true false none with
    | error e =>
      rw [hread] at hhop
      cases hhop
    | ok result =>
      rw [hread] at hhop
      obtain rfl := Except.ok.inj hhop
      refine ⟨hbefore.1, nofun, fun response' heq => ?_⟩
      obtain rfl := RemoteFetchHop.response.inj heq
      exact readRemoteResponse_spec hread

theorem postPass_triple {body : Bytes} {expectedOrigin : Url} {signer : HttpSignatureSigner}
    {count left maxRedirects : ℕ} {last : Bool} {url : Url} :
    Triple (postStep env crypto hops expectedOrigin signer maxRedirects)
      (fun before => Sent maxRedirects (left + 1) count before ∧
        ∀ status, .answered status ∈ before → status = 307 ∨ status = 308)
      (postPass limits env crypto body expectedOrigin signer (hops count) last url)
      (fun hop before => Sent maxRedirects left (count + 1) before ∧
        (∀ next, hop = .redirect next → ∀ status, .answered status ∈ before →
          status = 307 ∨ status = 308) ∧
        ∀ response, hop = .response response → WithinLimit limits none response) := by
  refine triple_bind triple_lift_keep fun _ hvalid => ?_
  refine triple_bind triple_lift_keep fun _ horigin => ?_
  have hsame := failIf_eq_ok horigin
  rw [Bool.not_eq_false'] at hsame
  exact postHop_triple hvalid hsame

theorem postWithRedirects_triple {body : Bytes} {expectedOrigin : Url} {signer : HttpSignatureSigner}
    {url : Url} :
    Triple (postStep env crypto hops expectedOrigin signer limits.maxRedirects)
      (fun before => Sent limits.maxRedirects (limits.maxRedirects + 1) 0 before ∧
        ∀ status, .answered status ∈ before → status = 307 ∨ status = 308)
      (postWithRedirects limits env crypto hops body expectedOrigin signer url)
      (fun response _ => WithinLimit limits none response) := by
  refine redirectLoop_triple
    (P := fun left count before => Sent limits.maxRedirects (left + 1) count before ∧
      ∀ status, Event.answered status ∈ before → status = 307 ∨ status = 308)
    (fun left count last url => postPass_triple.mono (fun _ h => h) fun hop before hbefore =>
      ⟨fun next left' hnext hleft => ⟨?_, hbefore.2.1 next hnext⟩, hbefore.2.2⟩) _ _ _
  rw [← hleft]
  exact hbefore.1

end Loops

/-! ### Every fetch -/

/-- When each request comes behind few others, there are few. -/
theorem requests_le {n : ℕ} {trace : List Event}
    (h : ∀ init request rest, trace = init ++ .requested request :: rest → requests init ≤ n) :
    requests trace ≤ n + 1 := by
  induction trace using List.reverseRecOn with
  | nil => exact Nat.zero_le _
  | append_singleton trace event ih =>
    have hinit := ih fun init request rest hsplit =>
      h init request (rest ++ [event]) (by rw [hsplit, List.append_assoc, List.cons_append])
    cases event with
    | requested request =>
      rw [requests_concat_requested]
      exact Nat.succ_le_succ (h trace request [] rfl)
    | agreed url => rwa [requests_concat_agreed]
    | answered status => rwa [requests_concat_answered]

/-- CORRECT (Outbound requests): whatever the policy, DNS and the peers answer, each request goes to
    a URL of this hop that has been checked and that the policy has agreed to just before, to
    addresses of its resolution that are not blocked, and is signed for this URL; there is at most one
    request more than redirects, a body is sent again only after 307 and 308, and what is returned is
    within the limit. The addresses that embed a blocked IPv4 address are blocked. -/
theorem outbound_requests_confined (limits : RemoteFetchLimits)
    (mediaPolicy : Option RemoteMediaPolicy) (env : UrlEnv) (crypto : Signatures.Env)
    (hops : ℕ → Hop) :
    (∀ accepted expectedOrigin signer url,
      let fetch := getWithRedirects limits.bounded mediaPolicy env crypto hops accepted expectedOrigin
        signer url
      Allowed (getStep env crypto hops expectedOrigin signer limits.bounded.maxRedirects) []
        fetch.trace ∧
      requests fetch.trace ≤ limits.bounded.maxRedirects + 1 ∧
      ∀ response, fetch.result = .ok response → WithinLimit limits.bounded mediaPolicy response) ∧
    (∀ body expectedOrigin signer url,
      let fetch := postWithRedirects limits.bounded env crypto hops body expectedOrigin signer url
      Allowed (postStep env crypto hops expectedOrigin signer limits.bounded.maxRedirects) []
        fetch.trace ∧
      requests fetch.trace ≤ limits.bounded.maxRedirects + 1 ∧
      ∀ response, fetch.result = .ok response → WithinLimit limits.bounded none response) ∧
    (∀ hop url addresses, transportClient env hop url = .ok addresses →
      resolveRemoteAddresses (env.host url) url.portOrKnownDefault hop.lookupHost = .ok addresses ∧
        addresses.length ≤ maxResolvedAddresses ∧
        ∀ address ∈ addresses, isBlockedIp address.ip = false) ∧
    (∀ address, blockedIpv4 address = true → blockedIpv6 (ipv4Mapped address) = true ∧
      blockedIpv6 (ipv4Compatible address) = true ∧ blockedIpv6 (nat64 address) = true) ∧
    ∀ suffix, blockedIpv6 (nat64Local suffix) = true := by
  refine ⟨fun accepted expectedOrigin signer url => ?_, fun body expectedOrigin signer url => ?_,
    fun hop url addresses => transportClient_spec, fun address h =>
      ⟨blockedIpv6_mapped h, blockedIpv6_compatible h, blockedIpv6_nat64 address⟩,
    blockedIpv6_nat64Local⟩
  · obtain ⟨hallowed, hresult⟩ := @getWithRedirects_triple limits.bounded mediaPolicy env crypto hops
      accepted expectedOrigin signer url [] ⟨rfl, by omega⟩
    refine ⟨hallowed, requests_le fun init request rest hsplit => ?_, fun response => hresult response⟩
    exact (hallowed init (.requested request) rest hsplit).2.2.1
  · obtain ⟨hallowed, hresult⟩ := @postWithRedirects_triple limits.bounded env crypto hops body
      expectedOrigin signer url [] ⟨⟨rfl, by omega⟩, nofun⟩
    refine ⟨hallowed, requests_le fun init request rest hsplit => ?_, fun response => hresult response⟩
    exact (hallowed init (.requested request) rest hsplit).2.1

section Samples

def remoteUrl : Url := ⟨http, [], none, some "remote.example".toList, none, ['/'], none, none⟩

/-- Its only host is a name, and no location is a URL. -/
def nameEnv : UrlEnv where
  host url := url.host.map .domain
  join _ _ := none
  showIpv4 _ := []
  showIpv6 _ := []

def noCrypto : Signatures.Env where
  signRsaSha256 _ _ := .error .missingPrivateKey
  verifyRsaSha256 _ _ _ := .error .missingPublicKey
  sha256 body := body
  parseHttpDate _ := none

/-- Every name has one address, where two bytes are served. -/
def twoBytes : Hop where
  policy _ := .ok ()
  permit := .ok ()
  lookupHost _ port := some [⟨.v4 0x08080808, port⟩]
  clientBuilds := true
  date := []
  response := some ⟨200, none, none, none, none, [some [1, 2]]⟩

def sampleFetch : Fetching RemoteResponse :=
  getWithRedirects (RemoteFetchLimits.bounded ⟨0, 100, 9⟩) none nameEnv noCrypto (fun _ => twoBytes)
    [] none none remoteUrl

/-- Two bytes are returned, within the limit, after at most four requests. -/
theorem outbound_requests_confined_sample :
    WithinLimit (RemoteFetchLimits.bounded ⟨0, 100, 9⟩) none ⟨remoteUrl, 200, none, [1, 2]⟩ ∧
      requests sampleFetch.trace ≤ 4 ∧ blockedIpv6 (ipv4Mapped 0x7f000001) = true := by
  obtain ⟨hget, -, -, hembedded, -⟩ := outbound_requests_confined ⟨0, 100, 9⟩ none nameEnv noCrypto
    fun _ => twoBytes
  obtain ⟨-, hcount, hresult⟩ := hget [] none none remoteUrl
  exact ⟨hresult _ (by decide), hcount, (hembedded 0x7f000001 (by decide)).1⟩

end Samples

end Rustodon.Remote
