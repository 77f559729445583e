import Mathlib.Data.List.SplitOn
import Rustodon.Remote.Addresses
import Rustodon.Schemes.Traced
import Rustodon.Signatures.Http

/-! @src remote.rs | name:Transport | scheme:traced computations | family:remote

    The two redirect loops, with a trace of the requests that they send. Looking up hosts, opening
    connections and answering requests is left to the world, which may do anything at each hop. -/

namespace Rustodon.Remote
open Schemes.Checked Schemes.Traced Schemes.Utf8 Signatures

/-! ### Limits -/

structure RemoteFetchLimits where
  maxRequestBytes : ℕ
  maxResponseBytes : ℕ
  maxRedirects : ℕ
  deriving DecidableEq, Repr

def maxConfiguredBytes : ℕ := 16 * 1024 * 1024

def maxConfiguredRedirects : ℕ := 3

def RemoteFetchLimits.bounded (limits : RemoteFetchLimits) : RemoteFetchLimits where
  maxRequestBytes := min (max limits.maxRequestBytes 1) maxConfiguredBytes
  maxResponseBytes := min (max limits.maxResponseBytes 1) maxConfiguredBytes
  maxRedirects := min limits.maxRedirects maxConfiguredRedirects

/-! ### Media types -/

def imageSizeLimit : ℕ := 16 * 1024 * 1024

def audioVideoSizeLimit : ℕ := 99 * 1024 * 1024

/-- `ALL_MEDIA_MIME_TYPES`, each with the `input_size_limit` of its format. -/
def allMediaMimeTypes : List (Text × ℕ) :=
  ["image/jpeg", "image/png", "image/gif", "image/heic", "image/heif", "image/webp",
    "image/avif"].map (fun name => (name.toList, imageSizeLimit)) ++
  ["video/webm", "video/mp4", "video/quicktime", "video/ogg", "audio/wave", "audio/wav",
    "audio/x-wav", "audio/x-pn-wave", "audio/vnd.wave", "audio/ogg", "audio/vorbis", "audio/mpeg",
    "audio/mp3", "audio/webm", "audio/flac", "audio/aac", "audio/m4a", "audio/x-m4a", "audio/mp4",
    "audio/3gpp", "video/x-ms-asf"].map fun name => (name.toList, audioVideoSizeLimit)

/-- The part of a header value in front of the first semicolon. -/
def essence (value : Text) : Text := trim (value.takeWhile (· != ';'))

def normalizedMediaMime (value : Text) : Option (Text × ℕ) :=
  allMediaMimeTypes.find? fun supported => eqIgnoreAsciiCase supported.1 (essence value)

/-- The MIME type that has been advertised, if any. -/
structure RemoteMediaPolicy where
  advertised : Option Text
  deriving DecidableEq, Repr

def RemoteMediaPolicy.new (advertised : Option Text) : Option RemoteMediaPolicy :=
  match advertised with
  | none => some ⟨none⟩
  | some value => (normalizedMediaMime value).map fun supported => ⟨some supported.1⟩

/-- The size limit of the format of a response. -/
def RemoteMediaPolicy.responseFormat (policy : RemoteMediaPolicy) (fetched : Text) : Option ℕ :=
  (normalizedMediaMime fetched).bind fun supported =>
    if policy.advertised.any (fun advertised => advertised != supported.1) = true then none
    else some supported.2

def stripQuotes (value : Text) : Text :=
  if 2 ≤ value.length ∧ value.head? = some '"' ∧ value.getLast? = some '"' then
    value.tail.dropLast
  else value

def contentTypeParameter (parameter : Text) : Option (Text × Text) :=
  (splitOnce ['='] (trim parameter)).map fun (name, value) => (trim name, stripQuotes (trim value))

def contentTypeParts (value : Text) : Option (Text × List (Text × Text)) :=
  match value.splitOn ';' with
  | [] => none
  | mediaType :: parameters =>
    if trim mediaType = [] then none
    else (parameters.mapM contentTypeParameter).map fun parameters => (trim mediaType, parameters)

/-- The expected type is the type itself, or `*/*`, or ends in `/*` behind its beginning. -/
def mediaTypeMatches (expected actual : Text) : Bool :=
  decide (expected = "*/*".toList) || eqIgnoreAsciiCase actual expected ||
    ("/*".toList.isSuffixOf expected &&
      (truncate actual (byteLen expected - 1)).any fun start =>
        eqIgnoreAsciiCase start expected.dropLast)

def contentTypeAllowed (contentType : Option Text) (accepted : List Text) : Bool :=
  accepted.isEmpty ||
    (contentType.bind contentTypeParts).any fun (mediaType, parameters) =>
      accepted.any fun expected => (contentTypeParts expected).any fun (expectedType, expectedParameters) =>
        mediaTypeMatches expectedType mediaType &&
          expectedParameters.all fun (name, value) => parameters.any fun (actualName, actualValue) =>
            eqIgnoreAsciiCase actualName name && decide (actualValue = value)

/-! ### Responses -/

/-- An answer. A header that is no text counts as absent, but for `content_encoding`; a chunk that
    could not be read is `none`. -/
structure Response where
  status : ℕ
  location : Option Text
  contentEncoding : Option (Option Text)
  contentType : Option Text
  contentLength : Option ℕ
  chunks : List (Option Bytes)

structure RemoteResponse where
  url : Url
  status : ℕ
  contentType : Option Text
  body : Bytes
  deriving DecidableEq

def isSuccess (status : ℕ) : Bool := decide (200 ≤ status ∧ status < 300)

def isRedirection (status : ℕ) : Bool := decide (300 ≤ status ∧ status < 400)

/-- The byte limit for a response: that of its format for media, and else the configured one. -/
def responseLimit (limits : RemoteFetchLimits) (mediaPolicy : Option RemoteMediaPolicy)
    (contentType : Option Text) : Fetched ℕ :=
  match mediaPolicy with
  | none => .ok limits.maxResponseBytes
  | some policy => do
    let fetched ← okOr contentType .missingContentType
    let limit ← okOr (policy.responseFormat fetched) .unsupportedContentType
    .ok (limit - 1)

def readChunks (limit : ℕ) (body : Bytes) : List (Option Bytes) → Fetched Bytes
  | [] => .ok body
  | none :: _ => .error .bodyRead
  | some chunk :: chunks =>
    if limit < body.length + chunk.length then .error .bodyTooLarge
    else readChunks limit (body ++ chunk) chunks

def readRemoteResponse (limits : RemoteFetchLimits) (response : Response) (url : Url)
    (acceptedContentTypes : List Text) (allowSuccessStatus requireContentType : Bool)
    (mediaPolicy : Option RemoteMediaPolicy) : Fetched RemoteResponse := do
  failIf (if allowSuccessStatus then !isSuccess response.status else response.status != 200)
    (.unexpectedStatus response.status)
  failIf (response.contentEncoding.any fun encoding =>
      !encoding.any fun encoding => eqIgnoreAsciiCase encoding "identity".toList)
    .unsupportedEncoding
  failIf (requireContentType && !contentTypeAllowed response.contentType acceptedContentTypes)
    (if response.contentType.isSome then .unsupportedContentType else .missingContentType)
  let maxResponseBytes ← responseLimit limits mediaPolicy response.contentType
  failIf (response.contentLength.any fun length => decide (maxResponseBytes < length)) .bodyTooLarge
  let body ← readChunks maxResponseBytes [] response.chunks
  .ok ⟨url, response.status, response.contentType, body⟩

/-! ### Requests -/

/-- `Url::host`, `Url::join` and the texts of addresses. -/
structure UrlEnv where
  host : Url → Option Host
  join : Url → Text → Option Url
  showIpv4 : BitVec 32 → Text
  showIpv6 : BitVec 128 → Text

/-- What the world does when a loop has come to a URL. -/
structure Hop where
  policy : Url → Fetched Unit
  permit : Fetched Unit
  lookupHost : Text → ℕ → Option (List SocketAddr)
  clientBuilds : Bool
  date : Text
  response : Option Response

structure Request where
  url : Url
  addresses : List SocketAddr
  method : Method
  headers : HeaderMap
  body : Bytes

inductive Event where
  | agreed (url : Url)
  | requested (request : Request)
  | answered (status : ℕ)

inductive RemoteFetchHop where
  | redirect (url : Url)
  | response (response : RemoteResponse)

abbrev Fetching := Traced RemoteFetchError Event

/-- `HeaderValue::from_str`. -/
def headerValue (text : Text) : Option Bytes :=
  if text.all fun c => (32 ≤ c.toNat && c.toNat != 127) || c == '\t' then
    some (String.ofList text).toUTF8.toList
  else none

def remotePathAndQuery (url : Url) : Text := url.path ++ url.query.elim [] ('?' :: ·)

def remoteRequestHost (env : UrlEnv) (url : Url) : Fetched Text := do
  let host ← okOr (env.host url) .invalidUrl
  let host := match host with
    | .domain name => name
    | .ipv4 address => env.showIpv4 address
    | .ipv6 address => '[' :: (env.showIpv6 address ++ [']'])
  .ok (match url.port.filter fun port => decide (some port ≠ defaultPort url.scheme) with
    | some port => host ++ ':' :: Nat.toDigits 10 port
    | none => host)

/-- A body is sent with its digest. -/
def withDigest (crypto : Signatures.Env) (method : Method) (body : Bytes) (headers : HeaderMap) :
    Fetched HeaderMap :=
  if method = .post then do
    let digest ← okOr (headerValue (bodyDigestHeader crypto body)) .signing
    .ok (headers.insert "digest".toList digest)
  else .ok headers

/-- The headers that are signed, and the signature. -/
def signedHeaders (env : UrlEnv) (crypto : Signatures.Env) (method : Method) (url : Url) (date : Text)
    (body : Bytes) (signer : HttpSignatureSigner) : Fetched HeaderMap := do
  let host ← remoteRequestHost env url
  let host ← okOr (headerValue host) .signing
  let date ← okOr (headerValue date) .signing
  let headers ← withDigest crypto method body
    ((HeaderMap.insert [] "host".toList host).insert "date".toList date)
  let signature ← (signHttpSignature crypto ⟨method, remotePathAndQuery url, headers, body⟩
    signer).mapError fun _ => .signing
  let signature ← okOr (headerValue signature) .signing
  .ok (headers.insert "signature".toList signature)

def signedGetHeaders (env : UrlEnv) (crypto : Signatures.Env) (url : Url) (date : Text)
    (signer : HttpSignatureSigner) : Fetched HeaderMap :=
  signedHeaders env crypto .get url date [] signer

def signedPostHeaders (env : UrlEnv) (crypto : Signatures.Env) (url : Url) (date : Text) (body : Bytes)
    (signer : HttpSignatureSigner) : Fetched HeaderMap :=
  signedHeaders env crypto .post url date body signer

/-- The addresses to which the client of a hop connects, and to no others. -/
def transportClient (env : UrlEnv) (hop : Hop) (url : Url) : Fetched (List SocketAddr) := do
  failIf url.host.isNone .invalidUrl
  let addresses ← resolveRemoteAddresses (env.host url) url.portOrKnownDefault hop.lookupHost
  validateResolvedAddresses addresses
  failIf (!hop.clientBuilds) .client
  .ok addresses

/-- `RequestBuilder::headers` replaces the values of each header. -/
def withHeaders (headers signed : HeaderMap) : HeaderMap :=
  signed.foldr (fun header headers => headers.insert header.1 header.2) headers

/-- What follows a pass of a loop. -/
def continueWith (next : Url → Fetching RemoteResponse) : RemoteFetchHop → Fetching RemoteResponse
  | .response response => pure response
  | .redirect url => next url

/-- The loop of both methods from the pass with a number on, with so many redirects left. -/
def redirectLoop (pass : ℕ → Bool → Url → Fetching RemoteFetchHop) :
    (left redirectCount : ℕ) → Url → Fetching RemoteResponse
  | 0, redirectCount, url => do
    continueWith (fun _ => lift (.error .tooManyRedirects)) (← pass redirectCount true url)
  | left + 1, redirectCount, url => do
    continueWith (redirectLoop pass left (redirectCount + 1)) (← pass redirectCount false url)

section Loops

variable (limits : RemoteFetchLimits) (mediaPolicy : Option RemoteMediaPolicy) (env : UrlEnv)
  (crypto : Signatures.Env) (hops : ℕ → Hop)

def acceptHeaders (acceptedContentTypes : List Text) : Fetched HeaderMap :=
  if acceptedContentTypes = [] then .ok []
  else do
    let accept ← okOr (headerValue (Signatures.join ", ".toList acceptedContentTypes)) .request
    .ok (HeaderMap.insert [] "accept".toList accept)

def signatureHeaders (signer : Option HttpSignatureSigner) (url : Url) (date : Text) :
    Fetched HeaderMap :=
  match signer with
  | none => .ok []
  | some signer => signedGetHeaders env crypto url date signer

/-- A header that is none makes the request fail. -/
def getHeaders (acceptedContentTypes : List Text) (signer : Option HttpSignatureSigner) (url : Url)
    (date : Text) : Fetched HeaderMap := do
  let host ← remoteRequestHost env url
  let signed ← signatureHeaders env crypto signer url date
  let host ← okOr (headerValue host) .request
  let accept ← acceptHeaders acceptedContentTypes
  pure (withHeaders (accept.insert "host".toList host) signed)

def nextUrl (url : Url) (response : Response) : Fetched RemoteFetchHop := do
  let location ← okOr response.location .redirect
  let next ← okOr (env.join url location) .redirect
  .ok (.redirect next)

def getHop (acceptedContentTypes : List Text) (signer : Option HttpSignatureSigner) (hop : Hop)
    (last : Bool) (url : Url) : Fetching RemoteFetchHop := do
  lift hop.permit
  let addresses ← lift (transportClient env hop url)
  let headers ← lift (getHeaders env crypto acceptedContentTypes signer url hop.date)
  emit (.requested ⟨url, addresses, .get, headers, []⟩)
  let response ← lift (okOr hop.response .request)
  emit (.answered response.status)
  if isRedirection response.status then
    if last then lift (.error .tooManyRedirects) else lift (nextUrl env url response)
  else
    lift ((readRemoteResponse limits response url acceptedContentTypes false true mediaPolicy).map
      .response)

/-- One pass of the loop, in the operation of which one request is sent. -/
def getPass (acceptedContentTypes : List Text) (expectedOrigin : Option Url)
    (signer : Option HttpSignatureSigner) (hop : Hop) (last : Bool) (url : Url) :
    Fetching RemoteFetchHop := do
  lift (validateRemoteUrl url)
  lift (hop.policy url)
  emit (.agreed url)
  lift (failIf (expectedOrigin.any fun expected => !sameOriginUrl url expected) .originMismatch)
  getHop limits mediaPolicy env crypto acceptedContentTypes signer hop last url

def getWithRedirects (acceptedContentTypes : List Text) (expectedOrigin : Option Url)
    (signer : Option HttpSignatureSigner) (url : Url) : Fetching RemoteResponse :=
  redirectLoop (fun count last => getPass limits mediaPolicy env crypto acceptedContentTypes
    expectedOrigin signer (hops count) last) limits.maxRedirects 0 url

def postHop (body : Bytes) (signer : HttpSignatureSigner) (hop : Hop) (last : Bool) (url : Url) :
    Fetching RemoteFetchHop := do
  lift hop.permit
  let addresses ← lift (transportClient env hop url)
  let headers ← lift (signedPostHeaders env crypto url hop.date body signer)
  emit (.requested ⟨url, addresses, .post,
    headers.insert "content-type".toList (asBytes "application/activity+json".toList), body⟩)
  let response ← lift (okOr hop.response .request)
  emit (.answered response.status)
  if isRedirection response.status then
    if last then lift (.error .tooManyRedirects)
    else do
      lift (failIf (response.status != 307 && response.status != 308) .redirect)
      lift (nextUrl env url response)
  else lift ((readRemoteResponse limits response url [] true false none).map .response)

def postPass (body : Bytes) (expectedOrigin : Url) (signer : HttpSignatureSigner) (hop : Hop)
    (last : Bool) (url : Url) : Fetching RemoteFetchHop := do
  lift (validateRemoteUrl url)
  lift (failIf (!sameOriginUrl url expectedOrigin) .originMismatch)
  postHop limits env crypto body signer hop last url

def postWithRedirects (body : Bytes) (expectedOrigin : Url) (signer : HttpSignatureSigner)
    (url : Url) : Fetching RemoteResponse :=
  redirectLoop (fun count last => postPass limits env crypto body expectedOrigin signer (hops count)
    last) limits.maxRedirects 0 url

end Loops

end Rustodon.Remote
