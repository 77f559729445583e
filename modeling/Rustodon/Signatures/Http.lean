import Mathlib.Algebra.Group.Int.Defs
import Mathlib.Data.Int.Notation
import Rustodon.Schemes.Base64
import Rustodon.Schemes.Checked
import Rustodon.Schemes.Utf8

/-! @src mastodon/signatures.rs | name:HTTP signatures | scheme:utf8-text | family:signatures

    Signing and verifying requests with draft Cavage signatures. RSA, SHA-256 and the parsing of HTTP
    dates are the work of other libraries and parameters of the model. Times are nanoseconds since
    the epoch. -/

namespace Rustodon.Signatures
open Schemes.Checked Schemes.Utf8

abbrev Bytes := List UInt8

inductive RsaKeyError where
  | missingPrivateKey | missingPublicKey | corruptPrivateKey | corruptPublicKey | keyMismatch
  | signingFailed | signatureVerificationFailed
  deriving DecidableEq, Repr

inductive HttpSignatureError where
  | missingSignatureHeader | unsupportedMessageSignature | malformedSignatureHeader
  | duplicateSignatureParameter | missingKeyId | missingAlgorithm | missingSignedHeaders
  | missingSignature | unsupportedAlgorithm | invalidKeyId | keyIdMismatch | missingSignedHeader
  | invalidHeaderValue | invalidSignedHeader | missingDate | invalidDate | outsideTimeWindow
  | missingHost | missingDigest | unsupportedDigestAlgorithm | invalidDigestEncoding
  | invalidDigestLength | digestMismatch | invalidSignatureEncoding | invalidPrivateKey
  | invalidPublicKey | signatureMismatch | unsupportedMethod
  deriving DecidableEq, Repr

abbrev Checked := Except HttpSignatureError

/-- RSA over SHA-256 with keys in PEM, SHA-256, and `httpdate::parse_http_date`. -/
structure Env where
  signRsaSha256 : (privateKeyPem message : Text) → Except RsaKeyError Bytes
  verifyRsaSha256 : (publicKeyPem message : Text) → (signature : Bytes) → Except RsaKeyError Unit
  sha256 : Bytes → Bytes
  parseHttpDate : Text → Option ℤ

inductive Method where
  | get
  | post
  | other (name : Text)
  deriving DecidableEq, Repr

def Method.asStr : Method → Text
  | .get => "GET".toList
  | .post => "POST".toList
  | .other name => name

/-- The header lines in order; names are in lower case. -/
abbrev HeaderMap := List (Text × Bytes)

/-- The first value of a header. -/
def HeaderMap.get (headers : HeaderMap) (name : Text) : Option Bytes := headers.lookup name

/-- Replaces all values of a header. -/
def HeaderMap.insert (headers : HeaderMap) (name : Text) (value : Bytes) : HeaderMap :=
  (name, value) :: headers.filter fun header => header.1 != name

theorem lookup_insert (headers : HeaderMap) (name : Text) (value : Bytes) {other : Text}
    (hne : other ≠ name) : (headers.insert name value).get other = headers.get other := by
  rw [HeaderMap.get, HeaderMap.get, HeaderMap.insert, List.lookup_cons, beq_false_of_ne hne]
  change (headers.filter _).lookup other = headers.lookup other
  induction headers with
  | nil => rfl
  | cons header headers ih =>
    by_cases hname : header.1 = name
    · have hother : other ≠ header.1 := fun heq => hne (heq.trans hname)
      rw [List.filter_cons_of_neg (by simpa using hname), ih, List.lookup_cons,
        beq_false_of_ne hother]
    · rw [List.filter_cons_of_pos (by simpa using hname), List.lookup_cons, List.lookup_cons, ih]

theorem lookup_insert_self (headers : HeaderMap) (name : Text) (value : Bytes) :
    (headers.insert name value).get name = some value := by
  rw [HeaderMap.get, HeaderMap.insert, List.lookup_cons, beq_self_eq_true]

/-- `HeaderValue::to_str`: visible ASCII and tabs only. -/
def toStr (value : Bytes) : Option Text :=
  if value.all fun b => (32 ≤ b.toNat && b.toNat < 127) || b.toNat == 9 then
    some (value.map fun b => Char.ofNat b.toNat)
  else none

/-- The bytes of an ASCII text, as a header holds them. -/
def asBytes (text : Text) : Bytes := text.map fun c => UInt8.ofNat c.toNat

structure HttpSignatureRequest where
  method : Method
  pathAndQuery : Text
  headers : HeaderMap
  body : Bytes

structure HttpSignatureKey where
  keyId : Text
  publicKeyPem : Text

structure HttpSignatureSigner where
  keyId : Text
  privateKeyPem : Text

structure VerifiedHttpSignature where
  keyId : Text
  signedHeaders : List Text
  deriving DecidableEq, Repr

def algorithm : Text := "rsa-sha256".toList

def requestTarget : Text := "(request-target)".toList

def clockSkewMargin : ℤ := 3600 * 1000000000

def defaultExpirationWindow : ℤ := 300 * 1000000000

/-! ### The parameters of the header -/

abbrev Parameters := List (Text × Text)

def Parameters.get (parameters : Parameters) (key : String) : Option Text :=
  parameters.lookup key.toList

/-- `is_ascii_whitespace`. -/
def isAsciiWhitespace (c : Char) : Bool :=
  c == ' ' || c == '\t' || c == '\n' || c.toNat == 12 || c == '\r'

/-- `is_ascii_control`. -/
def isAsciiControl (c : Char) : Bool := c.toNat < 32 || c.toNat == 127

def isTokenByte (c : Char) : Bool :=
  (('a' ≤ c && c ≤ 'z') || ('A' ≤ c && c ≤ 'Z') || ('0' ≤ c && c ≤ '9')) ||
    "!#$%&'*+-.^_".toList.contains c || c.toNat == 96 || c == '|' || c == '~'

def skipSpaces (text : Text) : Text := text.dropWhile isAsciiWhitespace

/-- A token that is not empty, and what follows it. -/
def parseToken (text : Text) : Checked (Text × Text) :=
  if (text.takeWhile isTokenByte).isEmpty then .error .malformedSignatureHeader
  else .ok (text.takeWhile isTokenByte, text.dropWhile isTokenByte)

/-- `parse_quoted_value`, on the text after the opening quote. -/
def parseQuotedValue : Text → Checked (Text × Text)
  | [] => .error .malformedSignatureHeader
  | '"' :: rest => .ok ([], rest)
  | ['\\'] => .error .malformedSignatureHeader
  | '\\' :: c :: rest => do
    let (value, rest) ← parseQuotedValue rest
    pure ('\\' :: c :: value, rest)
  | c :: rest =>
    if isAsciiControl c then .error .malformedSignatureHeader
    else do
      let (value, rest) ← parseQuotedValue rest
      pure (c :: value, rest)

def parseValue (text : Text) : Checked (Text × Text) :=
  match text with
  | '"' :: rest => parseQuotedValue rest
  | text => parseToken text

/-- One `key=value`, and what follows it. -/
def parseParameter (text : Text) : Checked ((Text × Text) × Text) := do
  let (key, rest) ← parseToken (skipSpaces text)
  match skipSpaces rest with
  | '=' :: rest => do
    let (value, rest) ← parseValue (skipSpaces rest)
    pure ((key, value), skipSpaces rest)
  | _ => .error .malformedSignatureHeader

/-- The loop of `parse_signature_header`, which takes a turn for each parameter. -/
def parseLoop : ℕ → Text → Parameters → Checked Parameters
  | 0, _, _ => .error .malformedSignatureHeader
  | fuel + 1, text, parameters => do
    let ((key, value), rest) ← parseParameter text
    if (parameters.lookup key).isSome then .error .duplicateSignatureParameter
    else
      match rest with
      | [] => pure (parameters ++ [(key, value)])
      | ',' :: rest => parseLoop fuel rest (parameters ++ [(key, value)])
      | _ => .error .malformedSignatureHeader

def stripSignaturePrefix (raw : Text) : Text :=
  if "Signature ".toList.isPrefixOf raw then raw.drop 10 else raw

def parseSignatureHeader (raw : Text) : Checked Parameters :=
  parseLoop ((stripSignaturePrefix raw).length + 1) (stripSignaturePrefix raw) []

/-! ### The signed string -/

def validateKeyId (keyId : Text) : Checked Unit :=
  failIf ((trim keyId).isEmpty || keyId.any fun c => c == '"' || c == '\\' || isAsciiControl c)
    .invalidKeyId

/-- `split_ascii_whitespace`. -/
def splitAsciiWhitespace (text : Text) : List Text :=
  (text.splitOnP isAsciiWhitespace).filter fun word => !word.isEmpty

def toAsciiLowercase (text : Text) : Text := text.map Char.toLower

def normalizeSignedHeadersStr (headers : Text) : Checked (List Text) := do
  let headers := (splitAsciiWhitespace headers).map toAsciiLowercase
  failIf headers.isEmpty .missingSignedHeaders
  failIf (headers.any fun header => header != requestTarget &&
    (header.head? == some '(' || !header.all isTokenByte)) .invalidSignedHeader
  pure headers

def join (separator : Text) (parts : List Text) : Text := separator.intercalate parts

def normalizeSignedHeaders (headers : List Text) : Checked (List Text) :=
  normalizeSignedHeadersStr (join " ".toList headers)

/-- A request header as text. -/
def headerText (request : HttpSignatureRequest) (name : Text) : Checked Text := do
  let value ← okOr (request.headers.get name) .missingSignedHeader
  okOr (toStr value) .invalidHeaderValue

/-- What a line of the signed string says about a header. -/
def signedValue (request : HttpSignatureRequest) (includeQueryString : Bool) (header : Text) :
    Checked Text :=
  if header = requestTarget then
    let path := if includeQueryString then request.pathAndQuery
      else ((splitOnce "?".toList request.pathAndQuery).map Prod.fst).getD request.pathAndQuery
    pure (toAsciiLowercase request.method.asStr ++ " ".toList ++ path)
  else headerText request header

def buildSignedString (request : HttpSignatureRequest) (signedHeaders : List Text)
    (includeQueryString : Bool) : Checked Text := do
  let lines ← signedHeaders.mapM fun header => do
    let value ← signedValue request includeQueryString header
    pure (header ++ ": ".toList ++ value)
  pure (join "\n".toList lines)

/-! ### The checks -/

variable (env : Env)

def bodyDigestHeader (body : Bytes) : Text :=
  "SHA-256=".toList ++ Schemes.Base64.encode (env.sha256 body)

def verifySignatureStrength (request : HttpSignatureRequest) (signedHeaders : List Text) :
    Checked Unit := do
  failIf (!signedHeaders.contains "date".toList) .missingDate
  failIf (!(signedHeaders.contains "digest".toList || signedHeaders.contains requestTarget))
    .missingDigest
  failIf (decide (request.method = .get) && !signedHeaders.contains "host".toList) .missingHost
  failIf (decide (request.method = .post) && !signedHeaders.contains "digest".toList) .missingDigest

/-- The digits of a numeral, most significant first. -/
def parseDigits (digits : Text) : Option ℕ :=
  if digits.isEmpty || !digits.all fun c => '0' ≤ c && c ≤ '9' then none
  else some (digits.foldl (fun n c => n * 10 + (c.toNat - 48)) 0)

/-- `str::parse::<i64>`. -/
def parseI64 (text : Text) : Option ℤ := do
  let n ← match text with
    | '-' :: digits => (parseDigits digits).map fun n => -(n : ℤ)
    | '+' :: digits => (parseDigits digits).map fun n => (n : ℤ)
    | digits => (parseDigits digits).map fun n => (n : ℤ)
  if -2 ^ 63 ≤ n ∧ n < 2 ^ 63 then some n else none

/-- `parse_unix_timestamp`: every `i64` number of seconds is a system time. -/
def parseUnixTimestamp (value : Text) : Checked ℤ := do
  let seconds ← okOr (parseI64 value) .invalidDate
  pure (seconds * 1000000000)

def verifyTimeWindow (request : HttpSignatureRequest) (signedHeaders : List Text)
    (expiresValue : Option Text) (now : ℤ) : Checked Unit := do
  failIf (!signedHeaders.contains "date".toList) .missingDate
  let date ← headerText request "date".toList
  let created ← okOr (env.parseHttpDate date) .invalidDate
  failIf (decide (now + clockSkewMargin < created)) .outsideTimeWindow
  let defaultExpires := created + defaultExpirationWindow
  let expires ← expiresValue.mapM parseUnixTimestamp
  let expires := (expires.map fun expires => min expires defaultExpires).getD defaultExpires
  failIf (decide (expires + clockSkewMargin < now)) .outsideTimeWindow

/-- The algorithms and values offered by a `Digest` header. -/
def offeredDigests (header : Text) : List (Text × Text) :=
  (header.splitOnP (· == ',')).filterMap fun digest =>
    (splitOnce "=".toList digest).map fun (name, value) => (toAsciiLowercase name, trim value)

/-- The value of the first SHA-256 entry. -/
def receivedDigest (header : Text) : Option Text :=
  ((offeredDigests header).find? fun offered => offered.1 == "sha-256".toList).map Prod.snd

def verifyBodyDigest (request : HttpSignatureRequest) (signedHeaders : List Text) :
    Checked Unit := do
  if !signedHeaders.contains "digest".toList then pure ()
  else do
    let header ← headerText request "digest".toList
    let received ← okOr (receivedDigest header) .unsupportedDigestAlgorithm
    if received = (bodyDigestHeader env request.body).drop "SHA-256=".toList.length then pure ()
    else do
      let decoded ← okOr (Schemes.Base64.decode received) .invalidDigestEncoding
      failIf (decoded.length != 32) .invalidDigestLength
      .error .digestMismatch

/-! ### Signing and verifying -/

def mapSigningError : RsaKeyError → HttpSignatureError
  | .corruptPublicKey => .invalidPublicKey
  | _ => .invalidPrivateKey

/-- The value of a `Signature` header. -/
def signatureHeader (keyId : Text) (signedHeaders : List Text) (signature : Bytes) : Text :=
  "keyId=\"".toList ++ keyId ++ "\",algorithm=\"".toList ++ algorithm ++ "\",headers=\"".toList ++
    join " ".toList signedHeaders ++ "\",signature=\"".toList ++ Schemes.Base64.encode signature ++
    "\"".toList

def signHttpSignatureWithHeaders (request : HttpSignatureRequest) (signer : HttpSignatureSigner)
    (signedHeaders : List Text) : Checked Text := do
  failIf (!(decide (request.method = .get) || decide (request.method = .post))) .unsupportedMethod
  validateKeyId signer.keyId
  let signedHeaders ← normalizeSignedHeaders signedHeaders
  if signedHeaders.contains "digest".toList then verifyBodyDigest env request signedHeaders
  let signedString ← buildSignedString request signedHeaders true
  match env.signRsaSha256 signer.privateKeyPem signedString with
  | .error e => .error (mapSigningError e)
  | .ok signature => pure (signatureHeader signer.keyId signedHeaders signature)

/-- The headers signed by default. -/
def defaultSignedHeaders : Method → Checked (List Text)
  | .get => pure ["host".toList, "date".toList, requestTarget]
  | .post => pure ["host".toList, "date".toList, "digest".toList, requestTarget]
  | .other _ => .error .unsupportedMethod

def signHttpSignature (request : HttpSignatureRequest) (signer : HttpSignatureSigner) :
    Checked Text := do
  let signedHeaders ← defaultSignedHeaders request.method
  signHttpSignatureWithHeaders env request signer signedHeaders

/-- The RSA checks of `verify_http_signature`: with the query string, and then without it. -/
def verifySignature (request : HttpSignatureRequest) (key : HttpSignatureKey) (keyId : Text)
    (signedHeaders : List Text) (signature : Bytes) : Checked VerifiedHttpSignature := do
  let signedString ← buildSignedString request signedHeaders true
  match env.verifyRsaSha256 key.publicKeyPem signedString signature with
  | .ok () => pure ⟨keyId, signedHeaders⟩
  | .error .signatureVerificationFailed =>
    if contains "?".toList request.pathAndQuery then do
      let signedString ← buildSignedString request signedHeaders false
      match env.verifyRsaSha256 key.publicKeyPem signedString signature with
      | .ok () => pure ⟨keyId, signedHeaders⟩
      | .error _ => .error .signatureMismatch
    else .error .signatureMismatch
  | .error _ => .error .invalidPublicKey

/-- `verify_http_signature`, once the `Signature` header is parsed. -/
def verifyParameters (request : HttpSignatureRequest) (key : HttpSignatureKey) (now : ℤ)
    (parameters : Parameters) : Checked VerifiedHttpSignature := do
  let keyId ← okOr (parameters.get "keyId") .missingKeyId
  failIf (keyId != key.keyId) .keyIdMismatch
  validateKeyId keyId
  failIf (parameters.get "algorithm" != some algorithm)
    (if (parameters.get "algorithm").isSome then .unsupportedAlgorithm else .missingAlgorithm)
  let headers ← okOr (parameters.get "headers") .missingSignedHeaders
  let signedHeaders ← normalizeSignedHeadersStr headers
  let signatureValue ← okOr (parameters.get "signature") .missingSignature
  let signature ← okOr (Schemes.Base64.decode signatureValue) .invalidSignatureEncoding
  verifySignatureStrength request signedHeaders
  verifyTimeWindow env request signedHeaders (parameters.get "expires") now
  verifyBodyDigest env request signedHeaders
  verifySignature env request key keyId signedHeaders signature

def verifyHttpSignature (request : HttpSignatureRequest) (key : HttpSignatureKey) (now : ℤ) :
    Checked VerifiedHttpSignature := do
  failIf (request.headers.get "signature-input".toList).isSome .unsupportedMessageSignature
  let value ← okOr (request.headers.get "signature".toList) .missingSignatureHeader
  let raw ← okOr (toStr value) .invalidHeaderValue
  let parameters ← parseSignatureHeader raw
  verifyParameters env request key now parameters

end Rustodon.Signatures
