import Mathlib.Data.Int.Notation
import Mathlib.Data.List.GetD
import Rustodon.Schemes.Base64
import Rustodon.Schemes.Bytes

/-! @src mastodon/write_repository.rs, write_repository/auth.rs | name:Applications, grants and their checks |
    family:oauth

    What registration, the creation of a grant and the redemption of its code check, apart from the
    transactions they do it in. Times are in microseconds. -/

namespace Rustodon.OAuth
open Schemes.Bytes (Bytes utf8)
open Schemes.Utf8 (Text isWhitespace trim)

/-! ### Rows -/

structure OAuthApplication where
  id : ℕ
  name : Text
  uid : Text
  secret : Text
  redirectUri : Text
  scopes : Text
  confidential : Bool
  superapp : Bool
  website : Option Text
  deriving DecidableEq

structure AccessGrant where
  id : ℕ
  applicationId : ℕ
  codeChallenge : Option Text
  codeChallengeMethod : Option Text
  createdAt : ℤ
  expiresIn : ℤ
  redirectUri : Text
  resourceOwnerId : ℤ
  revokedAt : Option ℤ
  scopes : Option Text
  token : Text
  /-- How often the password of the owner had been replaced when the authorization was given. -/
  since : ℕ
  deriving DecidableEq

/-! ### Scopes -/

/-- `str::split_whitespace`. -/
def splitWhitespace (text : Text) : List Text :=
  (text.splitOnP isWhitespace).filter fun word => !word.isEmpty

def oauthConfiguredScopes : List Text :=
  ["read", "profile", "write", "write:accounts", "write:blocks", "write:bookmarks", "write:collections",
    "write:conversations", "write:favourites", "write:filters", "write:follows", "write:lists", "write:media",
    "write:mutes", "write:notifications", "write:reports", "write:statuses", "read:accounts", "read:blocks",
    "read:bookmarks", "read:collections", "read:favourites", "read:filters", "read:follows", "read:lists",
    "read:mutes", "read:notifications", "read:search", "read:statuses", "follow", "push", "admin:read",
    "admin:read:accounts", "admin:read:reports", "admin:read:domain_allows", "admin:read:domain_blocks",
    "admin:read:ip_blocks", "admin:read:email_domain_blocks", "admin:read:canonical_email_blocks",
    "admin:write", "admin:write:accounts", "admin:write:reports", "admin:write:domain_allows",
    "admin:write:domain_blocks", "admin:write:ip_blocks", "admin:write:email_domain_blocks",
    "admin:write:canonical_email_blocks"].map String.toList

def canonicalOauthScopes (scopes : Text) : Text :=
  let values := (splitWhitespace scopes).foldl
    (fun values scope => if scope ∈ values then values else values ++ [scope]) []
  [' '].intercalate values

/-- The scopes that a request asks for. -/
def requestedScopes : Option Text → Text
  | some value => if (trim value).isEmpty then "read".toList else canonicalOauthScopes value
  | none => "read".toList

/-! ### Registration -/

structure OAuthApplicationRegistration where
  name : Text
  redirectUri : Text
  scopes : Text
  website : Option Text

/-- What the checks read of a parsed URL. -/
structure ParsedUrl where
  scheme : Text
  hostStr : Option Text
  fragment : Option Text
  cannotBeABase : Bool

section

variable (parse : Text → Option ParsedUrl)

def validOauthRedirectUri (value : Text) : Bool :=
  if value = "urn:ietf:wg:oauth:2.0:oob".toList then true
  else
    match parse value with
    | none => false
    | some uri =>
      if uri.fragment.isSome || uri.cannotBeABase then false
      else if uri.scheme ∈ ["data".toList, "vbscript".toList, "javascript".toList] then false
      else decide (uri.scheme ∉ ["http".toList, "https".toList]) || uri.hostStr.isSome

def validOauthWebsite (value : Text) : Bool :=
  if (trim value).isEmpty then true
  else if value.length > 2000 then false
  else
    match parse value with
    | none => false
    | some uri => decide (uri.scheme ∈ ["http".toList, "https".toList]) && uri.hostStr.isSome

def validateOauthApplicationRegistration (registration : OAuthApplicationRegistration) : Bool :=
  let redirectUris := splitWhitespace registration.redirectUri
  if (trim registration.name).isEmpty || registration.name.length > 60 then false
  else if registration.redirectUri.length > 2000 then false
  else if redirectUris.isEmpty || redirectUris.any fun uri => !validOauthRedirectUri parse uri then false
  else if (trim registration.scopes).isEmpty ||
      (splitWhitespace registration.scopes).any fun scope => decide (scope ∉ oauthConfiguredScopes) then
    false
  else !registration.website.any fun website => !validOauthWebsite parse website

/-- The application that `register_oauth_application` inserts, with what it draws. -/
def registerOauthApplication (registration : OAuthApplicationRegistration) (id : ℕ) (uid clientSecret : Text) :
    Option OAuthApplication :=
  if validateOauthApplicationRegistration parse registration then
    some
      { id, name := registration.name, uid, secret := clientSecret, redirectUri := registration.redirectUri
        scopes := canonicalOauthScopes registration.scopes, confidential := true, superapp := false
        website := registration.website }
  else none

end

/-! ### Proof keys -/

def constantTimeStringEqual (left right : Text) : Bool :=
  let left := utf8 left
  let right := utf8 right
  let difference := (List.range (max left.length right.length)).foldl
    (fun difference index => difference ||| ((left.getD index 0).toNat ^^^ (right.getD index 0).toNat))
    (left.length ^^^ right.length)
  difference == 0

def isAsciiAlphanumeric (byte : UInt8) : Bool :=
  (48 ≤ byte.toNat && byte.toNat ≤ 57) || (65 ≤ byte.toNat && byte.toNat ≤ 90) ||
    (97 ≤ byte.toNat && byte.toNat ≤ 122)

/-- The challenge is 43 characters of the Base64 alphabet for URLs. -/
def validS256CodeChallenge (value : Text) : Bool :=
  (utf8 value).length == 43 &&
    (utf8 value).all fun byte => isAsciiAlphanumeric byte || byte == 45 || byte == 95

def validPkceVerifier (value : Text) : Bool :=
  decide (43 ≤ (utf8 value).length ∧ (utf8 value).length ≤ 128) &&
    (utf8 value).all fun byte =>
      isAsciiAlphanumeric byte || byte == 45 || byte == 46 || byte == 95 || byte == 126

def oauthGrantPkceIsValid (confidential : Bool) (codeChallenge codeChallengeMethod : Option Text) : Bool :=
  match codeChallenge, codeChallengeMethod with
  | none, none => confidential
  | some challenge, some method => decide (method = "S256".toList) && validS256CodeChallenge challenge
  | _, _ => false

def oauthPkceMatches (sha256 : Bytes → Bytes) (confidential : Bool)
    (codeChallenge codeChallengeMethod codeVerifier : Option Text) : Bool :=
  match codeChallenge, codeChallengeMethod with
  | none, none => confidential
  | some challenge, some method =>
    if method = "S256".toList ∧ validS256CodeChallenge challenge then
      match codeVerifier.filter validPkceVerifier with
      | none => false
      | some verifier =>
        constantTimeStringEqual challenge (Schemes.Base64.encodeUrl (sha256 (utf8 verifier)))
    else false
  | _, _ => false

/-! ### Creating a grant, redeeming its code -/

inductive OAuthAuthorizationGrantError where
  | invalidClient
  | invalidRedirectUri
  | invalidScope
  | invalidCodeChallenge
  deriving DecidableEq

inductive OAuthAuthorizationCodeError where
  | invalidClient
  | invalidGrant
  deriving DecidableEq

/-- What `create_oauth_authorization_grant` is asked for. -/
structure GrantRequest where
  clientId : Text
  redirectUri : Text
  requestedScopes : Option Text
  codeChallenge : Option Text
  codeChallengeMethod : Option Text
  deriving DecidableEq

/-- What `issue_oauth_authorization_code_token` is asked for. -/
structure CodeRequest where
  clientId : Text
  clientSecret : Option Text
  code : Text
  redirectUri : Text
  codeVerifier : Option Text
  deriving DecidableEq

/-- The scopes of the grant, unless the application does not allow the request. -/
def checkGrantRequest (application : OAuthApplication) (request : GrantRequest) :
    Except OAuthAuthorizationGrantError Text :=
  if request.redirectUri ∉ splitWhitespace application.redirectUri then .error .invalidRedirectUri
  else if !oauthGrantPkceIsValid application.confidential request.codeChallenge
      request.codeChallengeMethod then .error .invalidCodeChallenge
  else
    let scopes := requestedScopes request.requestedScopes
    if (splitWhitespace scopes).any fun scope =>
        decide (scope ∉ splitWhitespace application.scopes) || decide (scope ∉ oauthConfiguredScopes) then
      .error .invalidScope
    else .ok scopes

/-- `NaiveDateTime::checked_add_signed` for seconds: the result is in the range of dates. -/
def checkedAddSeconds (time seconds : ℤ) : Option ℤ :=
  if -8334601228800000000 ≤ time + seconds * 1000000 ∧ time + seconds * 1000000 ≤ 8210266876799999999 then
    some (time + seconds * 1000000)
  else none

/-- The request names a code at all. -/
def CodeRequest.isPresent (request : CodeRequest) : Bool :=
  !((trim request.clientId).isEmpty || request.code.isEmpty || request.redirectUri.isEmpty)

/-- What is checked of the row that has been found, at the time that the clock of the host shows. -/
def checkCodeRequest (sha256 : Bytes → Bytes) (application : OAuthApplication) (grant : AccessGrant)
    (request : CodeRequest) (now : ℤ) : Except OAuthAuthorizationCodeError Unit :=
  if application.confidential &&
      !constantTimeStringEqual application.secret (request.clientSecret.getD []) then .error .invalidClient
  else if grant.redirectUri ≠ request.redirectUri ∨ grant.revokedAt.isSome ∨
      (checkedAddSeconds grant.createdAt grant.expiresIn).all (fun expiresAt => decide (expiresAt ≤ now)) ∨
      grant.resourceOwnerId ≤ 0 then .error .invalidGrant
  else if !oauthPkceMatches sha256 application.confidential grant.codeChallenge grant.codeChallengeMethod
      request.codeVerifier then .error .invalidGrant
  else .ok ()

/-! ### What the checks say -/

theorem foldl_or_eq_zero (f : ℕ → ℕ) : ∀ (indices : List ℕ) (difference : ℕ),
    indices.foldl (fun difference index => difference ||| f index) difference = 0 ↔
      difference = 0 ∧ ∀ index ∈ indices, f index = 0
  | [], difference => by simp
  | index :: indices, difference => by
    rw [List.foldl_cons, foldl_or_eq_zero f indices, Nat.or_eq_zero_iff]
    simp [and_assoc]

theorem xor_eq_zero_iff {a b : ℕ} : a ^^^ b = 0 ↔ a = b := by
  constructor
  · intro h
    calc
      a = a ^^^ b ^^^ b := by rw [Nat.xor_assoc, Nat.xor_self, Nat.xor_zero]
      _ = b := by rw [h, Nat.zero_xor]
  · rintro rfl
    exact Nat.xor_self a

theorem utf8_injective {left right : Text} (h : utf8 left = utf8 right) : left = right := by
  have hleft := Schemes.Bytes.fromUtf8_utf8 left
  rw [h, Schemes.Bytes.fromUtf8_utf8] at hleft
  exact (Option.some.inj hleft).symm

theorem constantTimeStringEqual_iff {left right : Text} :
    constantTimeStringEqual left right = true ↔ left = right := by
  unfold constantTimeStringEqual
  simp only [beq_iff_eq, foldl_or_eq_zero, xor_eq_zero_iff, List.mem_range]
  constructor
  · rintro ⟨hlength, hbytes⟩
    refine utf8_injective (List.ext_getElem hlength fun index hleft hright => ?_)
    have hbyte := hbytes index (by omega)
    rw [List.getD_eq_getElem _ _ hleft, List.getD_eq_getElem _ _ hright] at hbyte
    exact UInt8.toNat_inj.mp hbyte
  · rintro rfl
    exact ⟨rfl, fun _ _ => rfl⟩

theorem oauthGrantPkceIsValid_challenge {challenge method : Option Text}
    (h : oauthGrantPkceIsValid false challenge method = true) : challenge.isSome = true := by
  unfold oauthGrantPkceIsValid at h
  split at h
  · cases h
  · rfl
  · cases h

/-- With a challenge, the verifier is one whose digest it is; without one, the application is
    confidential. -/
theorem oauthPkceMatches_eq_true {sha256 : Bytes → Bytes} {confidential : Bool}
    {challenge method verifier : Option Text}
    (h : oauthPkceMatches sha256 confidential challenge method verifier = true) :
    (challenge = none ∧ confidential = true) ∨
      ∃ v, verifier = some v ∧ challenge = some (Schemes.Base64.encodeUrl (sha256 (utf8 v))) := by
  unfold oauthPkceMatches at h
  split at h
  · exact .inl ⟨rfl, h⟩
  · split at h
    · split at h
      · cases h
      · rename_i v hv
        obtain ⟨hverifier, -⟩ := Option.filter_eq_some_iff.mp hv
        exact .inr ⟨v, hverifier, congrArg some (constantTimeStringEqual_iff.mp h)⟩
    · cases h
  · cases h

/-- What the application allows. -/
structure Allowed (application : OAuthApplication) (request : GrantRequest) (scopes : Text) : Prop where
  redirectUri : request.redirectUri ∈ splitWhitespace application.redirectUri
  challenge : application.confidential = false → request.codeChallenge.isSome = true
  scopes : ∀ scope ∈ splitWhitespace scopes,
    scope ∈ splitWhitespace application.scopes ∧ scope ∈ oauthConfiguredScopes

theorem checkGrantRequest_allowed {application : OAuthApplication} {request : GrantRequest} {scopes : Text}
    (h : checkGrantRequest application request = .ok scopes) : Allowed application request scopes := by
  unfold checkGrantRequest at h
  split at h
  · cases h
  · rename_i hredirect
    split at h
    · cases h
    · rename_i hpkce
      dsimp only at h
      split at h
      · cases h
      · rename_i hscopes
        obtain rfl := Except.ok.inj h
        refine ⟨not_not.mp hredirect, fun hpublic => ?_, fun scope hscope => ?_⟩
        · rw [hpublic] at hpkce
          exact oauthGrantPkceIsValid_challenge (by simpa using hpkce)
        · simp only [List.any_eq_true, Bool.or_eq_true, decide_eq_true_eq, not_exists, not_and, not_or,
            not_not] at hscopes
          exact hscopes scope hscope

/-- What the row and the request have in common when the code is redeemed. -/
structure Redeemable (sha256 : Bytes → Bytes) (application : OAuthApplication) (grant : AccessGrant)
    (request : CodeRequest) (now : ℤ) : Prop where
  secret : application.confidential = true → request.clientSecret.getD [] = application.secret
  redirectUri : request.redirectUri = grant.redirectUri
  unrevoked : grant.revokedAt = none
  unexpired : now < grant.createdAt + grant.expiresIn * 1000000
  challenge : ∀ challenge, grant.codeChallenge = some challenge →
    ∃ v, request.codeVerifier = some v ∧ Schemes.Base64.encodeUrl (sha256 (utf8 v)) = challenge
  confidential : application.confidential = false → grant.codeChallenge.isSome = true

theorem checkedAddSeconds_eq_some {time seconds sum : ℤ} (h : checkedAddSeconds time seconds = some sum) :
    sum = time + seconds * 1000000 := by
  unfold checkedAddSeconds at h
  split at h
  · exact (Option.some.inj h).symm
  · cases h

theorem checkCodeRequest_redeemable {sha256 : Bytes → Bytes} {application : OAuthApplication}
    {grant : AccessGrant} {request : CodeRequest} {now : ℤ}
    (h : checkCodeRequest sha256 application grant request now = .ok ()) :
    Redeemable sha256 application grant request now := by
  unfold checkCodeRequest at h
  split at h
  · cases h
  · rename_i hsecret
    split at h
    · cases h
    · rename_i hgrant
      split at h
      · cases h
      · rename_i hpkce
        simp only [not_or, ne_eq, not_not, Bool.not_eq_true] at hgrant
        obtain ⟨hredirect, hunrevoked, hexpiry, -⟩ := hgrant
        have hmatches := oauthPkceMatches_eq_true (by simpa using hpkce)
        refine ⟨fun hconfidential => ?_, hredirect.symm, by simpa using hunrevoked, ?_, fun challenge hchallenge => ?_,
          fun hpublic => ?_⟩
        · rw [hconfidential] at hsecret
          exact (constantTimeStringEqual_iff.mp (by simpa using hsecret)).symm
        · cases hsum : checkedAddSeconds grant.createdAt grant.expiresIn with
          | none => simp [hsum] at hexpiry
          | some sum =>
            rw [← checkedAddSeconds_eq_some hsum]
            simpa [hsum] using hexpiry
        · rcases hmatches with ⟨hnone, -⟩ | ⟨v, hverifier, hdigest⟩
          · rw [hnone] at hchallenge
            cases hchallenge
          · exact ⟨v, hverifier, Option.some.inj (hdigest.symm.trans hchallenge)⟩
        · rcases hmatches with ⟨-, hconfidential⟩ | ⟨v, -, hdigest⟩
          · rw [hpublic] at hconfidential
            cases hconfidential
          · rw [hdigest]
            rfl

end Rustodon.OAuth
