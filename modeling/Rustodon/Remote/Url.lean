import Mathlib.Data.List.DropRight
import Rustodon.Schemes.Utf8

/-! @src remote.rs | name:Origins | scheme:urls | family:remote

    The parts of a URL that the transport reads, the origin of a domain, and the domain under which a
    peer is stored. Reading a host and a path is the work of another library, and a parameter; where
    host, port and path of an origin begin is not. -/

namespace Rustodon.Remote
open Schemes.Utf8

inductive IpAddr where
  | v4 (address : BitVec 32)
  | v6 (address : BitVec 128)
  deriving DecidableEq, Repr

inductive RemoteFetchError where
  | invalidUrl
  | noAddresses
  | blockedAddress (address : IpAddr)
  | dns
  | client
  | request
  | redirect
  | tooManyRedirects
  | unexpectedStatus (status : ℕ)
  | missingContentType
  | unsupportedContentType
  | unsupportedEncoding
  | bodyTooLarge
  | bodyRead
  | invalidRepresentation
  | identityMismatch
  | originMismatch
  | policyDenied
  | signing
  | domainBudgetExceeded
  deriving DecidableEq, Repr

abbrev Fetched := Except RemoteFetchError

/-- A parsed URL. `port` is `port()`, which leaves the default port of the scheme out. -/
structure Url where
  scheme : Text
  username : Text
  password : Option Text
  host : Option Text
  port : Option ℕ
  path : Text
  query : Option Text
  fragment : Option Text
  deriving DecidableEq, Repr

def http : Text := ['h', 't', 't', 'p']

def https : Text := ['h', 't', 't', 'p', 's']

def defaultPort (scheme : Text) : Option ℕ :=
  if scheme = http then some 80 else if scheme = https then some 443 else none

def Url.portOrKnownDefault (url : Url) : Option ℕ := url.port.or (defaultPort url.scheme)

def validateRemoteUrl (url : Url) : Fetched Unit :=
  if (url.scheme ≠ http ∧ url.scheme ≠ https) ∨ url.host.getD [] = [] ∨ url.username ≠ [] ∨
      url.password.isSome = true ∨ url.fragment.isSome = true then
    .error .invalidUrl
  else .ok ()

def sameHost (left right : Url) : Bool :=
  left.host.any fun l => right.host.any fun r => eqIgnoreAsciiCase l r

def sameOriginUrl (left right : Url) : Bool :=
  eqIgnoreAsciiCase left.scheme right.scheme && sameHost left right &&
    decide (left.portOrKnownDefault = right.portOrKnownDefault)

/-! ### `Url::parse` of an origin -/

/-- `Host::parse` with its serialization, and the path of an `http` or `https` URL. -/
structure UrlParsers where
  host : Text → Option Text
  path : Text → Text

def isSlash (c : Char) : Bool := c == '/' || c == '\\'

/-- The host ends at a colon outside of brackets, and at the path. -/
def takeHost : Bool → Text → Text × Text
  | _, [] => ([], [])
  | inside, c :: s =>
    if (c == ':' && !inside) || isSlash c then ([], c :: s)
    else
      let (host, rest) := takeHost (if c = '[' then true else if c = ']' then false else inside) s
      (c :: host, rest)

/-- The port, and the path behind it. A port without digits is no port. -/
def parsePort (default : Option ℕ) (s : Text) : Option (Option ℕ × Text) :=
  if s.head? = some ':' then
    let digits := s.tail.takeWhile Char.isDigit
    let rest := s.tail.dropWhile Char.isDigit
    let port := Nat.ofDigitChars 10 digits 0
    if rest.head?.all isSlash = true ∧ port < 65536 then
      some (if digits = [] ∨ some port = default then none else some port, rest)
    else none
  else some (none, s)

/-- `Url::parse` of a scheme and what follows its `://`, for text without credentials, query,
    fragment and white space. -/
def parseOrigin (parsers : UrlParsers) (scheme rest : Text) : Option Url :=
  let (hostText, afterHost) := takeHost false (rest.dropWhile isSlash)
  if hostText = [] then none
  else
    (parsers.host hostText).bind fun host =>
      (parsePort (defaultPort scheme) afterHost).map fun (port, path) =>
        ⟨scheme, [], none, some host, port, parsers.path path, none, none⟩

/-! ### Domains -/

def isAsciiWhitespace (c : Char) : Bool :=
  c == ' ' || c == '\t' || c == '\n' || c == '\x0c' || c == '\r'

def trimDots (s : Text) : Text := s.rdropWhile (· == '.')

/-- What may not stand in a domain, so that it is an authority without credentials. -/
def isExcluded (c : Char) : Bool :=
  isAsciiWhitespace c || c == '@' || c == '/' || c == '?' || c == '#'

def onion : Text := ['.', 'o', 'n', 'i', 'o', 'n']

def originScheme (domain : Text) : Text :=
  if onion.isSuffixOf (toAsciiLowercase domain) then http else https

def remoteOrigin (parsers : UrlParsers) (domain : Text) : Fetched Url :=
  let domain := trimDots domain
  if domain.all isWhitespace = true ∨ domain.any isExcluded = true then .error .invalidUrl
  else
    match parseOrigin parsers (originScheme domain) (domain ++ ['/']) with
    | none => .error .invalidUrl
    | some origin =>
      if origin.host.isNone = true ∨ origin.username ≠ [] ∨ origin.password.isSome = true ∨
          origin.path ≠ ['/'] ∨ origin.query.isSome = true ∨ origin.fragment.isSome = true then
        .error .invalidUrl
      else .ok origin

/-- The brackets of an IPv6 address and the dots behind a name are no part of it. -/
def trimHost (host : Text) : Text :=
  trimDots ((host.dropWhile (· == '[')).rdropWhile (· == ']'))

def canonicalRemoteHostFromOrigin (origin : Url) : Fetched Text :=
  match origin.host with
  | none => .error .invalidUrl
  | some host => .ok (trimHost host)

def canonicalRemoteHost (parsers : UrlParsers) (domain : Text) : Fetched Text := do
  canonicalRemoteHostFromOrigin (← remoteOrigin parsers domain)

/-- The text of a host and of a port that is not the default one. -/
def domainText (host : Text) : Option ℕ → Text
  | some port =>
    (if ':' ∈ host then '[' :: (host ++ [']']) else host) ++ ':' :: Nat.toDigits 10 port
  | none => if ':' ∈ host then '[' :: (host ++ [']']) else host

def canonicalRemoteDomainFromOrigin (origin : Url) : Fetched Text := do
  let host ← canonicalRemoteHostFromOrigin origin
  if host = [] then .error .invalidUrl
  else
    .ok (domainText host (origin.port.filter fun port =>
      decide (some port ≠ defaultPort origin.scheme)))

def canonicalRemoteDomain (parsers : UrlParsers) (domain : Text) : Fetched Text := do
  canonicalRemoteDomainFromOrigin (← remoteOrigin parsers domain)

def canonicalRemoteDomainFromUrl (url : Url) : Fetched Text := do
  validateRemoteUrl url
  canonicalRemoteDomainFromOrigin url

def ensureRemoteOrigin (parsers : UrlParsers) (url : Url) (domain : Text) : Fetched Unit := do
  let expected ← remoteOrigin parsers domain
  if sameOriginUrl url expected then .ok () else .error .originMismatch

end Rustodon.Remote
