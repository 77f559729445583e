import Mathlib.Data.Char
import Mathlib.Data.List.Lex
import Mathlib.Data.List.MinMax
import Mathlib.Order.Defs.LinearOrder
import Rustodon.Ingest.Accounts
import Rustodon.Remote.Url
import Rustodon.Schemes.Labels
import Rustodon.Schemes.Like

/-! @src mastodon/policy.rs, mastodon/write_repository.rs, mastodon/write_repository/purge.rs |
    name:Domain policy | scheme:labels | family:moderation

    Which of the rules on domains holds for a host: the longest one whose domain is the host or above
    it. The rules are found by a query that compares text, and decided by a function that normalizes
    the host and the domains once more. -/

namespace Rustodon.Moderation
open Schemes.Utf8 Schemes.Like Schemes.Labels
open Ingest (WriteError Written)
open Remote

/-- What other libraries do with text: reading hosts, `Idna::to_ascii` with transitional processing,
    and `lower` in the database. -/
structure Env where
  parsers : UrlParsers
  toAscii : Text → Option Text
  lower : Text → Text

variable (env : Env)

/-! ### Hosts and domains -/

def domainPolicyHostname (domain : Text) : Text :=
  match canonicalRemoteHost env.parsers domain with
  | .ok host => host
  | .error _ => trimDots domain

/-- The bytes that a label may have. -/
def isLabelChar (c : Char) : Bool := c.isAlphanum || c == '-'

def invalidDomain : WriteError := .invalidInput "domain block domain is invalid"

/-- `strip_suffix('/')`, where there is one. -/
def stripSlash (domain : Text) : Text := if domain.getLast? = some '/' then domain.dropLast else domain

def normalizeDomainBlockDomain (domain : Text) : Written Text :=
  let domain := stripSlash (trim domain)
  if domain = [] ∨ '/' ∈ domain then .error invalidDomain
  else
    match canonicalRemoteDomain env.parsers domain with
    | .error _ => .error invalidDomain
    | .ok domain =>
      if ':' ∈ domain then .error (.invalidInput "domain block domain must not include a port")
      else if 256 ≤ byteLen domain ∨ (labels '.' domain).any (fun label =>
          label.isEmpty || decide (63 < byteLen label) || !label.all isLabelChar) = true then
        .error invalidDomain
      else .ok domain

/-- A label of a domain that rules apply to. -/
def isPolicyLabel (label : Text) : Bool :=
  !label.isEmpty && label.head? != some '-' && label.getLast? != some '-' && label.all isLabelChar

def normalizePolicyDomain (value : Text) : Option Text :=
  let value := trimDots ((trim value).filter fun c => c != '/')
  if value = [] ∨ value.any isWhitespace = true then none
  else
    (env.toAscii value).filter fun domain =>
      !domain.isEmpty && domain.head? != some '.' && domain.getLast? != some '.' &&
        (labels '.' domain).all isPolicyLabel

/-! ### Rules -/

inductive DomainSeverity where
  | silence
  | suspend
  | noop
  | unknown (value : ℤ)
  deriving DecidableEq

def DomainSeverity.read : Option ℤ → DomainSeverity
  | some value =>
    if value = 0 then .silence else if value = 1 then .suspend else if value = 2 then .noop
    else .unknown value
  | none => .unknown (-2 ^ 31)

structure GlobalDomainRule where
  domain : Text
  severity : DomainSeverity
  rejectMedia : Bool
  rejectReports : Bool
  deriving DecidableEq

inductive GlobalDomainPolicy where
  | allowed
  | matched (rule : GlobalDomainRule)
  | invalidDomain
  deriving DecidableEq

def GlobalDomainPolicy.blocksFederation : GlobalDomainPolicy → Bool
  | .allowed => false
  | .invalidDomain => true
  | .matched rule =>
    match rule.severity with
    | .suspend | .unknown _ => true
    | .silence | .noop => false

def GlobalDomainPolicy.rejectsMedia (policy : GlobalDomainPolicy) : Bool :=
  policy.blocksFederation ||
    match policy with
    | .matched rule => rule.rejectMedia
    | _ => false

/-- `domain == rule || domain.strip_suffix(rule).is_some_and(|prefix| prefix.ends_with('.'))`. -/
def ruleMatches (domain rule : Text) : Bool :=
  decide (domain = rule) ||
    (rule.isSuffixOf domain && (domain.take (domain.length - rule.length)).getLast? == some '.')

/-- The rules that match, with their normalized domains. -/
def matchingRules (domain : Text) (rules : List GlobalDomainRule) : List (GlobalDomainRule × Text) :=
  (rules.filterMap fun rule =>
    (normalizePolicyDomain env rule.domain).map fun domain => (rule, domain)).filter fun entry =>
      ruleMatches domain entry.2

/-- `max_by_key` keeps the last one of those with the largest key. -/
def globalDomainPolicy (domain : Text) (rules : List GlobalDomainRule) : GlobalDomainPolicy :=
  match normalizePolicyDomain env domain with
  | none => .invalidDomain
  | some domain =>
    match (matchingRules env domain rules).reverse.argmax fun entry => byteLen entry.2 with
    | none => .allowed
    | some (rule, _) => .matched rule

/-- A row of `domain_blocks`. Times count microseconds. -/
structure DomainBlock where
  id : ℤ
  domain : Text
  severity : Option ℤ
  rejectMedia : Bool
  rejectReports : Bool
  createdAt : ℤ
  updatedAt : ℤ
  deriving DecidableEq

def DomainBlock.policyRule (block : DomainBlock) : GlobalDomainRule :=
  ⟨block.domain, DomainSeverity.read block.severity, block.rejectMedia, block.rejectReports⟩

/-- `name = lower(domain) OR name LIKE '%.' || lower(domain)`. -/
def underDomain (name domain : Text) : Bool :=
  decide (name = domain) || like ('%' :: '.' :: domain) name

/-- The condition of `matching_domain_blocks_in_transaction`. -/
def prefilter (domain : Text) (block : DomainBlock) : Bool :=
  underDomain (env.lower (trimDots domain)) (env.lower block.domain)

/-- `matching_domain_blocks_in_transaction`, in the order of the table. -/
def matchingDomainBlocks (domain : Text) (blocks : List DomainBlock) : List DomainBlock :=
  blocks.filter (prefilter env domain)

/-- `remote_domain_allowed_in_transaction`, without limited federation, for the rows that the query
    returns. -/
def remoteDomainAllowed (domain : Text) (rows : List DomainBlock) : Bool :=
  !(globalDomainPolicy env (domainPolicyHostname env domain)
    (rows.map DomainBlock.policyRule)).blocksFederation

/-! ### Locks -/

/-- The text of an IPv4 address: four numbers below 256, without leading zeros. -/
def isIpv4 (host : Text) : Bool :=
  let parts := labels '.' host
  decide (parts.length = 4) && parts.all fun part =>
    !part.isEmpty && part.all Char.isDigit && decide (Nat.ofDigitChars 10 part 0 < 256) &&
      (decide (part.length = 1) || part.head? != some '0')

/-- `host.parse::<IpAddr>().is_ok() || host.contains(':')`; the text of an IPv6 address has colons. -/
def isAddress (host : Text) : Bool := isIpv4 host || decide (':' ∈ host)

/-- `sort_unstable` and `dedup`. -/
def sorted (scopes : List Text) : List Text := scopes.dedup.mergeSort fun a b => decide (a ≤ b)

def remoteDomainLockScopes (domain : Text) : List Text :=
  let host := toAsciiLowercase (domainPolicyHostname env domain)
  if isAddress host then [host] else sorted (labelSuffixes '.' host)

def lockPrefix : Text := "rustodon:domain:".toList

/-- The name of the lock that `lock_domain_scope` takes. -/
def domainLockName (domain : Text) : Text :=
  lockPrefix ++ toAsciiLowercase (domainPolicyHostname env domain)

/-- The locks that `with_remote_domains_locks` takes, in order. -/
def remoteDomainLocks (domains : List Text) : List Text :=
  (sorted (domains.flatMap (remoteDomainLockScopes env))).map (domainLockName env)

end Rustodon.Moderation
