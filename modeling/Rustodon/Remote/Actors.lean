import Rustodon.Inbox.Activity
import Rustodon.Remote.Transport

/-! @src remote.rs | name:Actors | scheme:json | family:remote

    The documents of remote accounts: WebFinger, actors and public keys. Parsing a URL and writing
    one is the work of another library, and so is parsing JSON. -/

namespace Rustodon.Remote
open Schemes.Checked Schemes.Json Schemes.Utf8 Signatures

structure RemotePublicKey where
  id : Url
  owner : Url
  pem : Text
  deriving DecidableEq, Repr

/-- An image is absent, explicitly removed, or replaced. -/
structure RemoteActor where
  id : Url
  username : Text
  domain : Text
  actorType : Text
  displayName : Text
  note : Text
  suspended : Bool
  profileUrl : Option Url
  avatar : Option (Option String)
  header : Option (Option String)
  inbox : Url
  sharedInbox : Option Url
  followers : Option Url
  following : Option Url
  publicKeys : List RemotePublicKey
  keySetComplete : Bool
  deriving DecidableEq, Repr

structure WebFingerDocument where
  subject : Text
  selfLink : Url
  deriving DecidableEq, Repr

structure ParsedPublicKeys where
  embedded : List RemotePublicKey
  references : List Url
  deriving DecidableEq, Repr

/-- `Url::parse`, `Url::as_str`, `query_pairs_mut().append_pair`, `serde_json::from_slice` and
    `html_escape::decode_html_entities`. -/
structure DocumentEnv where
  origins : UrlParsers
  parse : Text → Option Url
  asStr : Url → Text
  appendPair : Url → Text → Text → Url
  fromSlice : Bytes → Option Value
  decodeHtmlEntities : Text → Text

def maxRemoteUsernameChars : ℕ := 2048

def maxRemoteDisplayNameChars : ℕ := 2048

def maxRemoteNoteChars : ℕ := 20 * 1024

def maxRemotePublicKeys : ℕ := 10

def maxRemoteKeyIdChars : ℕ := 4096

def maxRemotePublicKeyChars : ℕ := 64 * 1024

def activitystreamsContext : String := "https://www.w3.org/ns/activitystreams"

def securityContext : String := "https://w3id.org/security/v1"

def webfingerContentTypes : List Text := ["application/jrd+json".toList, "application/json".toList]

def hostMetaContentTypes : List Text :=
  ["application/xrd+xml".toList, "application/xml".toList, "text/xml".toList]

def activitypubContentTypes : List Text :=
  ["application/activity+json".toList,
    "application/ld+json; profile=\"https://www.w3.org/ns/activitystreams\"".toList]

def supportedActorTypes : List String :=
  ["Application", "Group", "Organization", "Person", "Service"]

/-- `Value::get` with a name. -/
def field (document : Value) (name : String) : Option Value :=
  document.asObject.bind fun fields => get fields name

/-- The text under a name. -/
def textField (document : Value) (name : String) : Option Text :=
  ((field document name).bind Value.asStr).map String.toList

/-! ### Accounts -/

/-- Words may be joined by dots and hyphens, but not begun or ended by them. -/
def validUsernameFrom : (hasWord endsInWord : Bool) → Text → Bool
  | hasWord, endsInWord, [] => hasWord && endsInWord
  | hasWord, _, c :: s =>
    if c.isAlphanum || c == '_' then validUsernameFrom true true s
    else if c == '.' || c == '-' then hasWord && validUsernameFrom hasWord false s
    else false

def validRemoteUsername (username : Text) : Bool :=
  decide (username.length ≤ maxRemoteUsernameChars) && validUsernameFrom false false username

def stripAcct (value : Text) : Option Text := "acct:".toList.isPrefixOf? value

def parseAccountSubject (value : Text) : Option (Text × Text) :=
  (splitOnce ['@'] ((stripAcct value).getD value)).bind fun (username, domain) =>
    if username = [] ∨ domain = [] ∨ '@' ∈ domain then none else some (username, domain)

def remoteUrlOrigin (url : Url) : Fetched Url := do
  validateRemoteUrl url
  .ok { url with path := ['/'], query := none, fragment := none }

def remoteActorDomain (actorUrl : Url) : Fetched Text := canonicalRemoteDomainFromUrl actorUrl

section Documents

variable (env : DocumentEnv)

def canonicalDomainForUrl (url : Url) (domain : Text) : Fetched Text := do
  let urlDomain ← canonicalRemoteDomainFromUrl url
  if eqIgnoreAsciiCase domain urlDomain then .ok urlDomain
  else do
    let domain ← canonicalRemoteDomain env.origins domain
    failIf (!eqIgnoreAsciiCase domain urlDomain) .originMismatch
    .ok urlDomain

def resource (username domain : Text) : Text := "acct:".toList ++ username ++ '@' :: domain

/-- `join` is that of the URL library. -/
def webfingerUrlAtOrigin (join : Url → Text → Option Url) (username domain : Text) (origin : Url) :
    Fetched Url := do
  let domain ← canonicalDomainForUrl env origin domain
  failIf (!validRemoteUsername username) .invalidUrl
  let url ← okOr (join origin ".well-known/webfinger".toList) .invalidUrl
  .ok (env.appendPair url "resource".toList (resource username domain))

def webfingerUrl (join : Url → Text → Option Url) (username domain : Text) : Fetched Url := do
  let domain ← canonicalRemoteDomain env.origins domain
  let origin ← remoteOrigin env.origins domain
  webfingerUrlAtOrigin env join username domain origin

def isSelfLink (link : Value) : Bool :=
  textField link "rel" == some "self".toList &&
    contentTypeAllowed (textField link "type") activitypubContentTypes

def parseWebfingerDocument (body : Bytes) : Fetched WebFingerDocument := do
  let document ← okOr (env.fromSlice body) .invalidRepresentation
  let subject ← okOr ((textField document "subject").filter fun subject => decide (trim subject ≠ []))
    .invalidRepresentation
  let links ← okOr ((field document "links").bind Value.asArray) .invalidRepresentation
  let link ← okOr (links.find? isSelfLink) .invalidRepresentation
  let selfLink ← okOr ((textField link "href").bind env.parse) .invalidRepresentation
  validateRemoteUrl selfLink
  .ok ⟨subject, selfLink⟩

/-! ### `host-meta` -/

/-- What stands in quotes behind an equals sign. -/
def attributeValue (rest : Text) : Option Text :=
  match trimStart rest with
  | '=' :: rest =>
    match trimStart rest with
    | quote :: rest =>
      if quote = '\'' ∨ quote = '"' then (splitOnce [quote] rest).map Prod.fst else none
    | [] => none
  | _ => none

/-- The matches of a name do not overlap. One counts at the start and behind white space. -/
def xmlAttributeFrom (name : Text) : (previous : Option Char) → (skip : ℕ) → Text → Option Text
  | _, _, [] => none
  | _, skip + 1, c :: s => xmlAttributeFrom name (some c) skip s
  | previous, 0, c :: s =>
    if name.isPrefixOf (c :: s) = true then
      (if previous.all isAsciiWhitespace = true then attributeValue ((c :: s).drop name.length)
        else none).or (xmlAttributeFrom name (some c) (name.length - 1) s)
    else xmlAttributeFrom name (some c) 0 s

def xmlAttribute (tag name : Text) : Option Text := xmlAttributeFrom name none 0 tag

/-- The URL of a `Link` with the relation `lrdd`. -/
def hostMetaTemplate (resource domain : Text) (tag : Text) : Fetched Url := do
  let template ← okOr (xmlAttribute tag "template".toList) .invalidRepresentation
  let template := env.decodeHtmlEntities template
  let url ← okOr (env.parse (replace "\x7buri\x7d".toList resource template)) .invalidRepresentation
  validateRemoteUrl url
  ensureRemoteOrigin env.origins url domain
  .ok url

def hostMetaLink (resource domain : Text) (remainder : Text) : Fetched Url :=
  match hlink : splitOnce "<Link".toList remainder with
  | none => .error .invalidRepresentation
  | some (_, rest) =>
    if (!rest.head?.any fun c => isAsciiWhitespace c || c == '/' || c == '>') = true then
      hostMetaLink resource domain rest
    else
      match hend : splitOnce ['>'] rest with
      | none => .error .invalidRepresentation
      | some (tag, remainder) =>
        if xmlAttribute tag "rel".toList ≠ some "lrdd".toList then
          hostMetaLink resource domain remainder
        else hostMetaTemplate env resource domain tag
termination_by remainder.length
decreasing_by
  all_goals
    have hlength := congrArg List.length (splitOnce_eq_some hlink)
    simp only [List.length_append] at hlength
  · simp at hlength
    omega
  · have hlength' := congrArg List.length (splitOnce_eq_some hend)
    simp at hlength hlength'
    omega

def parseHostMetaWebfingerUrl (body : Bytes) (username domain : Text) : Fetched Url := do
  let text ← okOr (String.fromUTF8? ⟨body.toArray⟩) .invalidRepresentation
  let domain ← canonicalRemoteDomain env.origins domain
  hostMetaLink env (resource username domain) domain text.toList

/-! ### Values -/

/-- Whether a context is, or contains, one of the given ones. -/
def contextIs (accepted : String) : Option Value → Bool
  | some (.string value) => value == accepted
  | some (.array values) => values.any fun value => value.asStr == some accepted
  | _ => false

def supportedActivitypubContext (value : Option Value) : Bool :=
  contextIs activitystreamsContext value

def supportedKeyContext (value : Option Value) : Bool :=
  supportedActivitypubContext value || contextIs securityContext value

mutual

def actorType : Value → Option Text
  | .string value => if supportedActorTypes.contains value then some value.toList else none
  | .array values => firstActorType values
  | _ => none

def firstActorType : List Value → Option Text
  | [] => none
  | value :: values => (actorType value).or (firstActorType values)

end

mutual

def urlValue : Value → Option Url
  | .string value => env.parse value.toList
  | .array values => firstUrlValue values
  | .object fields => (((fieldUrls fields).lookup "id").or ((fieldUrls fields).lookup "href")).join
  | _ => none

def firstUrlValue : List Value → Option Url
  | [] => none
  | value :: values => (urlValue value).or (firstUrlValue values)

/-- The URLs of all entries of an object, of which `url_value` looks at one. -/
def fieldUrls : Fields → List (String × Option Url)
  | [] => []
  | (name, value) :: fields => (name, urlValue value) :: fieldUrls fields

end

def optionalRemoteUrl (document : Value) (name : String) : Fetched (Option Url) :=
  match field document name with
  | none | some .null | some (.array []) => .ok none
  | some value => do
    let url ← okOr (urlValue env value) .invalidRepresentation
    validateRemoteUrl url
    .ok (some url)

/-! ### Keys -/

def remoteKeyDocumentUrl (keyId : Url) : Fetched Url := do
  validateRemoteUrl { keyId with fragment := none }
  .ok { keyId with fragment := none }

def validateRemoteKeyUri (keyId : Url) : Fetched Unit := do
  failIf (decide (maxRemoteKeyIdChars < (env.asStr keyId).length)) .invalidRepresentation
  let _ ← remoteKeyDocumentUrl keyId
  .ok ()

def validateRemoteKeyId (keyId actorUrl : Url) : Fetched Unit := do
  validateRemoteKeyUri env keyId
  failIf (!sameOriginUrl { keyId with fragment := none } actorUrl) .originMismatch

def parseRemoteKeyId (value : Value) : Fetched Url :=
  okOr ((value.asStr.map String.toList).bind env.parse) .invalidRepresentation

def parseRemoteKeyIdOrUrl (value : Value) : Fetched Url :=
  match value with
  | .string _ => parseRemoteKeyId env value
  | .object fields => do
    let value ← okOr ((get fields "id").or (get fields "href")) .invalidRepresentation
    parseRemoteKeyId env value
  | _ => .error .invalidRepresentation

def parseRemotePublicKeyObjectUnbound (value : Value) (expectedId : Option Url) :
    Fetched RemotePublicKey := do
  let publicKey ← okOr value.asObject .invalidRepresentation
  let ownerValue ← okOr (get publicKey "owner") .invalidRepresentation
  let owner ← parseRemoteKeyIdOrUrl env ownerValue
  validateRemoteUrl owner
  let idValue ← okOr (get publicKey "id") .invalidRepresentation
  let id ← parseRemoteKeyId env idValue
  validateRemoteKeyUri env id
  failIf (expectedId.any fun expected => expected != id) .identityMismatch
  let pem ← okOr ((((get publicKey "publicKeyPem").bind Value.asStr).map String.toList).filter
    fun pem => decide (trim pem ≠ []) && decide (pem.length ≤ maxRemotePublicKeyChars))
    .invalidRepresentation
  .ok ⟨id, owner, pem⟩

def parseRemotePublicKeyObject (value : Value) (expectedId : Option Url) (actorUrl : Url) :
    Fetched RemotePublicKey := do
  let key ← parseRemotePublicKeyObjectUnbound env value expectedId
  failIf (key.owner != actorUrl) .identityMismatch
  validateRemoteKeyId env key.id actorUrl
  .ok key

/-- The owner of a key is the actor when the key names none. -/
def keyOwner (publicKey : Fields) (actorUrl : Url) : Fetched Url :=
  match get publicKey "owner" with
  | none => .ok actorUrl
  | some owner => parseRemoteKeyIdOrUrl env owner

/-- Accepts the id of a key, which is to be new. -/
def newKeyId (actorUrl : Url) (keyIds : List Url) (value : Value) : Fetched Url := do
  let id ← parseRemoteKeyId env value
  validateRemoteKeyId env id actorUrl
  failIf (keyIds.contains id) .invalidRepresentation
  .ok id

/-- One pass of the loop over the keys of an actor, with the ids that have been seen. -/
def parsePublicKey (actorUrl : Url) (state : List Url × ParsedPublicKeys) (value : Value) :
    Fetched (List Url × ParsedPublicKeys) :=
  let (keyIds, keys) := state
  if value.isNull = true then .ok state
  else
    match value.asObject with
    | none => do
      let id ← newKeyId env actorUrl keyIds value
      .ok (id :: keyIds, { keys with references := keys.references ++ [id] })
    | some publicKey => do
      let idValue ← okOr (get publicKey "id") .invalidRepresentation
      let id ← newKeyId env actorUrl keyIds idValue
      let owner ← keyOwner env publicKey actorUrl
      failIf (owner != actorUrl) .identityMismatch
      if (get publicKey "publicKeyPem").isSome = true then do
        let key ← parseRemotePublicKeyObject env value (some id) actorUrl
        .ok (id :: keyIds, { keys with embedded := keys.embedded ++ [key] })
      else .ok (id :: keyIds, { keys with references := keys.references ++ [id] })

def publicKeyValues : Option Value → Fetched (List Value)
  | none | some .null => .ok []
  | some (.array values) => .ok values
  | some (.object fields) => .ok [.object fields]
  | some (.string value) => .ok [.string value]
  | _ => .error .invalidRepresentation

def parsePublicKeys (actor : Value) (actorUrl : Url) : Fetched ParsedPublicKeys := do
  let values ← publicKeyValues (field actor "publicKey")
  failIf (decide (maxRemotePublicKeys < values.length)) .invalidRepresentation
  let (_, keys) ← values.foldlM (parsePublicKey env actorUrl) ([], ⟨[], []⟩)
  .ok keys

/-! ### Actors -/

def validateActivitypubIdentity (body : Bytes) (expectedId : Url) : Fetched Unit := do
  let document ← okOr (env.fromSlice body) .invalidRepresentation
  failIf (textField document "id" != some (env.asStr expectedId)) .identityMismatch

/-- The name of an account in the document of its actor, when the domain is that of the actor. -/
def actorUsername (actor : Value) (domain : Text) : Option Text :=
  ((((textField actor "webfinger").bind parseAccountSubject).filter fun (_, actorDomain) =>
    eqIgnoreAsciiCase actorDomain domain).map Prod.fst).or
      ((textField actor "preferredUsername").filter fun value => decide (trim value ≠ []))

def remoteActorHandle (document : Value) (actorUrl : Url) : Fetched (Text × Text) :=
  match ((textField document "webfinger").bind parseAccountSubject).bind fun (username, domain) =>
      if validRemoteUsername username = true then
        (canonicalRemoteDomain env.origins domain).toOption.map fun domain => (username, domain)
      else none with
  | some handle => .ok handle
  | none => do
    let username ← okOr ((textField document "preferredUsername").filter fun value =>
      decide (trim value ≠ []) && validRemoteUsername value) .invalidRepresentation
    let domain ← remoteActorDomain actorUrl
    .ok (username, domain)

def suspendedField : Option Value → Fetched Bool
  | none | some .null => .ok false
  | some (.bool value) => .ok value
  | _ => .error .invalidRepresentation

/-- The inbox parser reads the URLs of images. -/
def inboxEnv : Inbox.Env where
  fromStr _ := none
  parseUrl s := (env.parse s.toList).map fun url =>
    ⟨String.ofList url.scheme, url.host.map String.ofList⟩

def actorImageField : Option Value → Fetched (Option (Option String))
  | none => .ok none
  | some value =>
    match Inbox.actorImageUri (inboxEnv env) (some value) with
    | .ok uri => .ok (some uri)
    | .error _ => .error .invalidRepresentation

def sharedInboxUrl (actor : Value) : Option Url :=
  ((((field actor "endpoints").filter Value.isObject).bind fun endpoints =>
    field endpoints "sharedInbox").or (field actor "sharedInbox")).bind (urlValue env)

/-- The domain under which an actor is to be known is that of its URL, read once more if need be. -/
def actorDocumentDomain (actorUrl : Url) (domain : Text) : Fetched Text := do
  let actorDomain ← remoteActorDomain actorUrl
  if eqIgnoreAsciiCase domain actorDomain then .ok actorDomain
  else do
    let domain ← canonicalRemoteDomain env.origins domain
    failIf (!eqIgnoreAsciiCase domain actorDomain) .originMismatch
    .ok domain

def parseRemoteActorDocument (body : Bytes) (actorUrl : Url) (username domain : Text) :
    Fetched (RemoteActor × List Url) := do
  let domain ← actorDocumentDomain env actorUrl domain
  validateActivitypubIdentity env body actorUrl
  let actor ← okOr (env.fromSlice body) .invalidRepresentation
  failIf (!supportedActivitypubContext (field actor "@context")) .invalidRepresentation
  let actorType ← okOr ((field actor "type").bind actorType) .invalidRepresentation
  let actorUsername ← okOr (actorUsername actor domain) .invalidRepresentation
  failIf (!validRemoteUsername actorUsername || !eqIgnoreAsciiCase actorUsername username)
    .identityMismatch
  let displayName := ((textField actor "name").getD []).take maxRemoteDisplayNameChars
  let note := ((textField actor "summary").getD []).take maxRemoteNoteChars
  let suspended ← suspendedField (field actor "suspended")
  let inbox ← okOr ((field actor "inbox").bind (urlValue env)) .invalidRepresentation
  validateRemoteUrl inbox
  let profileUrl ← optionalRemoteUrl env actor "url"
  failIf (profileUrl.any fun profile => !sameHost profile actorUrl) .originMismatch
  let sharedInbox := sharedInboxUrl env actor
  (sharedInbox.map validateRemoteUrl).getD (.ok ())
  let keys ← parsePublicKeys env actor actorUrl
  let avatar ← actorImageField env (field actor "icon")
  let header ← actorImageField env (field actor "image")
  let followers ← optionalRemoteUrl env actor "followers"
  let following ← optionalRemoteUrl env actor "following"
  .ok ({ id := actorUrl, username := actorUsername, domain, actorType, displayName, note, suspended,
         profileUrl, avatar, header, inbox, sharedInbox, followers, following,
         publicKeys := keys.embedded, keySetComplete := keys.references.isEmpty }, keys.references)

/-- WebFinger has confirmed the account, the domain of which may be another one. -/
def parseConfirmedActorDocument (body : Bytes) (actorUrl : Url) (confirmed : Text × Text) :
    Fetched (RemoteActor × List Url) := do
  let actorDomain ← remoteActorDomain actorUrl
  let (actor, references) ← parseRemoteActorDocument env body actorUrl confirmed.1 actorDomain
  .ok ({ actor with domain := confirmed.2 }, references)

def parseRemoteKeyDocument (body : Bytes) (keyId actorUrl : Url) : Fetched RemotePublicKey := do
  validateRemoteKeyId env keyId actorUrl
  let document ← okOr (env.fromSlice body) .invalidRepresentation
  if (field document "publicKeyPem").isSome = true then do
    failIf (!supportedKeyContext (field document "@context")) .invalidRepresentation
    parseRemotePublicKeyObject env document (some keyId) actorUrl
  else do
    validateActivitypubIdentity env body actorUrl
    failIf (!supportedActivitypubContext (field document "@context") ||
      ((field document "type").bind actorType).isNone) .invalidRepresentation
    let keys ← parsePublicKeys env document actorUrl
    okOr (keys.embedded.find? fun key => key.id == keyId) .invalidRepresentation

def actorContainsKey (actor : RemoteActor) (references : List Url) (keyId : Url) : Bool :=
  actor.publicKeys.any (fun key => key.id == keyId) || references.contains keyId

end Documents

end Rustodon.Remote
