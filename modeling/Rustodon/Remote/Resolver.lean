import Rustodon.Remote.Actors

/-! @src remote.rs | name:Account resolver | scheme:checked computations | family:remote

    From an account, an actor or a key to the actor that it belongs to. The web answers a URL by
    what its hop does, so that it is a function of the URL; the transport follows its redirects. -/

namespace Rustodon.Remote
open Schemes.Checked Schemes.Json Schemes.Utf8 Signatures

structure RemoteFetcher where
  limits : RemoteFetchLimits
  mediaPolicy : Option RemoteMediaPolicy
  urls : UrlEnv
  crypto : Signatures.Env
  web : Url → Hop

/-- A fetcher, and the key that signs the requests for actors. -/
structure RemoteAccountResolver where
  fetcher : RemoteFetcher
  env : DocumentEnv
  signer : Option HttpSignatureSigner

structure RemoteKeyResolution where
  actor : RemoteActor
  key : RemotePublicKey
  domain : Text
  deriving DecidableEq, Repr

namespace RemoteFetcher

variable (fetcher : RemoteFetcher)

/-- One pass of the loop, which the policy always lets through. -/
def boundPass (acceptedContentTypes : List Text) (expectedOrigin : Url)
    (signer : Option HttpSignatureSigner) (last : Bool) (url : Url) : Fetching RemoteFetchHop :=
  getPass fetcher.limits fetcher.mediaPolicy fetcher.urls fetcher.crypto acceptedContentTypes
    (some expectedOrigin) signer { fetcher.web url with policy := fun _ => .ok () } last url

def getBoundToOriginWithSigner (url : Url) (acceptedContentTypes : List Text) (expectedOrigin : Url)
    (signer : Option HttpSignatureSigner) : Fetched RemoteResponse :=
  (redirectLoop (fun _ last url => fetcher.boundPass acceptedContentTypes expectedOrigin signer last url)
    fetcher.limits.maxRedirects 0 url).result

def getBoundToOrigin (url : Url) (acceptedContentTypes : List Text) (expectedOrigin : Url) :
    Fetched RemoteResponse :=
  fetcher.getBoundToOriginWithSigner url acceptedContentTypes expectedOrigin none

def validateTarget (url : Url) : Fetched Unit := do
  validateRemoteUrl url
  (fetcher.web url).permit
  let addresses ← resolveRemoteAddresses (fetcher.urls.host url) url.portOrKnownDefault
    (fetcher.web url).lookupHost
  validateResolvedAddresses addresses

end RemoteFetcher

/-! ### WebFinger -/

/-- The second of the answers, to which the first one has led. -/
def confirmAgain (actorUrl : Url) (confirmedUser confirmedDomain : Text)
    (second : WebFingerDocument) : Fetched (Text × Text) :=
  let confirms := (parseAccountSubject second.subject).any fun (user, domain) =>
    eqIgnoreAsciiCase user confirmedUser && eqIgnoreAsciiCase domain confirmedDomain
  if confirms = true ∧ second.selfLink = actorUrl then .ok (confirmedUser, confirmedDomain)
  else .error .identityMismatch

def confirmWebfinger (env : DocumentEnv) (username domain : Text) (actorUrl : Url)
    (fetch : Text → Text → Fetched WebFingerDocument) : Fetched (Text × Text) := do
  let first ← fetch username domain
  let (confirmedUser, confirmedDomain) ← okOr (parseAccountSubject first.subject)
    .invalidRepresentation
  if eqIgnoreAsciiCase confirmedUser username = true ∧
      eqIgnoreAsciiCase confirmedDomain domain = true then
    if first.selfLink = actorUrl then .ok (username, domain) else .error .identityMismatch
  else do
    let confirmedDomain ← canonicalRemoteDomain env.origins confirmedDomain
    failIf (!validRemoteUsername confirmedUser) .invalidRepresentation
    let second ← fetch confirmedUser confirmedDomain
    confirmAgain actorUrl confirmedUser confirmedDomain second

/-! ### Keys by reference -/

/-- The keys that can be fetched. An error that stops is returned, and others leave a key out. -/
def fetchKeyReferences (stops : RemoteFetchError → Bool) (fetchKey : Url → Fetched RemotePublicKey) :
    List Url → RemoteActor → Fetched RemoteActor
  | [], actor => .ok actor
  | keyId :: references, actor =>
    match fetchKey keyId with
    | .ok key =>
      fetchKeyReferences stops fetchKey references
        { actor with publicKeys := actor.publicKeys ++ [key] }
    | .error e =>
      if stops e = true then .error e
      else fetchKeyReferences stops fetchKey references { actor with keySetComplete := false }

namespace RemoteAccountResolver

variable (resolver : RemoteAccountResolver)

/-- A document that is fetched from its own origin, and stays on it. -/
def getActivitypub (url expectedOrigin : Url) : Fetched RemoteResponse := do
  let response ← resolver.fetcher.getBoundToOriginWithSigner url activitypubContentTypes expectedOrigin
    resolver.signer
  failIf (!sameOriginUrl response.url expectedOrigin) .originMismatch
  .ok response

/-- The URL in the `id` of a document. -/
def documentId (document : Value) : Fetched Url :=
  okOr ((textField document "id").bind resolver.env.parse) .invalidRepresentation

def validateTargets (actor : RemoteActor) : Fetched Unit := do
  resolver.fetcher.validateTarget actor.inbox
  (actor.sharedInbox.map resolver.fetcher.validateTarget).getD (.ok ())
  (actor.profileUrl.map resolver.fetcher.validateTarget).getD (.ok ())

/-- The host of the actor is asked at its exact origin. -/
def webfingerOrigin (actorUrl : Url) (domain : Text) : Fetched Url := do
  let actorOrigin ← remoteUrlOrigin actorUrl
  let actorHost ← remoteActorDomain actorUrl
  if eqIgnoreAsciiCase domain actorHost then .ok actorOrigin
  else remoteOrigin resolver.env.origins domain

def fetchWebfinger (actorUrl : Url) (username domain : Text) : Fetched WebFingerDocument := do
  let origin ← resolver.webfingerOrigin actorUrl domain
  let url ← webfingerUrlAtOrigin resolver.env resolver.fetcher.urls.join username domain origin
  let response ← resolver.fetcher.getBoundToOrigin url webfingerContentTypes origin
  parseWebfingerDocument resolver.env response.body

def verifyRemoteActorWebfinger (username domain : Text) (actorUrl : Url) : Fetched (Text × Text) := do
  let _ ← remoteUrlOrigin actorUrl
  let _ ← remoteActorDomain actorUrl
  confirmWebfinger resolver.env username domain actorUrl (resolver.fetchWebfinger actorUrl)

/-- The document of an actor whose account is confirmed, as the three callers read it. -/
def confirmActor (response : RemoteResponse) (document : Value) (actorUrl : Url) :
    Fetched (RemoteActor × List Url) := do
  let (username, domain) ← remoteActorHandle resolver.env document actorUrl
  let confirmed ← resolver.verifyRemoteActorWebfinger username domain actorUrl
  parseConfirmedActorDocument resolver.env response.body actorUrl confirmed

def fetchRemoteKey (keyId actorUrl expectedOrigin : Url) : Fetched RemotePublicKey := do
  validateRemoteKeyId resolver.env keyId actorUrl
  let documentUrl ← remoteKeyDocumentUrl keyId
  let response ← resolver.getActivitypub documentUrl expectedOrigin
  parseRemoteKeyDocument resolver.env response.body keyId actorUrl

def resolveActorUriInner (actorUrl : Url) : Fetched RemoteActor := do
  let expectedOrigin ← remoteUrlOrigin actorUrl
  let response ← resolver.getActivitypub actorUrl expectedOrigin
  let document ← okOr (resolver.env.fromSlice response.body) .invalidRepresentation
  failIf (textField document "id" != some (resolver.env.asStr actorUrl)) .identityMismatch
  let (actor, references) ← resolver.confirmActor response document actorUrl
  let actor ← fetchKeyReferences (fun _ => false)
    (fun keyId => resolver.fetchRemoteKey keyId actorUrl expectedOrigin) references
    { actor with keySetComplete := true }
  resolver.validateTargets actor
  .ok actor

/-- `host-meta` is asked where there is no WebFinger. -/
def webfingerResponse (username domain : Text) (webfinger expectedOrigin : Url) :
    Fetched RemoteResponse :=
  match resolver.fetcher.getBoundToOrigin webfinger webfingerContentTypes expectedOrigin with
  | .ok response => .ok response
  | .error (.unexpectedStatus 404) => do
    let hostMetaUrl ← okOr (resolver.fetcher.urls.join expectedOrigin ".well-known/host-meta".toList)
      .invalidUrl
    let hostMeta ← resolver.fetcher.getBoundToOrigin hostMetaUrl hostMetaContentTypes expectedOrigin
    let webfinger ← parseHostMetaWebfingerUrl resolver.env hostMeta.body username domain
    resolver.fetcher.getBoundToOrigin webfinger webfingerContentTypes expectedOrigin
  | .error e => .error e

def subjectIs (document : WebFingerDocument) (username domain : Text) : Bool :=
  (parseAccountSubject document.subject).any fun (subjectUser, subjectDomain) =>
    eqIgnoreAsciiCase subjectUser username && eqIgnoreAsciiCase subjectDomain domain

/-- The actor of an account, on the domain of the account. -/
def resolveOnDomain (username domain : Text) (expectedOrigin selfLink : Url) :
    Fetched RemoteActor := do
  let response ← resolver.fetcher.getBoundToOriginWithSigner selfLink activitypubContentTypes
    expectedOrigin resolver.signer
  ensureRemoteOrigin resolver.env.origins response.url domain
  let (actor, references) ← parseRemoteActorDocument resolver.env response.body selfLink username
    domain
  let actor ← fetchKeyReferences (fun e => decide (e = .signing))
    (fun keyId => resolver.fetchRemoteKey keyId actor.id expectedOrigin) references
    { actor with keySetComplete := true }
  resolver.validateTargets actor
  .ok actor

def resolveWithSignerInner (username domain : Text) : Fetched RemoteActor := do
  let webfinger ← webfingerUrl resolver.env resolver.fetcher.urls.join username domain
  let expectedOrigin ← remoteOrigin resolver.env.origins domain
  let response ← resolver.webfingerResponse username domain webfinger expectedOrigin
  ensureRemoteOrigin resolver.env.origins response.url domain
  let document ← parseWebfingerDocument resolver.env response.body
  failIf (!subjectIs document username domain) .identityMismatch
  if sameOriginUrl document.selfLink expectedOrigin = true then
    resolver.resolveOnDomain username domain expectedOrigin document.selfLink
  else do
    let actor ← resolver.resolveActorUriInner document.selfLink
    failIf (!(eqIgnoreAsciiCase actor.username username && eqIgnoreAsciiCase actor.domain domain))
      .identityMismatch
    .ok actor

/-! ### Keys -/

/-- The owner of a key, from the document of its own, with the references to keys in it. -/
def fetchRemoteKeyOwner (ownerUrl keyId : Url) : Fetched (RemoteActor × List Url) := do
  let expectedOrigin ← remoteUrlOrigin ownerUrl
  let response ← resolver.getActivitypub ownerUrl expectedOrigin
  let document ← okOr (resolver.env.fromSlice response.body) .invalidRepresentation
  let actorUrl ← resolver.documentId document
  failIf (actorUrl != ownerUrl) .identityMismatch
  let (actor, references) ← resolver.confirmActor response document actorUrl
  failIf (!actorContainsKey actor references keyId) .identityMismatch
  .ok (actor, references)

/-- A document of the key alone names its owner. -/
def resolveKeyDocument (keyId : Url) (document : Value) : Fetched RemoteKeyResolution := do
  failIf (!supportedKeyContext (field document "@context")) .invalidRepresentation
  let key ← parseRemotePublicKeyObjectUnbound resolver.env document (some keyId)
  let (actor, references) ← resolver.fetchRemoteKeyOwner key.owner keyId
  failIf (!actorContainsKey actor references keyId) .identityMismatch
  let key := (actor.publicKeys.find? fun candidate => candidate.id == keyId).getD key
  let domain ← remoteActorDomain actor.id
  .ok ⟨actor, key, domain⟩

/-- A document of an actor is taken for that of the actor it names. -/
def resolveKeyActor (keyId : Url) (response : RemoteResponse) (document : Value) :
    Fetched RemoteKeyResolution := do
  let actorUrl ← resolver.documentId document
  failIf (!sameOriginUrl response.url actorUrl) .originMismatch
  let (actor, references) ← resolver.confirmActor response document actorUrl
  let key ← okOr (actor.publicKeys.find? fun candidate => candidate.id == keyId)
    (if references.contains keyId then .invalidRepresentation else .identityMismatch)
  let domain ← remoteActorDomain actor.id
  .ok ⟨actor, key, domain⟩

def resolveKeyUrl (keyId : Url) : Fetched RemoteKeyResolution := do
  let documentUrl ← remoteKeyDocumentUrl keyId
  let expectedOrigin ← remoteUrlOrigin documentUrl
  let response ← resolver.getActivitypub documentUrl expectedOrigin
  let document ← okOr (resolver.env.fromSlice response.body) .invalidRepresentation
  if (field document "publicKeyPem").isSome = true then resolver.resolveKeyDocument keyId document
  else resolver.resolveKeyActor keyId response document

/-- The first key of an account. -/
def resolveAccountKey (account : Text) : Fetched RemoteKeyResolution := do
  let (username, domain) ← okOr (parseAccountSubject account) .invalidRepresentation
  let domain ← canonicalRemoteDomain resolver.env.origins domain
  failIf (!validRemoteUsername username) .invalidRepresentation
  let actor ← resolver.resolveWithSignerInner username domain
  let key ← okOr actor.publicKeys.head? .invalidRepresentation
  let actorDomain ← remoteActorDomain actor.id
  .ok ⟨actor, key, actorDomain⟩

def resolveKeyInner (keyId : Text) : Fetched RemoteKeyResolution :=
  match stripAcct keyId with
  | some account => resolver.resolveAccountKey account
  | none => do
    let keyUrl ← okOr (resolver.env.parse keyId) .invalidRepresentation
    resolver.resolveKeyUrl keyUrl

end RemoteAccountResolver

end Rustodon.Remote
