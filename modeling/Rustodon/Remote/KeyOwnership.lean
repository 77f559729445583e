import Rustodon.Remote.Confinement
import Rustodon.Remote.Resolver

/-! @src remote.rs | name:Key ownership | scheme:checked computations | family:remote

    Whose key it is that a request was signed with. On each way to a key WebFinger confirms the actor,
    and the actor is the owner of the key; but a document of an actor at the URL of a key is taken
    for that of the actor it names, and the document that this actor itself has is never asked for. -/

namespace Rustodon.Remote
open Schemes.Checked Schemes.Json Schemes.Traced Schemes.Utf8
open Signatures (Bytes HttpSignatureSigner)

/-! ### Origins -/

theorem sameOriginUrl_iff {left right : Url} : sameOriginUrl left right = true ↔
    eqIgnoreAsciiCase left.scheme right.scheme = true ∧
      (∃ l r, left.host = some l ∧ right.host = some r ∧ eqIgnoreAsciiCase l r = true) ∧
      left.portOrKnownDefault = right.portOrKnownDefault := by
  rw [sameOriginUrl, Bool.and_eq_true, Bool.and_eq_true, decide_eq_true_eq, and_assoc, sameHost]
  cases left.host with
  | none => simp
  | some l =>
    cases right.host with
    | none => simp
    | some r => simp

/-- URLs of one origin belong to the same origins. -/
theorem sameOriginUrl_congr (url : Url) {left right : Url} (h : sameOriginUrl left right = true) :
    sameOriginUrl url left = sameOriginUrl url right := by
  obtain ⟨hscheme, ⟨l, r, hl, hr, hhost⟩, hport⟩ := sameOriginUrl_iff.mp h
  have hsame : sameHost url left = sameHost url right := by
    rw [sameHost, sameHost, hl, hr]
    simp only [Option.any_some, eqIgnoreAsciiCase_congr _ hhost]
  rw [sameOriginUrl, sameOriginUrl, eqIgnoreAsciiCase_congr _ hscheme, hsame, hport]

/-- The origin of a URL is of the same origin. -/
theorem remoteUrlOrigin_eq {url origin : Url} (h : remoteUrlOrigin url = .ok origin) :
    validateRemoteUrl url = .ok () ∧
      origin = { url with path := ['/'], query := none, fragment := none } := by
  obtain ⟨u, hvalid, h⟩ := bind_eq_ok h
  exact ⟨hvalid, (Except.ok.inj h).symm⟩

section Fetcher

variable {fetcher : RemoteFetcher} {accepted : List Text} {signer : Option HttpSignatureSigner}
  {url : Url} {response : RemoteResponse}

/-- What is fetched depends on the origin that is expected, and not on the URL that stands for it. -/
theorem getBoundToOriginWithSigner_congr {left right : Url} (h : sameOriginUrl left right = true) :
    fetcher.getBoundToOriginWithSigner url accepted left signer =
      fetcher.getBoundToOriginWithSigner url accepted right signer := by
  have hpass : fetcher.boundPass accepted left signer = fetcher.boundPass accepted right signer := by
    funext last url
    simp only [RemoteFetcher.boundPass, getPass, Option.any_some, sameOriginUrl_congr url h]
  rw [RemoteFetcher.getBoundToOriginWithSigner, RemoteFetcher.getBoundToOriginWithSigner, hpass]

/-- The first pass checks the origin of the URL. -/
theorem getBoundToOrigin_sameOrigin {origin : Url}
    (h : fetcher.getBoundToOrigin url accepted origin = .ok response) :
    sameOriginUrl url origin = true := by
  have hfirst : ∃ last hop, (fetcher.boundPass accepted origin none last url).result = .ok hop := by
    rw [RemoteFetcher.getBoundToOrigin, RemoteFetcher.getBoundToOriginWithSigner] at h
    cases hleft : fetcher.limits.maxRedirects with
    | zero =>
      rw [hleft, redirectLoop] at h
      obtain ⟨hop, hpass, -⟩ := bind_result_ok h
      exact ⟨true, hop, hpass⟩
    | succ left =>
      rw [hleft, redirectLoop] at h
      obtain ⟨hop, hpass, -⟩ := bind_result_ok h
      exact ⟨false, hop, hpass⟩
  obtain ⟨last, hop, hpass⟩ := hfirst
  obtain ⟨-, -, hpass⟩ := bind_result_ok hpass
  obtain ⟨-, -, hpass⟩ := bind_result_ok hpass
  obtain ⟨-, -, hpass⟩ := bind_result_ok hpass
  obtain ⟨u, horigin, -⟩ := bind_result_ok hpass
  have hsame := failIf_eq_ok horigin
  rwa [Option.any_some, Bool.not_eq_false'] at hsame

end Fetcher

/-! ### Documents -/

section Documents

variable {env : DocumentEnv} {keyId actorUrl : Url} {value : Value} {key : RemotePublicKey}

theorem validateRemoteKeyId_origin {u : Unit} (h : validateRemoteKeyId env keyId actorUrl = .ok u) :
    sameOriginUrl keyId actorUrl = true := by
  obtain ⟨-, -, h⟩ := bind_eq_ok h
  have hsame := failIf_eq_ok h
  rwa [Bool.not_eq_false'] at hsame

theorem parseRemotePublicKeyObjectUnbound_id
    (h : parseRemotePublicKeyObjectUnbound env value (some keyId) = .ok key) : key.id = keyId := by
  obtain ⟨publicKey, -, h⟩ := bind_eq_ok h
  obtain ⟨ownerValue, -, h⟩ := bind_eq_ok h
  obtain ⟨owner, -, h⟩ := bind_eq_ok h
  obtain ⟨-, -, h⟩ := bind_eq_ok h
  obtain ⟨idValue, -, h⟩ := bind_eq_ok h
  obtain ⟨id, -, h⟩ := bind_eq_ok h
  obtain ⟨-, -, h⟩ := bind_eq_ok h
  obtain ⟨u, hid, h⟩ := bind_eq_ok h
  obtain ⟨pem, -, h⟩ := bind_eq_ok h
  obtain rfl := Except.ok.inj h
  have heq := failIf_eq_ok hid
  rw [Option.any_some, bne_eq_false_iff_eq] at heq
  exact heq.symm

/-- A key of an actor: owned by it, and on its origin. -/
structure KeyOf (actorUrl : Url) (key : RemotePublicKey) : Prop where
  owner : key.owner = actorUrl
  origin : sameOriginUrl key.id actorUrl = true

theorem parseRemotePublicKeyObject_spec
    (h : parseRemotePublicKeyObject env value (some keyId) actorUrl = .ok key) :
    key.id = keyId ∧ KeyOf actorUrl key := by
  obtain ⟨key', hkey, h⟩ := bind_eq_ok h
  obtain ⟨u, howner, h⟩ := bind_eq_ok h
  obtain ⟨u', hid, h⟩ := bind_eq_ok h
  obtain rfl := Except.ok.inj h
  have heq := failIf_eq_ok howner
  rw [bne_eq_false_iff_eq] at heq
  exact ⟨parseRemotePublicKeyObjectUnbound_id hkey, heq, validateRemoteKeyId_origin hid⟩

/-- Every key that an actor lists is its own. -/
structure OwnKeys (actorUrl : Url) (keys : ParsedPublicKeys) : Prop where
  embedded : ∀ key ∈ keys.embedded, KeyOf actorUrl key
  references : ∀ id ∈ keys.references, sameOriginUrl id actorUrl = true

theorem newKeyId_origin {keyIds : List Url} {id : Url}
    (h : newKeyId env actorUrl keyIds value = .ok id) : sameOriginUrl id actorUrl = true := by
  obtain ⟨id', -, h⟩ := bind_eq_ok h
  obtain ⟨u, hvalid, h⟩ := bind_eq_ok h
  obtain ⟨-, -, h⟩ := bind_eq_ok h
  obtain rfl := Except.ok.inj h
  exact validateRemoteKeyId_origin hvalid

theorem OwnKeys.addReference {keys : ParsedPublicKeys} (h : OwnKeys actorUrl keys) {id : Url}
    (hid : sameOriginUrl id actorUrl = true) :
    OwnKeys actorUrl { keys with references := keys.references ++ [id] } := by
  refine ⟨h.embedded, fun id' hmem => ?_⟩
  rcases List.mem_append.mp hmem with hmem | hmem
  · exact h.references id' hmem
  · rwa [List.mem_singleton.mp hmem]

theorem parsePublicKey_own {state state' : List Url × ParsedPublicKeys}
    (hown : OwnKeys actorUrl state.2) (h : parsePublicKey env actorUrl state value = .ok state') :
    OwnKeys actorUrl state'.2 := by
  obtain ⟨keyIds, keys⟩ := state
  unfold parsePublicKey at h
  dsimp only at h hown
  split at h
  · obtain rfl := Except.ok.inj h
    exact hown
  split at h
  · obtain ⟨id, hid, h⟩ := bind_eq_ok h
    obtain rfl := Except.ok.inj h
    exact hown.addReference (newKeyId_origin hid)
  · obtain ⟨idValue, -, h⟩ := bind_eq_ok h
    obtain ⟨id, hid, h⟩ := bind_eq_ok h
    obtain ⟨owner, -, h⟩ := bind_eq_ok h
    obtain ⟨-, -, h⟩ := bind_eq_ok h
    split at h
    · obtain ⟨key, hkey, h⟩ := bind_eq_ok h
      obtain rfl := Except.ok.inj h
      refine ⟨fun key' hmem => ?_, hown.references⟩
      rcases List.mem_append.mp hmem with hmem | hmem
      · exact hown.embedded key' hmem
      · rw [List.mem_singleton.mp hmem]
        exact (parseRemotePublicKeyObject_spec hkey).2
    · obtain rfl := Except.ok.inj h
      exact hown.addReference (newKeyId_origin hid)

theorem parsePublicKeys_own {keys : ParsedPublicKeys}
    (h : parsePublicKeys env value actorUrl = .ok keys) : OwnKeys actorUrl keys := by
  obtain ⟨values, -, h⟩ := bind_eq_ok h
  obtain ⟨-, -, h⟩ := bind_eq_ok h
  obtain ⟨⟨keyIds, keys'⟩, hkeys, h⟩ := bind_eq_ok h
  obtain rfl := Except.ok.inj h
  exact foldlM_preserves (P := fun state => OwnKeys actorUrl state.2)
    (fun state value state' hown hstep => parsePublicKey_own hown hstep) hkeys
    ⟨by simp, by simp⟩

/-- The document of an actor has its id, and lists its keys. -/
structure DocumentOf (env : DocumentEnv) (document : Value) (actorUrl : Url)
    (keys : ParsedPublicKeys) : Prop where
  id : textField document "id" = some (env.asStr actorUrl)
  keys : parsePublicKeys env document actorUrl = .ok keys

theorem validateActivitypubIdentity_spec {body : Bytes} {u : Unit}
    (h : validateActivitypubIdentity env body actorUrl = .ok u) :
    ∃ document, env.fromSlice body = some document ∧
      textField document "id" = some (env.asStr actorUrl) := by
  obtain ⟨document, hdocument, h⟩ := bind_eq_ok h
  have hid := failIf_eq_ok h
  rw [bne_eq_false_iff_eq] at hid
  exact ⟨document, okOr_eq_ok hdocument, hid⟩

theorem parseRemoteActorDocument_spec {body : Bytes} {username domain : Text} {actor : RemoteActor}
    {references : List Url}
    (h : parseRemoteActorDocument env body actorUrl username domain = .ok (actor, references)) :
    actor.id = actorUrl ∧ eqIgnoreAsciiCase actor.username username = true ∧
      actorDocumentDomain env actorUrl domain = .ok actor.domain ∧
      ∃ document, env.fromSlice body = some document ∧
        DocumentOf env document actorUrl ⟨actor.publicKeys, references⟩ := by
  obtain ⟨domain', hdomain, h⟩ := bind_eq_ok h
  obtain ⟨u, hidentity, h⟩ := bind_eq_ok h
  obtain ⟨document, hdocument, h⟩ := bind_eq_ok h
  obtain ⟨-, -, h⟩ := bind_eq_ok h
  obtain ⟨actorType, -, h⟩ := bind_eq_ok h
  obtain ⟨name, -, h⟩ := bind_eq_ok h
  obtain ⟨u', hname, h⟩ := bind_eq_ok h
  obtain ⟨suspended, -, h⟩ := bind_eq_ok h
  obtain ⟨inbox, -, h⟩ := bind_eq_ok h
  obtain ⟨-, -, h⟩ := bind_eq_ok h
  obtain ⟨profileUrl, -, h⟩ := bind_eq_ok h
  obtain ⟨-, -, h⟩ := bind_eq_ok h
  obtain ⟨-, -, h⟩ := bind_eq_ok h
  obtain ⟨keys, hkeys, h⟩ := bind_eq_ok h
  obtain ⟨avatar, -, h⟩ := bind_eq_ok h
  obtain ⟨header, -, h⟩ := bind_eq_ok h
  obtain ⟨followers, -, h⟩ := bind_eq_ok h
  obtain ⟨following, -, h⟩ := bind_eq_ok h
  obtain ⟨rfl, rfl⟩ := Prod.mk.inj (Except.ok.inj h)
  obtain ⟨document', hbody, hid⟩ := validateActivitypubIdentity_spec hidentity
  obtain rfl := Option.some.inj (hbody.symm.trans (okOr_eq_ok hdocument))
  have hvalid := failIf_eq_ok hname
  rw [Bool.or_eq_false_iff, Bool.not_eq_false', Bool.not_eq_false'] at hvalid
  exact ⟨rfl, hvalid.2, hdomain, document', hbody, hid, hkeys⟩

theorem parseConfirmedActorDocument_spec {body : Bytes} {confirmed : Text × Text}
    {actor : RemoteActor} {references : List Url}
    (h : parseConfirmedActorDocument env body actorUrl confirmed = .ok (actor, references)) :
    actor.id = actorUrl ∧ eqIgnoreAsciiCase actor.username confirmed.1 = true ∧
      actor.domain = confirmed.2 ∧ ∃ document, env.fromSlice body = some document ∧
        DocumentOf env document actorUrl ⟨actor.publicKeys, references⟩ := by
  obtain ⟨actorDomain, -, h⟩ := bind_eq_ok h
  obtain ⟨⟨actor', references'⟩, hactor, h⟩ := bind_eq_ok h
  obtain ⟨rfl, rfl⟩ := Prod.mk.inj (Except.ok.inj h)
  obtain ⟨hid, hname, -, hdocument⟩ := parseRemoteActorDocument_spec hactor
  exact ⟨hid, hname, rfl, hdocument⟩

theorem parseRemoteKeyDocument_spec {body : Bytes}
    (h : parseRemoteKeyDocument env body keyId actorUrl = .ok key) :
    key.id = keyId ∧ KeyOf actorUrl key := by
  obtain ⟨-, -, h⟩ := bind_eq_ok h
  obtain ⟨document, -, h⟩ := bind_eq_ok h
  split at h
  · obtain ⟨-, -, h⟩ := bind_eq_ok h
    exact parseRemotePublicKeyObject_spec h
  · obtain ⟨-, -, h⟩ := bind_eq_ok h
    obtain ⟨-, -, h⟩ := bind_eq_ok h
    obtain ⟨keys, hkeys, h⟩ := bind_eq_ok h
    have hfind := okOr_eq_ok h
    refine ⟨?_, (parsePublicKeys_own hkeys).embedded key (List.mem_of_find?_eq_some hfind)⟩
    have hid := List.find?_some hfind
    exact eq_of_beq hid

end Documents

/-! ### Accounts that are confirmed -/

/-- A WebFinger document that is served at the domain names the account, and the actor as its own. -/
def ConfirmedAt (resolver : RemoteAccountResolver) (username domain : Text) (actorUrl : Url) : Prop :=
  ∃ origin url response document,
    (remoteOrigin resolver.env.origins domain = .ok origin ∨
      ∃ urlDomain, canonicalRemoteDomainFromOrigin origin = .ok urlDomain ∧
        eqIgnoreAsciiCase urlDomain domain = true) ∧
    sameOriginUrl url origin = true ∧
    resolver.fetcher.getBoundToOrigin url webfingerContentTypes origin = .ok response ∧
    parseWebfingerDocument resolver.env response.body = .ok document ∧
    RemoteAccountResolver.subjectIs document username domain = true ∧ document.selfLink = actorUrl

section Resolver

variable {resolver : RemoteAccountResolver} {actorUrl : Url}

theorem subjectIs_iff {document : WebFingerDocument} {username domain : Text} :
    RemoteAccountResolver.subjectIs document username domain = true ↔
      ∃ user host, parseAccountSubject document.subject = some (user, host) ∧
        eqIgnoreAsciiCase user username = true ∧ eqIgnoreAsciiCase host domain = true := by
  rw [RemoteAccountResolver.subjectIs, Option.any_eq_true]
  constructor
  · rintro ⟨⟨user, host⟩, hsubject, hsame⟩
    rw [Bool.and_eq_true] at hsame
    exact ⟨user, host, hsubject, hsame⟩
  · rintro ⟨user, host, hsubject, huser, hhost⟩
    exact ⟨(user, host), hsubject, Bool.and_eq_true_iff.mpr ⟨huser, hhost⟩⟩

/-- Whichever answer confirms, it names the account that is returned, and it was asked for it. -/
theorem confirmWebfinger_spec {env : DocumentEnv} {username domain : Text}
    {fetch : Text → Text → Fetched WebFingerDocument} {confirmed : Text × Text}
    (h : confirmWebfinger env username domain actorUrl fetch = .ok confirmed) :
    ∃ document, fetch confirmed.1 confirmed.2 = .ok document ∧
      RemoteAccountResolver.subjectIs document confirmed.1 confirmed.2 = true ∧
      document.selfLink = actorUrl := by
  obtain ⟨first, hfirst, h⟩ := bind_eq_ok h
  obtain ⟨⟨confirmedUser, confirmedDomain⟩, hsubject, h⟩ := bind_eq_ok h
  dsimp only at h
  split_ifs at h with hsame hlink
  · obtain rfl := Except.ok.inj h
    exact ⟨first, hfirst, subjectIs_iff.mpr ⟨_, _, okOr_eq_ok hsubject, hsame⟩, hlink⟩
  · obtain ⟨again, -, h⟩ := bind_eq_ok h
    obtain ⟨-, -, h⟩ := bind_eq_ok h
    obtain ⟨second, hsecond, h⟩ := bind_eq_ok h
    rw [confirmAgain] at h
    split_ifs at h with hconfirms
    obtain rfl := Except.ok.inj h
    exact ⟨second, hsecond, hconfirms⟩

/-- The origin that is asked for an account is that of its domain. -/
theorem webfingerOrigin_spec {domain : Text} {origin : Url}
    (h : resolver.webfingerOrigin actorUrl domain = .ok origin) :
    remoteOrigin resolver.env.origins domain = .ok origin ∨
      ∃ urlDomain, canonicalRemoteDomainFromOrigin origin = .ok urlDomain ∧
        eqIgnoreAsciiCase urlDomain domain = true := by
  obtain ⟨actorOrigin, horigin, h⟩ := bind_eq_ok h
  obtain ⟨actorHost, hhost, h⟩ := bind_eq_ok h
  split_ifs at h with hsame
  · obtain rfl := Except.ok.inj h
    obtain ⟨u, -, hhost⟩ := bind_eq_ok hhost
    rw [(remoteUrlOrigin_eq horigin).2]
    exact .inr ⟨actorHost, hhost, eqIgnoreAsciiCase_symm hsame⟩
  · exact .inl h

theorem verifyRemoteActorWebfinger_spec {username domain : Text} {confirmed : Text × Text}
    (h : resolver.verifyRemoteActorWebfinger username domain actorUrl = .ok confirmed) :
    ConfirmedAt resolver confirmed.1 confirmed.2 actorUrl := by
  obtain ⟨actorOrigin, -, h⟩ := bind_eq_ok h
  obtain ⟨actorHost, -, h⟩ := bind_eq_ok h
  obtain ⟨document, hfetch, hsubject, hlink⟩ := confirmWebfinger_spec h
  obtain ⟨origin, horigin, hfetch⟩ := bind_eq_ok hfetch
  obtain ⟨url, -, hfetch⟩ := bind_eq_ok hfetch
  obtain ⟨response, hresponse, hdocument⟩ := bind_eq_ok hfetch
  exact ⟨origin, url, response, document, webfingerOrigin_spec horigin,
    getBoundToOrigin_sameOrigin hresponse, hresponse, hdocument, hsubject, hlink⟩

/-- Of an account only the case may differ. -/
theorem ConfirmedAt.username {username username' domain : Text}
    (h : ConfirmedAt resolver username domain actorUrl)
    (hname : eqIgnoreAsciiCase username' username = true) :
    ConfirmedAt resolver username' domain actorUrl := by
  obtain ⟨origin, url, response, document, horigin, hurl, hresponse, hdocument, hsubject, hlink⟩ := h
  obtain ⟨user, host, hsubject, huser, hhost⟩ := subjectIs_iff.mp hsubject
  exact ⟨origin, url, response, document, horigin, hurl, hresponse, hdocument, subjectIs_iff.mpr
    ⟨user, host, hsubject, eqIgnoreAsciiCase_trans huser (eqIgnoreAsciiCase_symm hname), hhost⟩, hlink⟩

/-- What each way to an actor establishes of it. -/
structure Established (resolver : RemoteAccountResolver) (actorUrl : Url) (document : Value)
    (actor : RemoteActor) (references : List Url) : Prop where
  id : actor.id = actorUrl
  document : DocumentOf resolver.env document actorUrl ⟨actor.publicKeys, references⟩
  confirmed : ConfirmedAt resolver actor.username actor.domain actorUrl

theorem confirmActor_spec {response : RemoteResponse} {document : Value} {actor : RemoteActor}
    {references : List Url} (hbody : resolver.env.fromSlice response.body = some document)
    (h : resolver.confirmActor response document actorUrl = .ok (actor, references)) :
    Established resolver actorUrl document actor references := by
  obtain ⟨⟨username, domain⟩, -, h⟩ := bind_eq_ok h
  obtain ⟨confirmed, hconfirmed, h⟩ := bind_eq_ok h
  obtain ⟨hid, hname, hdomain, document', hbody', hdocument⟩ := parseConfirmedActorDocument_spec h
  obtain rfl := Option.some.inj (hbody'.symm.trans hbody)
  refine ⟨hid, hdocument, ?_⟩
  rw [hdomain]
  exact (verifyRemoteActorWebfinger_spec hconfirmed).username hname

/-! ### Keys that are listed -/

/-- The document that the web serves at a URL, and behind redirects that stay on its origin. -/
def RemoteAccountResolver.served (resolver : RemoteAccountResolver) (url : Url) : Fetched Value := do
  let origin ← remoteUrlOrigin url
  let response ← resolver.getActivitypub url origin
  okOr (resolver.env.fromSlice response.body) .invalidRepresentation

def ParsedPublicKeys.names (keys : ParsedPublicKeys) (keyId : Url) : Bool :=
  keys.embedded.any (fun key => key.id == keyId) || keys.references.contains keyId

/-- Whether a document is that of the actor, and lists the key, embedded or by reference. -/
def listsKey (env : DocumentEnv) (document : Value) (actorUrl keyId : Url) : Bool :=
  textField document "id" == some (env.asStr actorUrl) &&
    (parsePublicKeys env document actorUrl).toOption.any fun keys => keys.names keyId

/-- Whether the document at the URL of the actor lists the key. -/
def RemoteAccountResolver.actorListsKey (resolver : RemoteAccountResolver) (actorUrl keyId : Url) :
    Bool :=
  (resolver.served actorUrl).toOption.any fun document =>
    listsKey resolver.env document actorUrl keyId

theorem actorListsKey_of_document {document : Value} {keys : ParsedPublicKeys} {keyId : Url}
    (hserved : resolver.served actorUrl = .ok document)
    (hdocument : DocumentOf resolver.env document actorUrl keys) (hnames : keys.names keyId = true) :
    resolver.actorListsKey actorUrl keyId = true := by
  rw [RemoteAccountResolver.actorListsKey, hserved]
  change listsKey resolver.env document actorUrl keyId = true
  rw [listsKey, hdocument.id, hdocument.keys, beq_self_eq_true, Bool.true_and]
  exact hnames

theorem served_of_response {origin url : Url} {response : RemoteResponse} {document : Value}
    (horigin : remoteUrlOrigin url = .ok origin)
    (hresponse : resolver.getActivitypub url origin = .ok response)
    (hbody : resolver.env.fromSlice response.body = some document) :
    resolver.served url = .ok document := by
  rw [RemoteAccountResolver.served, horigin, ok_bind, hresponse, ok_bind, hbody]
  rfl

theorem names_embedded {keys : ParsedPublicKeys} {key : RemotePublicKey} (h : key ∈ keys.embedded) :
    keys.names key.id = true := by
  rw [ParsedPublicKeys.names, Bool.or_eq_true]
  exact .inl (List.any_eq_true.mpr ⟨key, h, beq_self_eq_true _⟩)

theorem names_reference {keys : ParsedPublicKeys} {keyId : Url} (h : keyId ∈ keys.references) :
    keys.names keyId = true := by
  rw [ParsedPublicKeys.names, Bool.or_eq_true]
  exact .inr (List.contains_iff_mem.mpr h)

/-- The keys that are fetched by reference come behind those of the document. -/
theorem fetchKeyReferences_spec {stops : RemoteFetchError → Bool}
    {fetchKey : Url → Fetched RemotePublicKey} {references : List Url} {actor actor' : RemoteActor}
    (h : fetchKeyReferences stops fetchKey references actor = .ok actor') :
    actor'.id = actor.id ∧ actor'.username = actor.username ∧ actor'.domain = actor.domain ∧
      ∀ key ∈ actor'.publicKeys, key ∈ actor.publicKeys ∨
        ∃ keyId ∈ references, fetchKey keyId = .ok key := by
  induction references generalizing actor with
  | nil =>
    obtain rfl := Except.ok.inj h
    exact ⟨rfl, rfl, rfl, fun key hkey => .inl hkey⟩
  | cons keyId references ih =>
    rw [fetchKeyReferences] at h
    split at h
    · rename_i key hfetch
      obtain ⟨hid, hname, hdomain, hkeys⟩ := ih h
      refine ⟨hid, hname, hdomain, fun key' hmem => ?_⟩
      rcases hkeys key' hmem with hmem | ⟨keyId', hmem, hfetch'⟩
      · rcases List.mem_append.mp hmem with hmem | hmem
        · exact .inl hmem
        · rw [List.mem_singleton.mp hmem]
          exact .inr ⟨keyId, List.mem_cons_self, hfetch⟩
      · exact .inr ⟨keyId', List.mem_cons_of_mem _ hmem, hfetch'⟩
    · split_ifs at h
      obtain ⟨hid, hname, hdomain, hkeys⟩ := ih h
      refine ⟨hid, hname, hdomain, fun key' hmem => (hkeys key' hmem).imp_right ?_⟩
      rintro ⟨keyId', hmem, hfetch'⟩
      exact ⟨keyId', List.mem_cons_of_mem _ hmem, hfetch'⟩

theorem fetchRemoteKey_spec {keyId expectedOrigin : Url} {key : RemotePublicKey}
    (h : resolver.fetchRemoteKey keyId actorUrl expectedOrigin = .ok key) :
    key.id = keyId ∧ KeyOf actorUrl key := by
  obtain ⟨-, -, h⟩ := bind_eq_ok h
  obtain ⟨documentUrl, -, h⟩ := bind_eq_ok h
  obtain ⟨response, -, h⟩ := bind_eq_ok h
  exact parseRemoteKeyDocument_spec h

/-- An actor all keys of which are its own, and listed by its own document. -/
structure OwnsKeys (resolver : RemoteAccountResolver) (actor : RemoteActor) : Prop where
  keys : ∀ key ∈ actor.publicKeys, KeyOf actor.id key ∧
    resolver.actorListsKey actor.id key.id = true

theorem ownsKeys_of_references {document : Value} {actor actor' : RemoteActor}
    {references : List Url} {stops : RemoteFetchError → Bool} {expectedOrigin : Url}
    (hserved : resolver.served actorUrl = .ok document) (hactor : actor.id = actorUrl)
    (hdocument : DocumentOf resolver.env document actorUrl ⟨actor.publicKeys, references⟩)
    (h : fetchKeyReferences stops (fun keyId => resolver.fetchRemoteKey keyId actorUrl expectedOrigin)
      references { actor with keySetComplete := true } = .ok actor') : OwnsKeys resolver actor' := by
  obtain ⟨hid, -, -, hkeys⟩ := fetchKeyReferences_spec h
  have heq : actor'.id = actorUrl := hid.trans hactor
  refine ⟨fun key hmem => ?_⟩
  rw [heq]
  rcases hkeys key hmem with hmem | ⟨keyId, hmem, hfetch⟩
  · exact ⟨(parsePublicKeys_own hdocument.keys).embedded key hmem,
      actorListsKey_of_document hserved hdocument (names_embedded hmem)⟩
  · obtain ⟨rfl, hkey⟩ := fetchRemoteKey_spec hfetch
    exact ⟨hkey, actorListsKey_of_document hserved hdocument (names_reference hmem)⟩

/-- An actor that is resolved by its URL. -/
theorem resolveActorUriInner_spec {actor : RemoteActor}
    (h : resolver.resolveActorUriInner actorUrl = .ok actor) :
    OwnsKeys resolver actor ∧ ConfirmedAt resolver actor.username actor.domain actor.id := by
  obtain ⟨origin, horigin, h⟩ := bind_eq_ok h
  obtain ⟨response, hresponse, h⟩ := bind_eq_ok h
  obtain ⟨document, hbody, h⟩ := bind_eq_ok h
  obtain ⟨-, -, h⟩ := bind_eq_ok h
  obtain ⟨⟨actor', references⟩, hactor, h⟩ := bind_eq_ok h
  obtain ⟨actor'', hkeys, h⟩ := bind_eq_ok h
  obtain ⟨-, -, h⟩ := bind_eq_ok h
  obtain rfl := Except.ok.inj h
  have hbody := okOr_eq_ok hbody
  have hestablished := confirmActor_spec hbody hactor
  obtain ⟨hid, hname, hdomain, -⟩ := fetchKeyReferences_spec hkeys
  refine ⟨ownsKeys_of_references (served_of_response horigin hresponse hbody) hestablished.id
    hestablished.document hkeys, ?_⟩
  rw [hid, hname, hdomain]
  have hconfirmed := hestablished.confirmed
  rwa [← hestablished.id] at hconfirmed

theorem parseWebfingerDocument_valid {env : DocumentEnv} {body : Bytes} {document : WebFingerDocument}
    (h : parseWebfingerDocument env body = .ok document) :
    validateRemoteUrl document.selfLink = .ok () := by
  obtain ⟨value, -, h⟩ := bind_eq_ok h
  obtain ⟨subject, -, h⟩ := bind_eq_ok h
  obtain ⟨links, -, h⟩ := bind_eq_ok h
  obtain ⟨link, -, h⟩ := bind_eq_ok h
  obtain ⟨selfLink, -, h⟩ := bind_eq_ok h
  obtain ⟨u, hvalid, h⟩ := bind_eq_ok h
  obtain rfl := Except.ok.inj h
  exact hvalid

theorem ensureRemoteOrigin_spec {origins : UrlParsers} {url expected : Url} {domain : Text} {u : Unit}
    (horigin : remoteOrigin origins domain = .ok expected)
    (h : ensureRemoteOrigin origins url domain = .ok u) : sameOriginUrl url expected = true := by
  rw [ensureRemoteOrigin, horigin, ok_bind] at h
  split_ifs at h with hsame
  exact hsame

theorem webfingerResponse_spec {username domain : Text} {webfinger origin : Url}
    {response : RemoteResponse}
    (h : resolver.webfingerResponse username domain webfinger origin = .ok response) :
    ∃ url, resolver.fetcher.getBoundToOrigin url webfingerContentTypes origin = .ok response := by
  rw [RemoteAccountResolver.webfingerResponse] at h
  split at h
  · rename_i response' hresponse
    obtain rfl := Except.ok.inj h
    exact ⟨webfinger, hresponse⟩
  · obtain ⟨hostMetaUrl, -, h⟩ := bind_eq_ok h
    obtain ⟨hostMeta, -, h⟩ := bind_eq_ok h
    obtain ⟨url, -, h⟩ := bind_eq_ok h
    exact ⟨url, h⟩
  · cases h

/-- Of an actor on the domain of its account the domain is that of the account, or the one that the
    domain of the account is read as. -/
theorem resolveOnDomain_spec {username domain : Text} {expectedOrigin selfLink : Url}
    {actor : RemoteActor} (horigin : remoteOrigin resolver.env.origins domain = .ok expectedOrigin)
    (hvalid : validateRemoteUrl selfLink = .ok ())
    (hsame : sameOriginUrl selfLink expectedOrigin = true)
    (h : resolver.resolveOnDomain username domain expectedOrigin selfLink = .ok actor) :
    OwnsKeys resolver actor ∧ actor.id = selfLink ∧
      eqIgnoreAsciiCase actor.username username = true ∧
      actorDocumentDomain resolver.env selfLink domain = .ok actor.domain := by
  obtain ⟨response, hresponse, h⟩ := bind_eq_ok h
  obtain ⟨u, hensured, h⟩ := bind_eq_ok h
  obtain ⟨⟨actor', references⟩, hactor, h⟩ := bind_eq_ok h
  obtain ⟨actor'', hkeys, h⟩ := bind_eq_ok h
  obtain ⟨-, -, h⟩ := bind_eq_ok h
  obtain rfl := Except.ok.inj h
  obtain ⟨hid, hname, hdomain, document, hbody, hdocument⟩ := parseRemoteActorDocument_spec hactor
  obtain ⟨hid', hname', hdomain', -⟩ := fetchKeyReferences_spec hkeys
  have hown : remoteUrlOrigin selfLink =
      .ok { selfLink with path := ['/'], query := none, fragment := none } := by
    rw [remoteUrlOrigin, hvalid]
    rfl
  have hserved : resolver.served selfLink = .ok document := by
    refine served_of_response hown ?_ hbody
    have hcongr : sameOriginUrl { selfLink with path := ['/'], query := none, fragment := none }
      expectedOrigin = true := hsame
    rw [RemoteAccountResolver.getActivitypub, getBoundToOriginWithSigner_congr hcongr, hresponse, ok_bind,
      sameOriginUrl_congr _ hcongr, ensureRemoteOrigin_spec horigin hensured]
    rfl
  subst hid
  refine ⟨ownsKeys_of_references hserved rfl hdocument hkeys, hid', ?_, ?_⟩
  · rwa [hname']
  · rwa [hdomain']

/-! ### Accounts -/

/-- Whether the domain of an account is read as itself, or its actor is on another origin. -/
def RemoteAccountResolver.accountDomainKept (resolver : RemoteAccountResolver) (account : Text) :
    Fetched Bool := do
  let (username, domain) ← okOr (parseAccountSubject account) .invalidRepresentation
  let domain ← canonicalRemoteDomain resolver.env.origins domain
  let again ← canonicalRemoteDomain resolver.env.origins domain
  let webfinger ← webfingerUrl resolver.env resolver.fetcher.urls.join username domain
  let expectedOrigin ← remoteOrigin resolver.env.origins domain
  let response ← resolver.webfingerResponse username domain webfinger expectedOrigin
  let document ← parseWebfingerDocument resolver.env response.body
  .ok (eqIgnoreAsciiCase domain again || !sameOriginUrl document.selfLink expectedOrigin)

theorem actorDocumentDomain_spec {env : DocumentEnv} {domain actorDomain : Text}
    (h : actorDocumentDomain env actorUrl domain = .ok actorDomain) :
    ∃ urlDomain, canonicalRemoteDomainFromOrigin actorUrl = .ok urlDomain ∧
      eqIgnoreAsciiCase urlDomain actorDomain = true ∧
      (eqIgnoreAsciiCase domain actorDomain = true ∨
        canonicalRemoteDomain env.origins domain = .ok actorDomain) := by
  obtain ⟨urlDomain, hurl, h⟩ := bind_eq_ok h
  obtain ⟨-, -, hurl⟩ := bind_eq_ok hurl
  refine ⟨urlDomain, hurl, ?_⟩
  split_ifs at h with hsame
  · obtain rfl := Except.ok.inj h
    exact ⟨eqIgnoreAsciiCase_refl _, .inl hsame⟩
  · obtain ⟨domain', hdomain, h⟩ := bind_eq_ok h
    obtain ⟨u, hfail, h⟩ := bind_eq_ok h
    obtain rfl := Except.ok.inj h
    have heq := failIf_eq_ok hfail
    rw [Bool.not_eq_false'] at heq
    exact ⟨eqIgnoreAsciiCase_symm heq, .inr hdomain⟩

/-- The actor of an account owns its keys, and WebFinger has confirmed it where the domain is kept. -/
theorem resolveWithSignerInner_spec {username domain : Text} {actor : RemoteActor}
    (h : resolver.resolveWithSignerInner username domain = .ok actor) :
    OwnsKeys resolver actor ∧
      ((∀ again webfinger expectedOrigin response document,
          canonicalRemoteDomain resolver.env.origins domain = .ok again →
          webfingerUrl resolver.env resolver.fetcher.urls.join username domain = .ok webfinger →
          remoteOrigin resolver.env.origins domain = .ok expectedOrigin →
          resolver.webfingerResponse username domain webfinger expectedOrigin = .ok response →
          parseWebfingerDocument resolver.env response.body = .ok document →
          eqIgnoreAsciiCase domain again = true ∨
            sameOriginUrl document.selfLink expectedOrigin = false) →
        ConfirmedAt resolver actor.username actor.domain actor.id) := by
  obtain ⟨webfinger, hwebfinger, h⟩ := bind_eq_ok h
  obtain ⟨expectedOrigin, horigin, h⟩ := bind_eq_ok h
  obtain ⟨response, hresponse, h⟩ := bind_eq_ok h
  obtain ⟨-, -, h⟩ := bind_eq_ok h
  obtain ⟨document, hdocument, h⟩ := bind_eq_ok h
  obtain ⟨u, hsubject, h⟩ := bind_eq_ok h
  have hsubject := failIf_eq_ok hsubject
  rw [Bool.not_eq_false'] at hsubject
  split_ifs at h with hsame
  · obtain ⟨howns, hid, hname, hdomain⟩ := resolveOnDomain_spec horigin
      (parseWebfingerDocument_valid hdocument) hsame h
    refine ⟨howns, fun hkept => ?_⟩
    obtain ⟨urlDomain, hurlDomain, hsameDomain, hread⟩ := actorDocumentDomain_spec hdomain
    have hdomains : eqIgnoreAsciiCase domain actor.domain = true := by
      refine hread.elim id fun hagain => ?_
      refine (hkept _ _ _ _ _ hagain hwebfinger horigin hresponse hdocument).resolve_right ?_
      rw [hsame]
      exact nofun
    obtain ⟨user, host, hparsed, huser, hhost⟩ := subjectIs_iff.mp hsubject
    obtain ⟨url, hget⟩ := webfingerResponse_spec hresponse
    have hswap : resolver.fetcher.getBoundToOrigin url webfingerContentTypes document.selfLink =
        .ok response := (getBoundToOriginWithSigner_congr hsame).trans hget
    refine ⟨document.selfLink, url, response, document, .inr ⟨urlDomain, hurlDomain, hsameDomain⟩,
      getBoundToOrigin_sameOrigin hswap, hswap, hdocument, subjectIs_iff.mpr ⟨user, host, hparsed, ?_, ?_⟩,
      hid.symm⟩
    · exact eqIgnoreAsciiCase_trans huser (eqIgnoreAsciiCase_symm hname)
    · exact eqIgnoreAsciiCase_trans hhost hdomains
  · obtain ⟨actor', hactor, h⟩ := bind_eq_ok h
    obtain ⟨-, -, h⟩ := bind_eq_ok h
    obtain rfl := Except.ok.inj h
    obtain ⟨howns, hconfirmed⟩ := resolveActorUriInner_spec hactor
    exact ⟨howns, fun _ => hconfirmed⟩

/-! ### Ownership -/

/-- The owner of an actor document at the URL of a key lists the key in the document of its own. -/
def RemoteAccountResolver.ownDocumentLists (resolver : RemoteAccountResolver) (keyUrl : Url) :
    Fetched Bool := do
  let documentUrl ← remoteKeyDocumentUrl keyUrl
  let document ← resolver.served documentUrl
  if (field document "publicKeyPem").isSome = true then .ok true
  else do
    let actorUrl ← resolver.documentId document
    .ok (resolver.actorListsKey actorUrl keyUrl)

/-- When a key belongs to the actor that it is resolved to. -/
def RemoteAccountResolver.ownershipHolds (resolver : RemoteAccountResolver) (keyId : Text) : Bool :=
  match stripAcct keyId with
  | some account => (resolver.accountDomainKept account).toOption.all id
  | none => (resolver.env.parse keyId).all fun keyUrl =>
      (resolver.ownDocumentLists keyUrl).toOption.all id

/-- A key id is resolved to the key that it is the id of, and an account to the first key of the
    actor. The key belongs to the actor, which WebFinger has confirmed. -/
structure KeyOwned (resolver : RemoteAccountResolver) (keyId : Text)
    (resolution : RemoteKeyResolution) : Prop where
  key : match stripAcct keyId with
    | some _ => resolution.actor.publicKeys.head? = some resolution.key
    | none => resolver.env.parse keyId = some resolution.key.id
  owner : resolution.key.owner = resolution.actor.id
  origin : sameOriginUrl resolution.key.id resolution.actor.id = true
  listed : resolver.actorListsKey resolution.actor.id resolution.key.id = true
  confirmed : ConfirmedAt resolver resolution.actor.username resolution.actor.domain
    resolution.actor.id

theorem resolveAccountKey_spec {account : Text} {resolution : RemoteKeyResolution}
    (h : resolver.resolveAccountKey account = .ok resolution) :
    resolution.actor.publicKeys.head? = some resolution.key ∧ OwnsKeys resolver resolution.actor ∧
      ((resolver.accountDomainKept account).toOption.all id = true →
        ConfirmedAt resolver resolution.actor.username resolution.actor.domain
          resolution.actor.id) := by
  obtain ⟨⟨username, name⟩, haccount, h⟩ := bind_eq_ok h
  obtain ⟨domain, hdomain, h⟩ := bind_eq_ok h
  obtain ⟨-, -, h⟩ := bind_eq_ok h
  obtain ⟨actor, hactor, h⟩ := bind_eq_ok h
  obtain ⟨key, hkey, h⟩ := bind_eq_ok h
  obtain ⟨actorDomain, -, h⟩ := bind_eq_ok h
  obtain rfl := Except.ok.inj h
  obtain ⟨howns, hconfirmed⟩ := resolveWithSignerInner_spec hactor
  refine ⟨okOr_eq_ok hkey, howns, fun hkept => hconfirmed ?_⟩
  intro again webfinger expectedOrigin response document hagain hwebfinger horigin hresponse hdocument
  rw [RemoteAccountResolver.accountDomainKept, haccount, ok_bind] at hkept
  dsimp only at hkept
  rw [hdomain, ok_bind, hagain, ok_bind, hwebfinger, ok_bind, horigin, ok_bind, hresponse, ok_bind,
    hdocument, ok_bind] at hkept
  have heither : (eqIgnoreAsciiCase domain again || !sameOriginUrl document.selfLink expectedOrigin) =
    true := hkept
  rwa [Bool.or_eq_true, Bool.not_eq_true'] at heither

theorem fetchRemoteKeyOwner_spec {ownerUrl keyId : Url} {actor : RemoteActor}
    {references : List Url} (h : resolver.fetchRemoteKeyOwner ownerUrl keyId = .ok (actor, references)) :
    ∃ document, resolver.served ownerUrl = .ok document ∧
      Established resolver ownerUrl document actor references ∧
      actorContainsKey actor references keyId = true := by
  obtain ⟨origin, horigin, h⟩ := bind_eq_ok h
  obtain ⟨response, hresponse, h⟩ := bind_eq_ok h
  obtain ⟨document, hbody, h⟩ := bind_eq_ok h
  obtain ⟨actorUrl, -, h⟩ := bind_eq_ok h
  obtain ⟨u, howner, h⟩ := bind_eq_ok h
  obtain ⟨⟨actor', references'⟩, hactor, h⟩ := bind_eq_ok h
  obtain ⟨u', hcontains, h⟩ := bind_eq_ok h
  obtain ⟨rfl, rfl⟩ := Prod.mk.inj (Except.ok.inj h)
  have heq := failIf_eq_ok howner
  rw [bne_eq_false_iff_eq] at heq
  subst heq
  have hbody := okOr_eq_ok hbody
  have hcontains := failIf_eq_ok hcontains
  rw [Bool.not_eq_false'] at hcontains
  exact ⟨document, served_of_response horigin hresponse hbody, confirmActor_spec hbody hactor,
    hcontains⟩

/-- A document of the key alone: the document of the owner is asked for. -/
theorem resolveKeyDocument_spec {keyId : Url} {document : Value} {resolution : RemoteKeyResolution}
    (h : resolver.resolveKeyDocument keyId document = .ok resolution) :
    resolution.key.id = keyId ∧ KeyOf resolution.actor.id resolution.key ∧
      resolver.actorListsKey resolution.actor.id keyId = true ∧
      ConfirmedAt resolver resolution.actor.username resolution.actor.domain resolution.actor.id := by
  obtain ⟨-, -, h⟩ := bind_eq_ok h
  obtain ⟨key, hkey, h⟩ := bind_eq_ok h
  obtain ⟨⟨actor, references⟩, howner, h⟩ := bind_eq_ok h
  obtain ⟨-, -, h⟩ := bind_eq_ok h
  obtain ⟨domain, -, h⟩ := bind_eq_ok h
  obtain rfl := Except.ok.inj h
  obtain ⟨own, hserved, hestablished, hcontains⟩ := fetchRemoteKeyOwner_spec howner
  have hown := parsePublicKeys_own hestablished.document.keys
  have hid := parseRemotePublicKeyObjectUnbound_id hkey
  have hlisted := actorListsKey_of_document hserved hestablished.document hcontains
  have hconfirmed := hestablished.confirmed
  dsimp only
  rw [hestablished.id]
  cases hfind : actor.publicKeys.find? fun candidate => candidate.id == keyId with
  | some candidate =>
    have heq := List.find?_some hfind
    exact ⟨eq_of_beq heq, hown.embedded candidate (List.mem_of_find?_eq_some hfind), hlisted, hconfirmed⟩
  | none =>
    refine ⟨hid, ⟨rfl, ?_⟩, hlisted, hconfirmed⟩
    rw [Option.getD_none, hid]
    rw [actorContainsKey, Bool.or_eq_true] at hcontains
    rcases hcontains with hcontains | hcontains
    · obtain ⟨key', hmem, heq⟩ := List.any_eq_true.mp hcontains
      exact absurd heq (List.find?_eq_none.mp hfind key' hmem)
    · exact hown.references keyId (List.contains_iff_mem.mp hcontains)

/-- A document of an actor: all is established of the actor, but for its own document. -/
theorem resolveKeyActor_spec {keyId : Url} {response : RemoteResponse} {document : Value}
    {resolution : RemoteKeyResolution} (hbody : resolver.env.fromSlice response.body = some document)
    (h : resolver.resolveKeyActor keyId response document = .ok resolution) :
    resolver.documentId document = .ok resolution.actor.id ∧ resolution.key.id = keyId ∧
      KeyOf resolution.actor.id resolution.key ∧
      ConfirmedAt resolver resolution.actor.username resolution.actor.domain resolution.actor.id := by
  obtain ⟨actorUrl, hactorUrl, h⟩ := bind_eq_ok h
  obtain ⟨-, -, h⟩ := bind_eq_ok h
  obtain ⟨⟨actor, references⟩, hactor, h⟩ := bind_eq_ok h
  obtain ⟨key, hkey, h⟩ := bind_eq_ok h
  obtain ⟨domain, -, h⟩ := bind_eq_ok h
  obtain rfl := Except.ok.inj h
  have hestablished := confirmActor_spec hbody hactor
  have hfind := okOr_eq_ok hkey
  dsimp only
  rw [hestablished.id]
  have heq := List.find?_some hfind
  refine ⟨hactorUrl, eq_of_beq heq, ?_, hestablished.confirmed⟩
  exact (parsePublicKeys_own hestablished.document.keys).embedded key (List.mem_of_find?_eq_some hfind)

/-- CORRECT (key ownership): whatever the web serves, a key id is resolved to a key that the actor's own
    document lists exactly when the document at the URL of the key is one of the key alone, or the
    document of the actor that it names lists the key too. All else holds of every resolution, and of
    that of an account when its domain is read as itself. -/
theorem resolved_key_owned (resolver : RemoteAccountResolver) (keyId : Text)
    (resolution : RemoteKeyResolution) (h : resolver.resolveKeyInner keyId = .ok resolution) :
    (resolver.ownershipHolds keyId = true → KeyOwned resolver keyId resolution) ∧
      (stripAcct keyId = none → KeyOwned resolver keyId resolution →
        resolver.ownershipHolds keyId = true) := by
  rw [RemoteAccountResolver.resolveKeyInner] at h
  cases hacct : stripAcct keyId with
  | some account =>
    rw [hacct] at h
    obtain ⟨hfirst, howns, hconfirmed⟩ := resolveAccountKey_spec h
    refine ⟨fun hholds => ?_, nofun⟩
    rw [RemoteAccountResolver.ownershipHolds, hacct] at hholds
    obtain ⟨hkey, hlisted⟩ := howns.keys _ (List.mem_of_mem_head? hfirst)
    exact ⟨by rw [hacct]; exact hfirst, hkey.owner, hkey.origin, hlisted, hconfirmed hholds⟩
  | none =>
    rw [hacct] at h
    obtain ⟨keyUrl, hparse, h⟩ := bind_eq_ok h
    have hparse := okOr_eq_ok hparse
    have hholds : resolver.ownershipHolds keyId = (resolver.ownDocumentLists keyUrl).toOption.all id := by
      rw [RemoteAccountResolver.ownershipHolds, hacct]
      dsimp only
      rw [hparse, Option.all_some]
    obtain ⟨documentUrl, hdocumentUrl, h⟩ := bind_eq_ok h
    obtain ⟨origin, horigin, h⟩ := bind_eq_ok h
    obtain ⟨response, hresponse, h⟩ := bind_eq_ok h
    obtain ⟨document, hbody, h⟩ := bind_eq_ok h
    have hserved := served_of_response horigin hresponse (okOr_eq_ok hbody)
    rw [hholds, RemoteAccountResolver.ownDocumentLists, hdocumentUrl, ok_bind, hserved, ok_bind]
    split_ifs at h ⊢
    · obtain ⟨hid, hkey, hlisted, hconfirmed⟩ := resolveKeyDocument_spec h
      refine ⟨fun _ => ⟨?_, hkey.owner, hkey.origin, ?_, hconfirmed⟩, fun _ _ => rfl⟩
      · rw [hacct, hid]
        exact hparse
      · rwa [hid]
    · obtain ⟨hactorUrl, hid, hkey, hconfirmed⟩ := resolveKeyActor_spec (okOr_eq_ok hbody) h
      have hlists : ((resolver.documentId document >>= fun actorUrl =>
          (.ok (resolver.actorListsKey actorUrl keyUrl) : Fetched Bool)).toOption.all id = true) ↔
          resolver.actorListsKey resolution.actor.id resolution.key.id = true := by
        rw [hactorUrl, ok_bind, hid]
        exact Iff.rfl
      refine ⟨fun hlisted => ⟨?_, hkey.owner, hkey.origin, hlists.mp hlisted, hconfirmed⟩,
        fun _ howned => hlists.mpr howned.listed⟩
      rw [hacct, hid]
      exact hparse

end Resolver

section Samples

mutual

/-- The text of a document. -/
def render : Value → Text
  | .string s => '"' :: (s.toList ++ ['"'])
  | .array values => '[' :: (renderItems values ++ [']'])
  | .object fields => '\x7b' :: (renderFields fields ++ ['\x7d'])
  | _ => "null".toList

def renderItems : List Value → Text
  | [] => []
  | [value] => render value
  | value :: values => render value ++ ',' :: renderItems values

def renderFields : Fields → Text
  | [] => []
  | [(name, value)] => '"' :: (name.toList ++ "\":".toList) ++ render value
  | (name, value) :: fields =>
    '"' :: (name.toList ++ "\":".toList) ++ render value ++ ',' :: renderFields fields

end

def peerUrl (path : Text) (fragment : Option Text) : Url :=
  ⟨https, [], none, some "h.example".toList, none, path, none, fragment⟩

def alicePath : Text := "/users/alice".toList

def aliceUrl : Url := peerUrl alicePath none

def evePath : Text := "/media/eve".toList

def keyFragment : Text := ['k', 'e', 'y']

/-- The document of an actor at a path, with its only key. -/
def actorDocument (keyPath : String) : Value :=
  .object [("@context", .string activitystreamsContext), ("id", .string "https://h.example/users/alice"),
    ("type", .string "Person"), ("preferredUsername", .string "alice"),
    ("inbox", .string "https://h.example/inbox"),
    ("publicKey", .object [("id", .string keyPath), ("owner", .string "https://h.example/users/alice"),
      ("publicKeyPem", .string "PEM")])]

def aliceDocument : Value := actorDocument "https://h.example/users/alice#key"

/-- A document that has been uploaded to another path, and says that it is the one of Alice. -/
def eveDocument : Value := actorDocument "https://h.example/media/eve#key"

def webfingerDocument : Value :=
  .object [("subject", .string "acct:alice@h.example"), ("links", .array [.object [
    ("rel", .string "self"), ("type", .string "application/activity+json"),
    ("href", .string "https://h.example/users/alice")]])]

def peerOrigin : Text := "https://h.example".toList

def percentEncode (c : Char) : Text :=
  if c = ':' then "%3A".toList else if c = '@' then "%40".toList else [c]

/-- URLs of the peer, and the three documents. -/
def peerDocuments : DocumentEnv where
  origins := ⟨some, id⟩
  parse text := (peerOrigin.isPrefixOf? text).map fun rest =>
    match splitOnce ['#'] rest with
    | some (path, fragment) => peerUrl path (some fragment)
    | none => peerUrl rest none
  asStr url := peerOrigin ++ url.path ++ url.fragment.elim [] ('#' :: ·)
  appendPair url name value := { url with query := some (name ++ '=' :: value.flatMap percentEncode) }
  fromSlice body := [aliceDocument, eveDocument, webfingerDocument].find? fun document =>
    decide (Signatures.asBytes (render document) = body)
  decodeHtmlEntities text := text

def servedAs (contentType : String) (document : Value) : Hop where
  policy _ := .ok ()
  permit := .ok ()
  lookupHost _ port := some [⟨.v4 0x08080808, port⟩]
  clientBuilds := true
  date := []
  response := some ⟨200, none, none, some contentType.toList, none,
    [some (Signatures.asBytes (render document))]⟩

def notFound : Hop := { servedAs "text/html" .null with response := some ⟨404, none, none, none, none, []⟩ }

def peerWeb (url : Url) : Hop :=
  if url.path = alicePath then servedAs "application/activity+json" aliceDocument
  else if url.path = evePath then servedAs "application/activity+json" eveDocument
  else if url.path = "/.well-known/webfinger".toList then
    servedAs "application/jrd+json" webfingerDocument
  else notFound

def peerResolver : RemoteAccountResolver where
  fetcher :=
    { limits := RemoteFetchLimits.bounded ⟨0, 4096, 3⟩
      mediaPolicy := none
      urls := { nameEnv with join := fun url path => some { url with path := '/' :: path } }
      crypto := noCrypto
      web := peerWeb }
  env := peerDocuments
  signer := none

/-- Alice, with a key at a path. -/
def aliceWith (path : Text) : RemoteKeyResolution :=
  let key : RemotePublicKey := ⟨peerUrl path (some keyFragment), aliceUrl, "PEM".toList⟩
  { actor :=
      { id := aliceUrl, username := "alice".toList, domain := "h.example".toList
        actorType := "Person".toList, displayName := [], note := [], suspended := false
        profileUrl := none, avatar := none, header := none, inbox := peerUrl "/inbox".toList none
        sharedInbox := none, followers := none, following := none, publicKeys := [key]
        keySetComplete := true }
    key
    domain := "h.example".toList }

/-- The key of Alice is listed by her document. -/
theorem resolved_key_owned_sample :
    KeyOwned peerResolver "https://h.example/users/alice#key".toList (aliceWith alicePath) :=
  (resolved_key_owned peerResolver "https://h.example/users/alice#key".toList (aliceWith alicePath)
    (by set_option maxRecDepth 4000 in decide)).1 (by set_option maxRecDepth 4000 in decide)

/-- The key at another path is resolved to Alice, whose document does not list it. -/
theorem key_of_another_document :
    peerResolver.resolveKeyInner "https://h.example/media/eve#key".toList = .ok (aliceWith evePath) ∧
      peerResolver.actorListsKey aliceUrl (peerUrl evePath (some keyFragment)) = false ∧
      ¬∀ resolver keyId resolution, RemoteAccountResolver.resolveKeyInner resolver keyId =
        .ok resolution → KeyOwned resolver keyId resolution := by
  have hresolved : peerResolver.resolveKeyInner "https://h.example/media/eve#key".toList =
      .ok (aliceWith evePath) := by set_option maxRecDepth 4000 in decide
  have hlisted : peerResolver.actorListsKey aliceUrl (peerUrl evePath (some keyFragment)) = false := by
    set_option maxRecDepth 4000 in decide
  refine ⟨hresolved, hlisted, fun hall => ?_⟩
  have howned := (hall peerResolver _ _ hresolved).listed
  exact Bool.false_ne_true (hlisted.symm.trans howned)

end Samples

end Rustodon.Remote
