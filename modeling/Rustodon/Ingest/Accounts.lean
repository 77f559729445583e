import Mathlib.Data.Int.Order.Basic
import Mathlib.Data.List.Nodup
import Rustodon.Remote.Actors
import Rustodon.Schemes.Runs

/-! @src mastodon/write_repository/remote_ingest.rs | name:Remote accounts | scheme:labelled runs |
    family:ingest

    The rows of remote accounts, as the documents of their servers write them: resolved actors, operator
    refreshes, `Update` activities and deletions. Keys, images, emojis and timelines are left out. -/

namespace Rustodon.Ingest

-- The order of the identifiers is the one that can be computed.
instance idPreorder : Preorder ℤ := Int.instLinearOrder.toPreorder

open Schemes.Checked Schemes.Json Schemes.Runs
open Remote (RemoteActor canonicalRemoteDomainFromUrl)

inductive WriteError where
  | database
  | conflict
  | invalidInput (message : String)
  | notFound
  | unauthorized
  | forbidden
  | rateLimited
  | validation (message : String)
  deriving DecidableEq, Repr

abbrev Written := Except WriteError

/-! ### Rows -/

/-- A row of `accounts`. Times count microseconds. -/
structure Account where
  id : ℤ
  username : String
  domain : Option String
  uri : String
  actorType : Option String
  displayName : String
  note : String
  url : Option String
  inboxUrl : String
  outboxUrl : String
  sharedInboxUrl : String
  followersUrl : String
  followingUrl : String
  publicKey : String
  locked : Bool
  discoverable : Option Bool
  indexable : Bool
  fields : Option Value
  alsoKnownAs : Option (List String)
  suspendedAt : Option ℤ
  suspensionOrigin : Option ℤ

/-- The rows in the order of their ids. -/
structure Store where
  rows : List Account
  ids_nodup : (rows.map Account.id).Nodup

def accountById (store : Store) (id : ℤ) : Option Account :=
  store.rows.find? fun account => decide (account.id = id)

def accountByUri (store : Store) (uri : String) : Option Account :=
  store.rows.find? fun account => decide (account.uri = uri)

theorem map_id_update (rows : List Account) (id : ℤ) {f : Account → Account}
    (hid : ∀ account, (f account).id = account.id) :
    (rows.map fun account => if account.id = id then f account else account).map Account.id =
      rows.map Account.id := by
  rw [List.map_map]
  refine List.map_congr_left fun account _ => ?_
  rw [Function.comp_apply]
  split_ifs
  · exact hid account
  · rfl

def updateAccount (store : Store) (id : ℤ) (f : Account → Account)
    (hid : ∀ account, (f account).id = account.id) : Store where
  rows := store.rows.map fun account => if account.id = id then f account else account
  ids_nodup := by
    rw [map_id_update store.rows id hid]
    exact store.ids_nodup

theorem not_mem_ids {store : Store} {id : ℤ} (h : accountById store id = none) :
    id ∉ store.rows.map Account.id := by
  intro hmem
  obtain ⟨account, haccount, rfl⟩ := List.mem_map.mp hmem
  have hother := List.find?_eq_none.mp h account haccount
  simp at hother

/-- A new row, with an id that is not taken. -/
def insertAccount (store : Store) (account : Account) (h : accountById store account.id = none) :
    Store where
  rows := store.rows ++ [account]
  ids_nodup := by
    rw [List.map_append, List.nodup_append]
    refine ⟨store.ids_nodup, List.nodup_singleton _, ?_⟩
    rintro id hid _ hnew rfl
    rw [List.map_singleton, List.mem_singleton] at hnew
    exact not_mem_ids h (hnew ▸ hid)

/-- What the libraries and the database do with texts: `Url::as_str`, `Url::parse` and `lower`. -/
structure Env where
  inbox : Inbox.Env
  asStr : Remote.Url → String
  lower : String → String

variable (env : Env)

def accountByHandle (store : Store) (username domain : String) : Option Account :=
  store.rows.find? fun account => decide (env.lower account.username = env.lower username) &&
    account.domain.any fun d => decide (env.lower d = env.lower domain)

/-! ### Actors -/

/-- What moves an account into suspension by its server, and out of it. -/
def withRemoteSuspension (now : ℤ) (suspended : Bool) (account : Account) : Account :=
  { account with
    suspendedAt :=
      if suspended then account.suspendedAt.or (some now)
      else if account.suspensionOrigin = some 1 then none
      else account.suspendedAt
    suspensionOrigin :=
      if suspended ∧ account.suspensionOrigin ≠ some 0 then some 1
      else if ¬ suspended ∧ account.suspensionOrigin = some 1 then none
      else account.suspensionOrigin }

theorem withRemoteSuspension_id (now : ℤ) (suspended : Bool) (account : Account) :
    (withRemoteSuspension now suspended account).id = account.id := rfl

/-- `remote_actor_account_id`. -/
def remoteActorAccountId (uriAccountId : Option ℤ) (handleAccount : Option (ℤ × String))
    (insertedAccountId : Option ℤ) (concurrentHandleAccount : Option (ℤ × String)) (uri : String) :
    Written ℤ :=
  if uriAccountId.any fun uriId => handleAccount.any fun handle => decide (uriId ≠ handle.1) then
    .error .conflict
  else match uriAccountId with
    | some uriAccountId => .ok uriAccountId
    | none =>
      if handleAccount.isSome then .error .conflict
      else match insertedAccountId with
        | some insertedAccountId => .ok insertedAccountId
        | none => okOr ((concurrentHandleAccount.filter fun account => account.2 == uri).map Prod.fst)
            .conflict

def newAccount (newId : ℤ) (username domain uri profileUrl : String) (actor : RemoteActor) : Account where
  id := newId
  username := username
  domain := some domain
  uri := uri
  actorType := some (String.ofList actor.actorType)
  displayName := String.ofList actor.displayName
  note := String.ofList actor.note
  url := some profileUrl
  inboxUrl := env.asStr actor.inbox
  outboxUrl := ""
  sharedInboxUrl := (actor.sharedInbox.map env.asStr).getD ""
  followersUrl := ""
  followingUrl := ""
  publicKey := ""
  locked := false
  discoverable := none
  indexable := false
  fields := none
  alsoKnownAs := none
  suspendedAt := none
  suspensionOrigin := none

/-- `INSERT … ON CONFLICT DO NOTHING`: nothing where the id or the handle is taken. -/
def insertRemoteActor (store : Store) (newId : ℤ) (username domain uri profileUrl : String)
    (actor : RemoteActor) : Option Store :=
  if h : accountById store newId = none ∧ accountByHandle env store username domain = none then
    some (insertAccount store (newAccount env newId username domain uri profileUrl actor) h.1)
  else none

/-- What a resolved actor writes into its row. -/
def withActor (username domain uri profileUrl : String) (actor : RemoteActor) (refresh : Bool)
    (account : Account) : Account :=
  { account with
    username, domain := some domain, uri
    actorType := some (String.ofList actor.actorType)
    displayName := String.ofList actor.displayName
    note := String.ofList actor.note
    url := some profileUrl
    inboxUrl := env.asStr actor.inbox
    sharedInboxUrl := (actor.sharedInbox.map env.asStr).getD ""
    publicKey := if refresh then account.publicKey else ""
    followersUrl := (actor.followers.map env.asStr).getD account.followersUrl
    followingUrl := (actor.following.map env.asStr).getD account.followingUrl }

theorem withActor_id (username domain uri profileUrl : String) (actor : RemoteActor) (refresh : Bool)
    (account : Account) :
    (withActor env username domain uri profileUrl actor refresh account).id = account.id := rfl

/-- What a transaction finds outside of the rows: the policy for domains, the clock, and the id that
    the sequence gives. -/
structure Surroundings where
  domainAllowed : String → Bool
  now : ℤ
  newId : ℤ

/-- `upsert_remote_actor_locked`. -/
def upsertRemoteActorLocked (at_ : Surroundings) (store : Store) (username domain : String)
    (actor : RemoteActor) (existingId : Option ℤ) : Written (Store × ℤ) := do
  let actorHost ← okOr (canonicalRemoteDomainFromUrl actor.id).toOption
    (.invalidInput "remote actor URI is invalid")
  failIf (!([domain, String.ofList actorHost].all at_.domainAllowed))
    (.validation "remote actor domain is not allowed")
  let uri := env.asStr actor.id
  let profileUrl := (actor.profileUrl.map env.asStr).getD uri
  let uriAccountId := (accountByUri store uri).map Account.id
  failIf (existingId.any fun expectedId => decide (uriAccountId ≠ some expectedId) ||
    !(accountById store expectedId).any fun account => decide (account.domain = some domain ∧
      account.uri = uri ∧ env.lower account.username = env.lower username))
    (.validation "remote refresh identity changed")
  let handleAccount := (accountByHandle env store username domain).map fun account =>
    (account.id, account.uri)
  let inserted := if uriAccountId.isNone && handleAccount.isNone then
    insertRemoteActor env store at_.newId username domain uri profileUrl actor else none
  let store := inserted.getD store
  let concurrent := if inserted.isNone && uriAccountId.isNone && handleAccount.isNone then
    (accountByHandle env store username domain).map fun account => (account.id, account.uri) else none
  let accountId ← remoteActorAccountId uriAccountId handleAccount (inserted.map fun _ => at_.newId)
    concurrent uri
  let store := updateAccount store accountId
    (withActor env username domain uri profileUrl actor existingId.isSome)
    (withActor_id env username domain uri profileUrl actor existingId.isSome)
  .ok (updateAccount store accountId (withRemoteSuspension at_.now actor.suspended)
    (withRemoteSuspension_id at_.now actor.suspended), accountId)

def isBlank (text : String) : Bool := (Schemes.Utf8.trim text.toList).isEmpty

def sameUsername (actor : RemoteActor) (username : String) : Bool :=
  Schemes.Utf8.eqIgnoreAsciiCase actor.username username.toList

/-- `upsert_remote_actor`. -/
def upsertRemoteActor (at_ : Surroundings) (store : Store) (username domain : String)
    (actor : RemoteActor) : Written (Store × ℤ) := do
  failIf (isBlank username || isBlank domain || !sameUsername actor username)
    (.invalidInput "remote actor handle is invalid")
  upsertRemoteActorLocked env at_ store username domain actor none

/-- `refresh_remote_actor`. -/
def refreshRemoteActor (at_ : Surroundings) (store : Store) (accountId : ℤ) (username domain : String)
    (actor : RemoteActor) : Written (Store × ℤ) := do
  failIf (isBlank username || !sameUsername actor username)
    (.validation "remote refresh handle changed")
  upsertRemoteActorLocked env at_ store username domain actor (some accountId)

/-! ### Updates -/

/-- `Value::get`. -/
def field (object : Value) (key : String) : Option Value :=
  object.asObject.bind fun fields => Schemes.Json.get fields key

def remoteActorText (object : Value) (key : String) : Written (Option String) :=
  match field object key with
  | none => .ok none
  | some .null => .ok none
  | some (.string value) => .ok (some value)
  | some _ => .error (.invalidInput "remote actor text field is invalid")

def remoteActorBool (object : Value) (key : String) : Written (Option Bool) :=
  match field object key with
  | none => .ok none
  | some .null => .ok none
  | some (.bool value) => .ok (some value)
  | some _ => .error (.invalidInput "remote actor boolean field is invalid")

/-- A URL over HTTP with a host. -/
def isHttpUrl (text : String) : Bool :=
  (env.inbox.parseUrl text).any fun url =>
    (url.scheme == "http" || url.scheme == "https") && url.hostStr.isSome

def remoteActorObjectUri (object : Value) (key : String) : Written (Option String) := do
  let value ← (match field object key with
    | none => .ok none
    | some (.string value) => .ok (some value)
    | some (.object fields) => .ok ((Schemes.Json.get fields "id").bind Value.asStr)
    | some .null => .ok none
    | some _ => .error (.invalidInput "remote actor URI field is invalid"))
  failIf (value.any fun value => !isHttpUrl env value) (.invalidInput "remote actor URI field is invalid")
  .ok value

/-- One attachment of the first 20: a field, or something else. -/
def remoteActorField (attachment : Value) : Written (Option Value) :=
  match (attachment.asObject.filter fun fields =>
      (Schemes.Json.get fields "type").bind Value.asStr == some "PropertyValue").bind fun fields =>
        ((Schemes.Json.get fields "name").bind Value.asStr).bind fun name =>
          ((Schemes.Json.get fields "value").bind Value.asStr).map fun value => (name, value) with
  | none => .ok none
  | some (name, value) =>
    if 255 < name.length ∨ 2048 < value.length then
      .error (.invalidInput "remote actor field is too long")
    else .ok (some (.object [("name", .string name), ("value", .string value)]))

def remoteActorFields (object : Value) : Written (Option Value) :=
  match field object "attachment" with
  | none => .ok none
  | some (.array attachments) => do
    let fields ← (attachments.take 20).mapM remoteActorField
    .ok (some (.array (fields.filterMap id)))
  | some _ => .error (.invalidInput "remote actor fields are invalid")

def remoteActorAlias (value : Value) : Written String := do
  let uri ← okOr value.asStr (.invalidInput "remote actor alias is invalid")
  failIf (!isHttpUrl env uri) (.invalidInput "remote actor alias is invalid")
  .ok uri

def remoteActorAliases (object : Value) : Written (Option (List String)) :=
  match field object "alsoKnownAs" with
  | none => .ok none
  | some (.array aliases) => do
    let aliases ← (aliases.take 20).mapM (remoteActorAlias env)
    .ok (some aliases)
  | some _ => .error (.invalidInput "remote actor aliases are invalid")

/-- The URI of the shared inbox, where there are endpoints. -/
def remoteActorEndpoints (object : Value) : Written (Option (Option String)) :=
  match field object "endpoints" with
  | none => .ok none
  | some (.object endpoints) => do
    let sharedInbox ← remoteActorObjectUri env (.object endpoints) "sharedInbox"
    .ok (some sharedInbox)
  | some _ => .error (.invalidInput "remote actor endpoints are invalid")

def remoteActorApproval (object : Value) : Written (Option Bool) :=
  match field object "manuallyApprovesFollowers" with
  | none => .ok none
  | some (.bool value) => .ok (some value)
  | some _ => .error (.invalidInput "remote actor approval policy is invalid")

/-- What an `Update` of an actor says. -/
structure ActorUpdate where
  username : Option String
  actorType : Option String
  displayName : Option String
  note : Option String
  url : Option String
  inboxUrl : Option String
  outboxUrl : Option String
  followersUrl : Option String
  followingUrl : Option String
  sharedInboxUrl : Option (Option String)
  locked : Option Bool
  discoverable : Option Bool
  indexable : Option Bool
  fields : Option Value
  alsoKnownAs : Option (List String)
  suspended : Bool

def parseActorUpdate (actorUri : String) (object : Value) : Written ActorUpdate := do
  let objectUri ← remoteActorObjectUri env object "id"
  let objectUri ← okOr objectUri (.invalidInput "remote actor update has no ID")
  failIf (objectUri != actorUri)
    (.invalidInput "remote actor update identity does not match its signer")
  let username ← remoteActorText object "preferredUsername"
  let displayName ← remoteActorText object "name"
  let note ← remoteActorText object "summary"
  let url ← remoteActorObjectUri env object "url"
  let inboxUrl ← remoteActorObjectUri env object "inbox"
  let outboxUrl ← remoteActorObjectUri env object "outbox"
  let followersUrl ← remoteActorObjectUri env object "followers"
  let followingUrl ← remoteActorObjectUri env object "following"
  let sharedInboxUrl ← remoteActorEndpoints env object
  let actorType := (field object "type").bind Value.asStr
  let locked ← remoteActorApproval object
  let discoverable ← remoteActorBool object "discoverable"
  let indexable ← remoteActorBool object "indexable"
  let suspended ← remoteActorBool object "suspended"
  let fields ← remoteActorFields object
  let alsoKnownAs ← remoteActorAliases env object
  let _ ← okOr (Inbox.actorImageUri env.inbox (field object "icon")).toOption
    (.invalidInput "remote actor image URI is invalid")
  let _ ← okOr (Inbox.actorImageUri env.inbox (field object "image")).toOption
    (.invalidInput "remote actor image URI is invalid")
  .ok { username, actorType, displayName, note, url, inboxUrl, outboxUrl, followersUrl, followingUrl
        sharedInboxUrl, locked, discoverable, indexable, fields, alsoKnownAs
        suspended := suspended.getD false }

def withUpdate (update : ActorUpdate) (account : Account) : Account :=
  { account with
    username := update.username.getD account.username
    actorType := update.actorType.or account.actorType
    displayName := update.displayName.getD account.displayName
    note := update.note.getD account.note
    url := update.url.or account.url
    inboxUrl := update.inboxUrl.getD account.inboxUrl
    outboxUrl := update.outboxUrl.getD account.outboxUrl
    followersUrl := update.followersUrl.getD account.followersUrl
    followingUrl := update.followingUrl.getD account.followingUrl
    sharedInboxUrl := (update.sharedInboxUrl.map fun url => url.getD "").getD account.sharedInboxUrl
    locked := update.locked.getD account.locked
    discoverable := update.discoverable.or account.discoverable
    indexable := update.indexable.getD account.indexable
    fields := update.fields.or account.fields
    alsoKnownAs := update.alsoKnownAs.or account.alsoKnownAs }

theorem withUpdate_id (update : ActorUpdate) (account : Account) :
    (withUpdate update account).id = account.id := rfl

/-- Handles are unique. -/
def handleTaken (store : Store) (account : Account) : Bool :=
  store.rows.any fun other => decide (other.id ≠ account.id ∧ env.lower other.username = env.lower account.username ∧
    other.domain.map env.lower = account.domain.map env.lower)

/-- `apply_remote_actor_update`. A suspension that the server has not imposed is left alone, with
    everything else. -/
def applyRemoteActorUpdate (now : ℤ) (store : Store) (accountId : ℤ) (actorUri : String)
    (object : Value) : Written Store := do
  let update ← parseActorUpdate env actorUri object
  match accountById store accountId with
  | none => .ok store
  | some account =>
    if account.domain = none ∨ account.uri ≠ actorUri ∨ account.suspensionOrigin = some 0 ∨
        (account.suspendedAt.isSome ∧ account.suspensionOrigin ≠ some 1) then
      .ok store
    else if handleTaken env store (withUpdate update account) then .error .database
    else
      .ok (updateAccount (updateAccount store accountId (withUpdate update) (withUpdate_id update)) accountId
        (withRemoteSuspension now update.suspended) (withRemoteSuspension_id now update.suspended))

/-- What is left of a row when its actor is deleted. -/
def tombstone (now : ℤ) (account : Account) : Account :=
  { account with
    suspendedAt := account.suspendedAt.or (some now), suspensionOrigin := none, locked := false
    discoverable := some false, displayName := "", note := "", fields := some (.array [])
    alsoKnownAs := some [], url := none, inboxUrl := "", outboxUrl := "", followersUrl := ""
    followingUrl := "", sharedInboxUrl := "" }

theorem tombstone_id (now : ℤ) (account : Account) : (tombstone now account).id = account.id := rfl

/-- `apply_remote_actor_delete`, of the row itself. -/
def applyRemoteActorDelete (now : ℤ) (store : Store) (accountId : ℤ) (actorUri : String)
    (expectedSuspendedAt : Option ℤ) : Written Store :=
  match accountById store accountId with
  | none => .ok store
  | some account =>
    if account.domain = none ∨ account.uri ≠ actorUri ∨
        expectedSuspendedAt.any fun expected => decide (account.suspendedAt ≠ some expected) then
      .ok store
    else .ok (updateAccount store accountId (tombstone now) (tombstone_id now))

end Rustodon.Ingest
